import Coupling.Proofs.FlatReferences

/-!
# The order of the declarations of a file

A reading by flat names binds the name of a class where the class is declared. So a type counts for
a class of another declaration of the file only if that was read before, or if the name stands for
the class anyway (`Spares`): because it is imported, or because the file is in no package. If this
is so of all declarations (`Undisturbed`), they have the same effects in every order, and the same
counts are found (`flat_counts_in_any_order`). In another file the order makes a difference
(`forward_reference_lost`).
-/

namespace Coupling.Java.ParseTree

/-! ## Trees without places -/

mutual

/-- A tree without the places of its tokens. -/
def bare : ParseTree → ParseTree
  | .token t => .token ⟨t.kind, t.text, .start, 0⟩
  | .skipped t => .skipped ⟨t.kind, t.text, .start, 0⟩
  | .missing k => .missing k
  | .node info cs => .node ⟨info.form, ⟨.eof, "", .start, 0⟩, none, []⟩ (bareOf cs)

def bareOf : List ParseTree → List ParseTree
  | [] => []
  | t :: ts => bare t :: bareOf ts

end

theorem bareOf_eq (ts : List ParseTree) : bareOf ts = ts.map bare := by
  induction ts with
  | nil => rfl
  | cons t ts ih => rw [bareOf, ih, List.map_cons]

mutual

theorem texts_bare : ∀ t : ParseTree, t.bare.leaves.map Leaf.text = t.leaves.map Leaf.text
  | .token _ | .skipped _ | .missing _ => rfl
  | .node _ cs => texts_bareOf cs

theorem texts_bareOf : ∀ ts : List ParseTree, (leavesOf (bareOf ts)).map Leaf.text =
    (leavesOf ts).map Leaf.text
  | [] => rfl
  | t :: ts => by rw [bareOf, leavesOf, leavesOf, List.map_append, List.map_append, texts_bare t,
    texts_bareOf ts]

end

theorem children_bare (t : ParseTree) : t.bare.children = t.children.map bare := by
  cases t with
  | node info cs => exact bareOf_eq cs
  | token | skipped | missing => rfl

theorem isA_bare (r : RuleName) : isA r ∘ bare = isA r := by
  funext t
  cases t <;> rfl

theorem first?_bare (t : ParseTree) (r : RuleName) : t.bare.first? r = (t.first? r).map bare := by
  rw [first?, first?, children_bare, List.find?_map, isA_bare]

theorem all_bare (t : ParseTree) (r : RuleName) : t.bare.all r = (t.all r).map bare := by
  rw [all, all, children_bare, List.filter_map, isA_bare]

theorem firstToken?_bare (t : ParseTree) (k : Kind) :
    t.bare.firstToken? k = (t.firstToken? k).map bare := by
  rw [firstToken?, firstToken?, children_bare, List.find?_map]
  congr 2
  funext t
  cases t <;> rfl

end Coupling.Java.ParseTree

namespace Coupling.Project

open Java (ParseTree)
open Steps

namespace FlatAnalyze

variable (classes : ClassTable) (n : Numbering)

theorem textOf_bare (t : ParseTree) (r : Java.RuleName) :
    (textOf (t.bare.first? r) : FlatAnalyze String) = textOf (t.first? r) := by
  rw [ParseTree.first?_bare]
  cases t.first? r with
  | none => rfl
  | some part =>
    show (pure (String.join _) : FlatAnalyze String) = pure (String.join _)
    rw [ParseTree.texts_bare]

theorem typeOf_bare (t : ParseTree) : typeOf t.bare = typeOf t := by
  rw [typeOf, textOf_bare, typeOf]

theorem addImport_bare (t : ParseTree) : addImport t.bare = addImport t := by
  rw [addImport, textOf_bare, ParseTree.firstToken?_bare, Option.isNone_map, addImport]

theorem enterClass_bare (t : ParseTree) : enterClass classes n t.bare = enterClass classes n t := by
  rw [enterClass, textOf_bare, typeOf_bare, ParseTree.firstToken?_bare, ParseTree.firstToken?_bare,
    Option.isSome_map, Option.isSome_map, enterClass]

theorem addParameters_bare (current : String) (t : ParseTree) :
    addParameters classes n current t.bare = addParameters classes n current t := by
  have hloop (ps : List ParseTree) : ((ps.map ParseTree.bare).forM fun p =>
      (do interact classes n current (← typeOf p) :
      FlatAnalyze Unit)) = ps.forM (fun p => (do interact classes n current (← typeOf p))) := by
    induction ps with
    | nil => rfl
    | cons p ps ih =>
      have hone := congrArg (· >>= fun type => interact classes n current type) (typeOf_bare p)
      exact congrArg₂ (fun x y => (x >>= fun _ => y : FlatAnalyze Unit)) hone ih
  unfold addParameters parametersOf
  rw [ParseTree.first?_bare]
  cases t.first? .formalParameters with
  | none => rfl
  | some l =>
    simp only [Option.map_some, need, pure_bind, ParseTree.first?_bare]
    cases l.first? .formalParameterList with
    | none => rfl
    | some ps =>
      simp only [Option.map_some, ParseTree.all_bare, Option.getD_some]
      exact hloop _

mutual

/-- A reading does not look at places. -/
theorem visit_bare : ∀ (t : ParseTree) (current : String), visit classes n current t.bare =
    visit classes n current t
  | .token _, _ | .skipped _, _ | .missing _, _ => rfl
  | .node info cs, current => by
    have hcs := visitAll_bare cs
    have hname := textOf_bare (.node info cs) .qualifiedName
    have himport := addImport_bare (.node info cs)
    have hclass := enterClass_bare classes n (.node info cs)
    have htype := typeOf_bare (.node info cs)
    have hparameters := addParameters_bare classes n current (.node info cs)
    rw [ParseTree.bare] at hname himport hclass htype hparameters ⊢
    rw [visit, visit]
    simp only [hcs, hname, himport, hclass, htype, hparameters]

theorem visitAll_bare : ∀ (ts : List ParseTree) (current : String),
    visitAll classes n current (ParseTree.bareOf ts) = visitAll classes n current ts
  | [], _ => rfl
  | t :: ts, current => by rw [ParseTree.bareOf, visitAll, visitAll, visit_bare t current,
    visitAll_bare ts current]

end

theorem visitAll_append (current : String) (ts us : List ParseTree) :
    visitAll classes n current (ts ++ us) = visitAll classes n current ts >>= fun _ =>
    visitAll classes n current us := by
  induction ts with
  | nil => exact (pure_bind _ _).symm
  | cons t ts ih => rw [List.cons_append, visitAll, visitAll, ih, bind_assoc]

end FlatAnalyze

/-! ## Names that stand for the same everywhere -/

/-- The names of the types that are stated in a tree. -/
def namesStated (t : ParseTree) : List String :=
  (nodesAt [] t).flatMap fun m => (flatTypes m.node).map fun type => bareName type.text

/-- No class that is declared in a tree changes what a name stands for that is stated in another
one. -/
def Spares (e : Entered) (t other : ParseTree) : Prop :=
  ∀ m ∈ nodesAt [] t, m.node.form? = some (.rule .classDeclaration) →
    partText m.node .identifier ∈ namesStated other →
      (e.bound.lookup (partText m.node .identifier)).getD (partText m.node .identifier) =
        nameIn e.package none (partText m.node .identifier)

/-- No declaration changes what a name stands for that is stated in another one. -/
structure Undisturbed (e : Entered) (ts : List ParseTree) : Prop where
  bodies : ∀ t ∈ ts, ∀ m ∈ nodesAt [] t, m.node.form? ≠ some (.rule .packageDeclaration) ∧
    m.node.form? ≠ some (.rule .importDeclaration)
  apart : ts.Pairwise fun t t' => Spares e t t' ∧ Spares e t' t

/-- Two have entered the same package, and names that stand for the same. -/
structure Entered.Agree (names : List String) (e e' : Entered) : Prop where
  package : e.package = e'.package
  bound : ∀ name ∈ names, (e.bound.lookup name).getD name = (e'.bound.lookup name).getD name

namespace Entered.Agree

variable {names : List String} {e e' : Entered} (h : e.Agree names e')
include h

theorem bind (key full : String) :
    ∀ name ∈ names, (((key, full) :: e.bound).lookup name).getD name =
      (((key, full) :: e'.bound).lookup name).getD name := by
  intro name hname
  rw [List.lookup_cons, List.lookup_cons]
  cases name == key with
  | true => rfl
  | false => exact h.bound name hname

theorem enter (m : PlacedNode) : (e.enter m).Agree names (e'.enter m) := by
  unfold Entered.enter
  split
  · exact ⟨rfl, h.bound⟩
  · simp only
    split
    · exact ⟨h.package, h.bind _ _⟩
    · exact h
  · rw [h.package]
    exact ⟨rfl, h.bind _ _⟩
  · exact h

theorem classes_enter (hclasses : e.classes = e'.classes) (m : PlacedNode) :
    (e.enter m).classes = (e'.enter m).classes := by
  unfold Entered.enter
  split
  · exact hclasses
  · simp only
    split <;> exact hclasses
  · simp only [h.package, hclasses]
  · exact hclasses

theorem effects_eq (current : String) {t : ParseTree}
    (ht : ∀ type ∈ flatTypes t, bareName type.text ∈ names) :
    e.effects current t = e'.effects current t := by
  have hstating (noted : Bool) : (typedParts t).flatMap (e.stating noted current) =
      (typedParts t).flatMap (e'.stating noted current) := List.flatMap_congr fun p hp => by
    unfold Entered.stating
    cases htype : p.first? .typeType with
    | none => rfl
    | some type =>
      have hmem : type ∈ flatTypes t := by
        rw [flatTypes_eq]
        exact List.mem_filterMap.mpr ⟨p, hp, htype⟩
      simp only [Option.elim_some, Entered.standsFor, h.bound _ (ht type hmem)]
  simp only [Entered.effects, hstating]

theorem effectsFrom_eq (hclasses : e.classes = e'.classes) {ns : List PlacedNode}
    (hns : ∀ m ∈ ns, ∀ type ∈ flatTypes m.node, bareName type.text ∈ names) :
    effectsFrom e ns = effectsFrom e' ns := by
  induction ns generalizing e e' with
  | nil => rfl
  | cons m ns ih =>
    have hclasses' := h.classes_enter hclasses m
    have hrest := ih (h.enter m) hclasses' fun m' hm => hns m' (List.mem_cons_of_mem m hm)
    rw [effectsFrom, effectsFrom, hrest, Entered.effectsAt, Entered.effectsAt, Entered.around,
      hclasses', ← Entered.around, (h.enter m).effects_eq _ (hns m List.mem_cons_self)]

end Entered.Agree

/-- A declaration that spares another one leaves what the names in that one stand for. -/
theorem Spares.enterAll {e₀ e : Entered} {t other : ParseTree} (h : Spares e₀ t other)
    (hbodies : ∀ m ∈ nodesAt [] t, m.node.form? ≠ some (.rule .packageDeclaration) ∧
      m.node.form? ≠ some (.rule .importDeclaration))
    {ns : List PlacedNode} (hns : ns ⊆ nodesAt [] t) (he : e₀.Agree (namesStated other) e) :
    e₀.Agree (namesStated other) (e.enterAll ns) := by
  induction ns generalizing e with
  | nil => exact he
  | cons m ns ih =>
    obtain ⟨hm, hns⟩ := List.cons_subset.mp hns
    obtain ⟨hpackage, himport⟩ := hbodies m hm
    refine ih hns ?_
    unfold Entered.enter
    split
    · contradiction
    · contradiction
    · next hform =>
      refine ⟨he.package, fun name hname => ?_⟩
      rw [List.lookup_cons]
      by_cases heq : name = partText m.node .identifier
      · subst heq
        rw [beq_self_eq_true, h m hm hform hname, he.package]
        rfl
      · rw [beq_false_of_ne heq]
        exact he.bound name hname
    · exact he

/-- The effects of a declaration at the top level. -/
def Entered.effectsOf (e : Entered) (t : ParseTree) : List Effect :=
  effectsFrom { e with classes := [] } (nodesAt [] t)

/-- What the head of a file has entered. -/
def enteredBy (head : List ParseTree) : Entered := Entered.enterAll {} (nodesFrom [] 0 head)

/-- The effects of the head of a file, and then those that each declaration would have alone. -/
def effectsApart (head ts : List ParseTree) : List Effect :=
  effectsFrom {} (nodesFrom [] 0 head) ++ ts.flatMap (enteredBy head).effectsOf

namespace FlatAnalyze

variable {classes : ClassTable} {n : Numbering}

/-- Declarations at the top level each have the effects that they would have alone. -/
theorem visitAll_undisturbed {e₀ : Entered} {ts : List ParseTree} (h : Undisturbed e₀ ts)
    {e : Entered} (he : ∀ t ∈ ts, e₀.Agree (namesStated t) e) :
    ∃ e', ∀ a, Follows e a →
    Does classes n e' (ts.flatMap e₀.effectsOf) a ((visitAll classes n "" ts).run.run a) := by
  induction ts generalizing e with
  | nil => exact ⟨e, fun a hf => .nothing hf ()⟩
  | cons t ts ih =>
    obtain ⟨hbody, hbodies⟩ := List.forall_mem_cons.mp h.bodies
    obtain ⟨hspares, hapart⟩ := List.pairwise_cons.mp h.apart
    obtain ⟨ht, hts⟩ := List.forall_mem_cons.mp he
    have hfresh : Entered.Agree (namesStated t) { e₀ with classes := [] }
      { e with classes := [] } := ⟨ht.package, ht.bound⟩
    have heffects : e₀.effectsOf t = effectsFrom { e with classes := [] } (nodesAt [] t) :=
      hfresh.effectsFrom_eq rfl fun m hm type htype =>
        List.mem_flatMap.mpr ⟨m, hm, List.mem_map_of_mem htype⟩
    have hrest (t' : ParseTree) (ht' : t' ∈ ts) :
        e₀.Agree (namesStated t') { e with classes := [] } :=
      ⟨(hts t' ht').package, (hts t' ht').bound⟩
    obtain ⟨e', hrest⟩ := ih ⟨hbodies, hapart⟩ fun t' ht' =>
      (hspares t' ht').1.enterAll hbody (List.Subset.refl _) (hrest t' ht')
    refine ⟨e', fun a hf => ?_⟩
    have hone : Does classes n _ _ a ((visit classes n "" t).run.run a) :=
      visit_does t (⟨hf.package, hf.full⟩ : Follows { e with classes := [] } a)
        ⟨none, rfl, fun below => (rfl : Entered.around _ ([] ++ below) = none)⟩
    rw [List.flatMap_cons, heffects]
    exact hone.bind fun _ a' _ hf' => hrest a' hf'

/-- A reading of a file whose declarations disturb no name. -/
theorem visit_undisturbed (classes : ClassTable) (n : Numbering) {tree : ParseTree}
    {info : Java.NodeInfo} {head ts : List ParseTree}
    (htree : tree.bare = .node info (head ++ ts)) (hform : info.form = .rule .compilationUnit)
    (h : Undisturbed (enteredBy head) ts) (registry : Registry) (m : Matrix) :
    let out := (visit classes n "" tree).run.run { registry, matrix := m }
    (out.1.toBool, out.2.registry, out.2.matrix) =
      applyAll classes n (effectsApart head ts) (registry, m) := by
  have hvisit : visit classes n "" tree = visitAll classes n "" head >>= fun _ =>
      visitAll classes n "" ts := by
    rw [← visit_bare, htree, visit, ← visitAll_append]
    simp only [hform]
  obtain ⟨e', hrest⟩ : ∃ e', ∀ a, Follows _ a → Does classes n e' _ a _ :=
    visitAll_undisturbed h fun t _ => ⟨rfl, fun _ _ => rfl⟩
  have hhead : Does classes n (enteredBy head) (effectsFrom {} (nodesFrom [] 0 head))
      { registry, matrix := m } _ :=
    visitAll_does head (fun j _ =>
      ⟨none, rfl, fun below => (rfl : Entered.around {} ([] ++ [j] ++ below) = none)⟩)
      ⟨rfl, fun _ => rfl⟩
  rw [hvisit]
  exact (hhead.bind fun _ a' _ hf' => hrest a' hf').applied

end FlatAnalyze

/-! ## Effects in another order -/

/-- Whether an effect has no fault, with a table whose classes are all numbered. -/
def Effect.granted (classes : ClassTable) : Effect → Bool
  | .note name _ => classes.contains name
  | .count source target => source == target || !classes.contains target || classes.contains source
  | .fault => false

/-- Whether there is no fault does not depend on the order of effects. -/
theorem applyAll_granted {classes : ClassTable} (xs : List Effect) {s : Registry × Matrix}
    (hm : s.2.Square classes.keys.length) :
    (applyAll classes ⟨classes.keys⟩ xs s).1 = xs.all (Effect.granted classes) := by
  induction xs generalizing s with
  | nil => rfl
  | cons x xs ih =>
    have hgranted : (x.apply classes ⟨classes.keys⟩ s).isSome = x.granted classes := by
      cases x with
      | note name super =>
        rw [Effect.apply, Option.isSome_map]
        rfl
      | count source target =>
        rw [Effect.apply, Effect.granted]
        split
        · next h => rcases h with h | h <;> simp [h]
        · next h =>
          rw [not_or, Bool.not_eq_false] at h
          rw [beq_false_of_ne h.1, h.2, Option.isSome_map]
          cases hsource : classes.contains source with
          | true =>
            obtain ⟨m', hm'⟩ := exists_countInteraction (n := ⟨classes.keys⟩) hm.covers
              (Table.contains_iff_mem_keys.mp hsource) (Table.contains_iff_mem_keys.mp h.2)
            rw [hm']
            rfl
          | false =>
            cases hcount : countInteraction ⟨classes.keys⟩ (some s.2) source target with
            | error f => rfl
            | ok m' =>
              obtain ⟨m, i, j, -, hi, -⟩ := countInteraction_eq_ok hcount
              have hmem :=
                Table.contains_iff_mem_keys.mpr
                  (List.mem_of_getElem? (Numbering.names_of_index? hi))
              cases hsource.symm.trans hmem
      | fault => rfl
    rw [applyAll, List.all_cons, ← hgranted]
    cases hx : x.apply classes ⟨classes.keys⟩ s with
    | none => rfl
    | some s' => exact (ih ((Effect.apply_counted hx).square _ hm)).trans (Bool.true_and _).symm

theorem Undisturbed.perm {e : Entered} {ts ts' : List ParseTree} (h : Undisturbed e ts)
    (hperm : ts.Perm ts') :
    Undisturbed e ts' where
  bodies t ht := h.bodies t (hperm.mem_iff.mpr ht)
  apart := (hperm.pairwise_iff fun h => h.symm).mp h.apart

/-- What a reading of a tree with a matrix of zeros leads to. -/
def readAfresh (classes : ClassTable) (registry : Registry) (tree : ParseTree) :
    Except Fault Unit × FlatAnalysis :=
  (FlatAnalyze.visit classes ⟨classes.keys⟩ "" tree).run.run
    { registry, matrix := .zero classes.keys.length }

theorem readAfresh_undisturbed (classes : ClassTable) (registry : Registry) {tree : ParseTree}
    {info : Java.NodeInfo}
    {head ts : List ParseTree} (htree : tree.bare = .node info (head ++ ts))
    (hform : info.form = .rule .compilationUnit) (h : Undisturbed (enteredBy head) ts) :
    (readAfresh classes registry tree).1.toBool =
        (effectsApart head ts).all (Effect.granted classes) ∧
      ((readAfresh classes registry tree).1.toBool = true → ∀ p ∈ classes.keys, ∀ q ∈ classes.keys,
        cell ⟨classes.keys⟩ (some (readAfresh classes registry tree).2.matrix) p q =
          some (Int64.ofNat
            (flatHits p q ((effectsApart head ts).filterMap Effect.reference?)))) := by
  have hread := FlatAnalyze.visit_undisturbed classes ⟨classes.keys⟩ htree hform h
    registry (.zero classes.keys.length)
  rw [← readAfresh] at hread
  have hsquare := Matrix.square_zero classes.keys.length
  refine ⟨(congrArg Prod.fst hread).trans (applyAll_granted _ hsquare), fun hend p hp q hq => ?_⟩
  simp only at hread
  rw [hend] at hread
  obtain ⟨i, hi, hilt⟩ := Numbering.exists_index? (n := ⟨classes.keys⟩) hp
  obtain ⟨j, hj, hjlt⟩ := Numbering.exists_index? (n := ⟨classes.keys⟩) hq
  rw [(applyAll_counted hread.symm).2.cell p q (Table.contains_iff_mem_keys.mpr hq), cell, hi, hj,
    Option.bind_some, Option.bind_some, Option.bind_some, Matrix.cell?_zero hilt hjlt,
    Option.map_some, Int64.zero_add]

/-- **Counts by flat names do not depend on the order of the declarations of a file**, if none of
them changes what a name stands for that another one states. Take two files that are the same up to
the places of their tokens, but for the order of the declarations after their head, and tables with
the same classes. If the reading of the one comes to its end, so does the reading of the other, and
the count from any class to any other is the same in both. -/
theorem flat_counts_in_any_order {classes classes' : ClassTable}
    (hkeys : classes.keys.Perm classes'.keys)
    {tree tree' : ParseTree} {info : Java.NodeInfo} {head ds ds' : List ParseTree}
    (htree : tree.bare = .node info (head ++ ds)) (htree' : tree'.bare = .node info (head ++ ds'))
    (hform : info.form = .rule .compilationUnit) (hds : ds.Perm ds')
    (h : Undisturbed (enteredBy head) ds) (registry registry' : Registry) :
    (readAfresh classes' registry' tree').1.toBool = (readAfresh classes registry tree).1.toBool ∧
      ((readAfresh classes registry tree).1.toBool = true → ∀ p ∈ classes.keys, ∀ q ∈ classes.keys,
        cell ⟨classes'.keys⟩ (some (readAfresh classes' registry' tree').2.matrix) p q =
          cell ⟨classes.keys⟩ (some (readAfresh classes registry tree).2.matrix) p q) := by
  obtain ⟨hends, hcells⟩ := readAfresh_undisturbed classes registry htree hform h
  obtain ⟨hends', hcells'⟩ := readAfresh_undisturbed classes' registry' htree' hform (h.perm hds)
  have hperm : (effectsApart head ds).Perm (effectsApart head ds') :=
    (hds.flatMap_right _).append_left _
  have hgranted : Effect.granted classes = Effect.granted classes' := by
    have hcontains (name : String) : classes.contains name = classes'.contains name := by
      rw [Bool.eq_iff_iff, Table.contains_iff_mem_keys, Table.contains_iff_mem_keys, hkeys.mem_iff]
    funext x
    cases x <;> simp [Effect.granted, hcontains]
  have hsame : (readAfresh classes' registry' tree').1.toBool =
      (readAfresh classes registry tree).1.toBool := by
    rw [hends, hends', hgranted, hperm.all_eq]
  refine ⟨hsame, fun hend p hp q hq => ?_⟩
  rw [hcells hend p hp q hq, hcells' (hsame.trans hend) p (hkeys.mem_iff.mp hp) q
    (hkeys.mem_iff.mp hq), flatHits, flatHits, (hperm.filterMap _).count_eq]

open Profiler (branch named packageOf importOf classNamed fieldOf)

instance (e : Entered) (t other : ParseTree) : Decidable (Spares e t other) :=
  inferInstanceAs (Decidable (∀ m ∈ nodesAt [] t, _ → _ → _))

instance (e : Entered) (ts : List ParseTree) : Decidable (Undisturbed e ts) :=
  decidable_of_iff ((∀ t ∈ ts, ∀ m ∈ nodesAt [] t, m.node.form? ≠ some (.rule .packageDeclaration) ∧
      m.node.form? ≠ some (.rule .importDeclaration)) ∧ ts.Pairwise fun t t' => Spares e t t' ∧
      Spares e t' t)
    ⟨fun ⟨hbodies, hapart⟩ => ⟨hbodies, hapart⟩, fun h => ⟨h.bodies, h.apart⟩⟩

/-- A file in a package with a class that has a field of another class, the one or the other
first. -/
def pairOfClasses (imports : List ParseTree) (swapped : Bool) : ParseTree :=
  branch .compilationUnit (packageOf "p" :: imports ++ if swapped
    then [classNamed (named "B") [], classNamed (named "A") [fieldOf "B"]]
    else [classNamed (named "A") [fieldOf "B"], classNamed (named "B") []])

/-- What a reading of it finds, and how often the field is counted. -/
def pairRead (names : List String) (imports : List ParseTree) (swapped : Bool) :
    Bool × Option Int64 :=
  let out := readAfresh (classesNamed names) .empty (pairOfClasses imports swapped)
  (out.1.toBool, cell ⟨(classesNamed names).keys⟩ (some out.2.matrix) "p.A" "p.B")

/-- With an import of the other class both orders count the field. -/
theorem importedPair_in_any_order :
    pairRead ["p.A", "p.B"] [importOf "p" "B"] false = (true, some 1) ∧
      pairRead ["p.B", "p.A"] [importOf "p" "B"] true = (true, some 1) := by
  have hread : pairRead ["p.A", "p.B"] [importOf "p" "B"] false =
    (true, some 1) := by decide +kernel
  obtain ⟨hend, hcount⟩ := Prod.mk.inj hread
  have hsettled : Undisturbed (enteredBy [(packageOf "p").bare, (importOf "p" "B").bare])
      [(classNamed (named "A") [fieldOf "B"]).bare, (classNamed (named "B") []).bare] := by
        decide +kernel
  obtain ⟨hends, hcells⟩ := @flat_counts_in_any_order (classesNamed ["p.A", "p.B"])
    (classesNamed ["p.B", "p.A"])
    (.swap _ _ []) (pairOfClasses [importOf "p" "B"] false) (pairOfClasses [importOf "p" "B"] true)
      _ _ _ _ rfl rfl rfl
    (.swap _ _ []) hsettled .empty .empty
  exact ⟨hread, Prod.ext (hends.trans hend)
    ((hcells hend "p.A" (by decide) "p.B" (by decide)).trans hcount)⟩

/-- **Without the import a class that is declared further down is not found.** The field is counted
only if its class comes first. -/
theorem forward_reference_lost :
    pairRead ["p.A", "p.B"] [] false = (true, some 0) ∧ pairRead ["p.B", "p.A"] [] true =
      (true, some 1) := by
  decide +kernel

end Coupling.Project
