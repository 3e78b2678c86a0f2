import Coupling.Proofs.FileOrder
import Coupling.Proofs.Projects
import Coupling.Proofs.Table
import Coupling.Proofs.TwoReadings
import Coupling.Project.Flat

/-!
# Stated references by flat names

Which references a tree states when classes are known by their flat names, said without any reading:
the nodes of the tree are gone through in order, each is entered, and the types that it states are
then looked up among the names entered so far (`flatReferences`). The class around a node is found
by its place in the tree, not by what was current.

A reading is its effects (`flatEffects`), one after another up to a fault: supertypes are noted and
references counted (`visit_effects`). It carries one class along; the induction is over the tree,
and its invariant is that this class is the one around every place still to come below the node. A
reading that comes to its end counts exactly the references (`flat_visit_counts`).
-/

namespace Coupling.Project

open Java (ParseTree)
open Steps

/-! ## Nodes and their places -/

/-- A node of a tree, and how to get to it from the top. -/
structure PlacedNode where
  place : List Nat
  node : ParseTree

mutual

/-- The nodes of a tree from top to bottom; an import declaration is made of names only and is not
gone into. -/
def nodesAt (place : List Nat) : ParseTree → List PlacedNode
  | .node info cs =>
    ⟨place, .node info cs⟩ :: if info.form = .rule .importDeclaration then []
      else nodesFrom place 0 cs
  | _ => []

def nodesFrom (place : List Nat) (k : Nat) : List ParseTree → List PlacedNode
  | [] => []
  | t :: ts => nodesAt (place ++ [k]) t ++ nodesFrom place (k + 1) ts

end

variable {n : PlacedNode}

mutual

theorem prefix_of_mem_nodesAt {place : List Nat} : ∀ t, n ∈ nodesAt place t → place <+: n.place
  | .token _, h | .skipped _, h | .missing _, h => by cases h
  | .node info cs, h => by
    rw [nodesAt, List.mem_cons] at h
    rcases h with rfl | h
    · exact List.prefix_rfl
    · split at h
      · cases h
      · obtain ⟨k, -, hk⟩ := prefix_of_mem_nodesFrom cs h
        exact (List.prefix_append place [k]).trans hk

theorem prefix_of_mem_nodesFrom {place : List Nat} : ∀ {k : Nat} ts, n ∈ nodesFrom place k ts →
    ∃ j, k ≤ j ∧ place ++ [j] <+: n.place
  | _, [], h => by cases h
  | k, t :: ts, h => by
    rw [nodesFrom, List.mem_append] at h
    rcases h with h | h
    · exact ⟨k, Nat.le_refl k, prefix_of_mem_nodesAt t h⟩
    · obtain ⟨j, hj, hn⟩ := prefix_of_mem_nodesFrom ts h
      exact ⟨j, by omega, hn⟩

end

/-! ## What has been entered -/

/-- The text of the first part of a rule, empty if there is none. -/
def partText (t : ParseTree) (r : Java.RuleName) : String :=
  ((t.first? r).map ParseTree.text).getD ""

theorem partText_of_first? {t part : ParseTree} {r : Java.RuleName} (h : t.first? r = some part) :
    partText t r = part.text := by
  rw [partText, h]
  rfl

/-- What has been entered so far: the package, the names that were bound and the places of classes
with their flat names, the latest first. -/
structure Entered where
  package : String := ""
  bound : List (String × String) := []
  classes : List (List Nat × String) := []

namespace Entered

/-- An import that is not static binds the last part of its name, a class declaration its simple
name. -/
def enter (e : Entered) (n : PlacedNode) : Entered :=
  match n.node.form? with
  | some (.rule .packageDeclaration) => { e with package := partText n.node .qualifiedName }
  | some (.rule .importDeclaration) =>
    let name := partText n.node .qualifiedName
    if (n.node.firstToken? .kwStatic).isNone
      then { e with bound := (Text.afterLast name '.', name) :: e.bound } else e
  | some (.rule .classDeclaration) =>
    let name := partText n.node .identifier
    let flat := nameIn e.package none name
    { e with bound := (name, flat) :: e.bound, classes := (n.place, flat) :: e.classes }
  | _ => e

def enterAll (e : Entered) (ns : List PlacedNode) : Entered := ns.foldl enter e

/-- The flat name of the nearest class declaration at or above a place. -/
def around (e : Entered) (place : List Nat) : Option String :=
  (e.classes.find? fun c => c.1.isPrefixOf place).map (·.2)

/-- What the bare name of a type stands for: what it was bound to last, or itself. -/
def standsFor (e : Entered) (type : String) : String :=
  (e.bound.lookup (bareName type)).getD (bareName type)

end Entered

/-! ## References -/

/-- The types that count: the one that a class extends, that of a field or local variable, those of
the parameters of a method, variadic ones apart. -/
def flatTypes (t : ParseTree) : List ParseTree :=
  match t.form? with
  | some (.rule .classDeclaration) =>
    if (t.firstToken? .kwExtends).isSome then (t.first? .typeType).toList else []
  | some (.rule .fieldDeclaration) => (t.first? .typeType).toList
  | some (.rule .localVariableDeclaration) => (t.first? .typeType).toList
  | some (.rule .methodDeclaration) =>
    ((t.first? .formalParameters).bind fun l => l.first? .formalParameterList).toList.flatMap
        fun l =>
      (l.all .formalParameter).filterMap fun p => p.first? .typeType
  | _ => []

/-- The references that an entered node states, from the class around it. A class without a name and
a package states only the one to what it extends. -/
def Entered.references (e : Entered) (n : PlacedNode) : List (String × String) :=
  (e.around n.place).toList.flatMap fun source =>
    if source = "" ∧ n.node.form? ≠ some (.rule .classDeclaration) then [] else
      (flatTypes n.node).map fun t => (source, e.standsFor t.text)

/-- The references that nodes state, each node being entered before its types are looked up. -/
def referencesFrom (e : Entered) : List PlacedNode → List (String × String)
  | [] => []
  | n :: ns => (e.enter n).references n ++ referencesFrom (e.enter n) ns

/-- The references that a tree states. -/
def flatReferences (t : ParseTree) : List (String × String) := referencesFrom {} (nodesAt [] t)

/-- How many references count from one class to another. -/
def flatHits (p q : String) (refs : List (String × String)) : Nat :=
  if p = q then 0 else refs.count (p, q)

theorem flatHits_append (p q : String) (refs refs' : List (String × String)) :
    flatHits p q (refs ++ refs') = flatHits p q refs + flatHits p q refs' := by
  unfold flatHits
  split
  · rfl
  · exact List.count_append

@[simp] theorem flatHits_nil (p q : String) : flatHits p q [] = 0 := by
  unfold flatHits
  split <;> rfl

theorem flatHits_singleton (p q source target : String) :
    flatHits p q [(source, target)] =
      if source ≠ target ∧ p = source ∧ q = target then 1 else 0 := by
  unfold flatHits
  rw [List.count_singleton]
  by_cases h : p = source ∧ q = target
  · obtain ⟨rfl, rfl⟩ := h
    by_cases hpq : p = q
    · simp [hpq]
    · simp [hpq]
  · have hpair : ¬ (source, target) = (p, q) := by
      rintro ⟨⟩
      exact h ⟨rfl, rfl⟩
    rw [if_neg (c := ((source, target) == (p, q)) = true) (by simpa using hpair), ite_self,
      if_neg fun h' => h h'.2]

namespace Entered

/-! ### Classes around a place -/

theorem enterAll_append (e : Entered) (ns ms : List PlacedNode) :
    e.enterAll (ns ++ ms) = (e.enterAll ns).enterAll ms :=
  List.foldl_append

/-- Entering a node that is not around a place leaves the class around the place. -/
theorem around_enter {e : Entered} {n : PlacedNode} {place : List Nat} (h : ¬ n.place <+: place) :
    (e.enter n).around place = e.around place := by
  have hpre : n.place.isPrefixOf place = false := by
    rw [Bool.eq_false_iff, ne_eq, List.isPrefixOf_iff_prefix]
    exact h
  unfold enter
  split
  · rfl
  · split <;> rfl
  · simp only [around, List.find?_cons, hpre]
  · rfl

theorem around_enterAll {place : List Nat} {ns : List PlacedNode}
    (h : ∀ n ∈ ns, ¬ n.place <+: place) (e : Entered) :
    (e.enterAll ns).around place = e.around place := by
  induction ns generalizing e with
  | nil => rfl
  | cons n ns ih =>
    exact (ih (fun m hm => h m (List.mem_cons_of_mem n hm)) (e.enter n)).trans
      (around_enter (h n List.mem_cons_self))

/-- What stands below a child is not around what stands below a later one. -/
theorem not_prefix_of_later {place q m : List Nat} {j k : Nat} (hjk : j ≠ k)
    (hm : place ++ [k] <+: m) :
    ¬ m <+: place ++ j :: q := by
  intro h
  have hpre := hm.trans h
  rw [List.prefix_append_right_inj, List.cons_prefix_cons] at hpre
  exact hjk hpre.1.symm

end Entered

/-! ## Effects -/

/-- What a reading does at a node: it notes a supertype of a class, counts a reference, or comes to
a fault. -/
inductive Effect where
  | note (name super : String)
  | count (source target : String)
  | fault
deriving DecidableEq

/-- The parts of a node that must state a type. -/
def typedParts (t : ParseTree) : List ParseTree :=
  match t.form? with
  | some (.rule .classDeclaration) => if (t.firstToken? .kwExtends).isSome then [t] else []
  | some (.rule .fieldDeclaration) => [t]
  | some (.rule .localVariableDeclaration) => [t]
  | some (.rule .methodDeclaration) =>
    ((t.first? .formalParameters).bind fun l =>
      (l.first? .formalParameterList).map fun ps => ps.all .formalParameter).getD []
  | _ => []

theorem flatTypes_eq (t : ParseTree) : flatTypes t = (typedParts t).filterMap fun p =>
    p.first? .typeType := by
  have hone (t : ParseTree) : (t.first? .typeType).toList = [t].filterMap fun p =>
      p.first? .typeType := by
    cases h : t.first? .typeType <;> simp [h]
  unfold flatTypes typedParts
  split
  · split
    · exact hone t
    · rfl
  · exact hone t
  · exact hone t
  · cases t.first? .formalParameters with
    | none => rfl
    | some l => cases hl : l.first? .formalParameterList <;> simp [hl]
  · rfl

/-- Whether a node has no name or no list of parameters that is needed in a class. -/
def hasGap (current : String) (t : ParseTree) : Bool :=
  match t.form? with
  | some (.rule .packageDeclaration) => (t.first? .qualifiedName).isNone
  | some (.rule .importDeclaration) => (t.first? .qualifiedName).isNone
  | some (.rule .classDeclaration) => (t.first? .identifier).isNone
  | some (.rule .methodDeclaration) => !current.isEmpty && (t.first? .formalParameters).isNone
  | _ => false

namespace Entered

/-- A stated type counts, if it is there, and is noted as a supertype if it should be. -/
def stating (e : Entered) (noted : Bool) (source : String) (t : ParseTree) : List Effect :=
  (t.first? .typeType).elim [.fault] fun type =>
    (if noted then [.note source (e.standsFor type.text)] else []) ++
      [.count source (e.standsFor type.text)]

/-- What a reading does at a node that has been entered, in a class. -/
def effects (e : Entered) (current : String) (t : ParseTree) : List Effect :=
  let class? := t.form? == some (.rule .classDeclaration)
  if hasGap current t then [.fault]
  else if current.isEmpty && !class? then []
  else (typedParts t).flatMap (e.stating class? current) ++
    if class? && (t.firstToken? .kwImplements).isSome then [.fault] else []

theorem effects_class {e : Entered} {current : String} {t : ParseTree}
    (h : t.form? = some (.rule .classDeclaration)) :
    e.effects current t = (t.first? .identifier).elim [.fault] fun _ =>
      (if (t.firstToken? .kwExtends).isSome then e.stating true current t else []) ++
        if (t.firstToken? .kwImplements).isSome then [.fault] else [] := by
  unfold effects hasGap typedParts
  simp only [h]
  cases t.first? .identifier with
  | none => rfl
  | some part => by_cases hextends : (t.firstToken? .kwExtends).isSome = true <;> simp [hextends]

theorem effects_plain {e : Entered} {current : String} {t : ParseTree}
    (h : t.form? ≠ some (.rule .classDeclaration)) :
    e.effects current t = if hasGap current t then [.fault] else
      if current.isEmpty then [] else (typedParts t).flatMap (e.stating false current) := by
  simp [effects, beq_false_of_ne h]

/-- The effects of an entered node in the class around it. -/
def effectsAt (e : Entered) (n : PlacedNode) : List Effect :=
  e.effects ((e.around n.place).getD "") n.node

end Entered

/-- The effects of nodes, each node being entered before its types are looked up. -/
def effectsFrom (e : Entered) : List PlacedNode → List Effect
  | [] => []
  | n :: ns => (e.enter n).effectsAt n ++ effectsFrom (e.enter n) ns

/-- The effects of the nodes of a tree. -/
def flatEffects (t : ParseTree) : List Effect := effectsFrom {} (nodesAt [] t)

theorem effectsFrom_append (e : Entered) (ns ms : List PlacedNode) :
    effectsFrom e (ns ++ ms) = effectsFrom e ns ++ effectsFrom (e.enterAll ns) ms := by
  induction ns generalizing e with
  | nil => rfl
  | cons n ns ih =>
    rw [List.cons_append, effectsFrom, effectsFrom, ih, List.append_assoc]
    rfl

/-- The symbols and the matrix after an effect, if it has no fault. -/
def Effect.apply (classes : ClassTable) (n : Numbering) (s : Registry × Matrix) :
    Effect → Option (Registry × Matrix)
  | .note name super => (classes.get? name).map fun id => (s.1.addSuper id super, s.2)
  | .count source target =>
    if source = target ∨ classes.contains target = false then some s
    else (countInteraction n (some s.2) source target).toOption.map fun m => (s.1, m)
  | .fault => none

/-- What effects lead to, one after the other up to a fault, and whether there was none. -/
def applyAll (classes : ClassTable) (n : Numbering) :
    List Effect → Registry × Matrix → Bool × Registry × Matrix
  | [], s => (true, s)
  | x :: xs, s => (x.apply classes n s).elim (false, s) (applyAll classes n xs)

theorem applyAll_append (classes : ClassTable) (n : Numbering) (xs ys : List Effect)
    (s : Registry × Matrix) :
    applyAll classes n (xs ++ ys) s =
      if (applyAll classes n xs s).1 then applyAll classes n ys (applyAll classes n xs s).2
        else applyAll classes n xs s := by
  induction xs generalizing s with
  | nil => rfl
  | cons x xs ih =>
    rw [List.cons_append, applyAll, applyAll]
    cases x.apply classes n s with
    | none => rfl
    | some s' => exact ih s'

namespace FlatAnalyze

variable {classes : ClassTable} {n : Numbering} {a a' : FlatAnalysis} {e e' e'' : Entered}
  {xs ys : List Effect}
  {α β : Type}

/-- A reading knows the package and the names that have been entered. -/
structure Follows (e : Entered) (a : FlatAnalysis) : Prop where
  package : a.package = e.package
  full : ∀ name, a.full.get? name = e.bound.lookup name

theorem Follows.standsFor (h : Follows e a) (type : String) :
    resolveBare a.full type = e.standsFor type := by
  rw [resolveBare, expand, Table.getD, h.full, Entered.standsFor]

theorem Follows.full_put (h : Follows e a) (key full name : String) :
    (a.full.put key full).get? name = ((key, full) :: e.bound).lookup name := by
  rw [Table.get?_put, List.lookup_cons, h.full]
  by_cases hname : name = key
  · simp [hname]
  · rw [if_neg hname, beq_false_of_ne hname]

/-- A step of a reading has had some effects, up to a fault, and knows what has been entered if
there was none. -/
structure Does (classes : ClassTable) (n : Numbering) (e : Entered) (xs : List Effect)
    (a : FlatAnalysis) (out : Except Fault α × FlatAnalysis) : Prop where
  applied : (out.1.toBool, out.2.registry, out.2.matrix) =
    applyAll classes n xs (a.registry, a.matrix)
  follows : out.1.toBool = true → Follows e out.2

namespace Does

theorem nothing (h : Follows e a) (v : α) : Does classes n e [] a (.ok v, a) := ⟨rfl, fun _ => h⟩

theorem fault (f : Fault) :
    Does classes n e (.fault :: xs) a ((.error f, a) : Except Fault α × FlatAnalysis) :=
  ⟨rfl, fun h => by cases h⟩

theorem bind {x : FlatAnalyze α} {f : α → FlatAnalyze β} (hx : Does classes n e xs a (x.run.run a))
    (hf : ∀ v a', x.run.run a = (.ok v, a') → Follows e a' →
      Does classes n e' ys a' ((f v).run.run a')) :
    Does classes n e' (xs ++ ys) a ((x >>= f).run.run a) := by
  obtain ⟨happlied, hfollows⟩ := hx
  rw [run_bind]
  rcases hrun : x.run.run a with ⟨_ | v, a₁⟩
  · rw [hrun] at happlied
    refine ⟨?_, fun h => by cases h⟩
    rw [applyAll_append, ← happlied]
    rfl
  · rw [hrun] at happlied hfollows
    obtain ⟨hrest, hfollows'⟩ := hf v a₁ hrun (hfollows rfl)
    refine ⟨?_, hfollows'⟩
    rw [applyAll_append, ← happlied]
    exact hrest

end Does

/-- Counting an interaction changes the matrix only. -/
theorem interact_does (hf : Follows e a) (source target : String) :
    Does classes n e [.count source target] a ((interact classes n source target).run.run a) := by
  unfold interact
  split
  · next hsame => exact ⟨by rw [applyAll, Effect.apply, if_pos (.inl hsame)]; rfl, fun _ => hf⟩
  · next hne =>
    split
    · next habsent =>
      exact ⟨by rw [applyAll, Effect.apply, if_pos (.inr (Bool.not_eq_true' _ |>.mp habsent))]; rfl,
        fun _ => hf⟩
    · next hthere =>
      have hcounts : ¬ (source = target ∨ classes.contains target = false) := by
        simpa [hne] using hthere
      simp only [run_bind, run_get, run_liftExcept]
      cases hcount : countInteraction n (some a.matrix) source target with
      | error f => exact ⟨by rw [applyAll, Effect.apply, if_neg hcounts, hcount]; rfl,
        fun h => by cases h⟩
      | ok m => exact ⟨by rw [applyAll, Effect.apply, if_neg hcounts, hcount]; rfl, fun _ =>
        ⟨hf.package, hf.full⟩⟩

/-- A stated type is looked up and counted. -/
theorem stating_does (hf : Follows e a) (source : String) (t : ParseTree) :
    Does classes n e (e.stating false source t) a
      ((do interact classes n source (← typeOf t) : FlatAnalyze Unit).run.run a) := by
  unfold typeOf Entered.stating
  cases t.first? .typeType with
  | none => exact .fault _
  | some type =>
    rw [Option.elim_some, ← hf.standsFor]
    exact interact_does hf source _

theorem parameters_do (hf : Follows e a) (source : String) (ps : List ParseTree) :
    Does classes n e (ps.flatMap (e.stating false source)) a
      ((ps.forM fun p => (do interact classes n source (← typeOf p) : FlatAnalyze Unit)).run.run
        a) := by
  induction ps generalizing a with
  | nil => exact .nothing hf ()
  | cons p ps ih => exact (stating_does hf source p).bind fun _ _ _ hf' => ih hf'

variable {info : Java.NodeInfo} {cs : List ParseTree} {place : List Nat} {current : String}

section

variable (hf : Follows e a)
include hf

theorem addParameters_does (hform : info.form = .rule .methodDeclaration) {source : String}
    (hsource : source.isEmpty = false) :
    Does classes n e (e.effects source (.node info cs)) a
      ((addParameters classes n source (.node info cs)).run.run a) := by
  rw [Entered.effects_plain (by simp [ParseTree.form?, hform])]
  simp only [hasGap, typedParts, ParseTree.form?, hform, hsource]
  unfold addParameters parametersOf
  cases (ParseTree.node info cs).first? .formalParameters with
  | none => exact .fault _
  | some l => exact parameters_do hf source _

theorem note_does (name super : String) :
    Does classes n e [.note name super] a ((do
      let id ← liftExcept (lookUp classes name)
      modify fun a => { a with registry := a.registry.addSuper id super } : FlatAnalyze
        Unit).run.run a) := by
  rw [run_bind, run_liftExcept, lookUp]
  cases hid : Table.get? classes name with
  | none => exact ⟨by rw [applyAll, Effect.apply, hid]; rfl, fun h => by cases h⟩
  | some id => exact ⟨by rw [applyAll, Effect.apply, hid]; rfl, fun _ => ⟨hf.package, hf.full⟩⟩

/-! ### Entering nodes -/

theorem addImport_does (hform : info.form = .rule .importDeclaration)
    (he : e' = e.enter ⟨place, .node info cs⟩) (current : String) :
    Does classes n e' (e'.effects current (.node info cs)) a
      ((addImport (.node info cs)).run.run a) := by
  simp only [Entered.enter, ParseTree.form?, hform, partText] at he
  rw [Entered.effects_plain (by simp [ParseTree.form?, hform])]
  simp only [hasGap, typedParts, ParseTree.form?, hform, List.flatMap_nil, ite_self]
  unfold addImport
  cases hpart : (ParseTree.node info cs).first? .qualifiedName with
  | none => exact .fault _
  | some part =>
    rw [hpart] at he
    by_cases hstatic : ((ParseTree.node info cs).firstToken? .kwStatic).isNone = true
    · simp only [if_pos hstatic] at he ⊢
      rw [he]
      exact ⟨rfl, fun _ => ⟨hf.package, hf.full_put _ _⟩⟩
    · simp only [if_neg hstatic] at he ⊢
      rw [he]
      exact .nothing hf ()

/-- What follows the name of a class declaration: the type that it extends is noted and counted, and
a list of interfaces is a fault. -/
theorem clauses_do (flat : String) (t : ParseTree) :
    Does classes n e ((if (t.firstToken? .kwExtends).isSome then e.stating true flat t else []) ++
        if (t.firstToken? .kwImplements).isSome then [.fault] else []) a
      ((do
        if (t.firstToken? .kwExtends).isSome then
          let super ← typeOf t
          let id ← liftExcept (lookUp classes flat)
          modify fun a => { a with registry := a.registry.addSuper id super }
          interact classes n flat super
        if (t.firstToken? .kwImplements).isSome then throw (.ofList "typeType")
        return flat : FlatAnalyze String).run.run a) := by
  have hend {b : FlatAnalysis} (hb : Follows e b) :
      Does classes n e (if (t.firstToken? .kwImplements).isSome then [.fault] else []) b
        ((do
          if (t.firstToken? .kwImplements).isSome then throw (.ofList "typeType")
          return flat : FlatAnalyze String).run.run b) := by
    simp only
    split
    · exact .fault _
    · exact .nothing hb _
  simp only
  split
  · unfold typeOf Entered.stating
    cases t.first? .typeType with
    | none => exact .fault _
    | some type =>
      have hboth := (note_does hf flat (resolveBare a.full type.text)).bind fun _ _ _ hf₁ =>
        (interact_does hf₁ flat (resolveBare a.full type.text)).bind fun _ _ _ hf₂ => hend hf₂
      rw [bind_assoc] at hboth
      rw [Option.elim_some, ← hf.standsFor]
      exact hboth
  · exact hend hf

/-- A class declaration binds its name before the type that it extends is looked up. -/
theorem enterClass_does (hform : info.form = .rule .classDeclaration)
    (he : e' = e.enter ⟨place, .node info cs⟩) :
    Does classes n e' (e'.effects (nameIn e.package none (partText (.node info cs) .identifier))
      (.node info cs)) a
      ((enterClass classes n (.node info cs)).run.run a) := by
  unfold enterClass
  rw [Entered.effects_class (by simp [ParseTree.form?, hform])]
  cases hpart : (ParseTree.node info cs).first? .identifier with
  | none => exact .fault _
  | some part =>
    have hf₁ : Follows e'
        { a with full := a.full.put part.text (nameIn a.package none part.text) } := by
      simp only [he, Entered.enter, ParseTree.form?, hform, partText_of_first? hpart, hf.package]
      exact ⟨rfl, hf.full_put _ _⟩
    have hrest : Does classes n _ _ _ _ := clauses_do hf₁ (nameIn a.package none part.text)
      (.node info cs)
    rw [partText_of_first? hpart, ← hf.package]
    exact ⟨hrest.applied, hrest.follows⟩

end

/-- A class declaration that came to its end gave its flat name. -/
theorem eq_of_enterClass {flat : String}
    (h : (enterClass classes n (.node info cs)).run.run a = (.ok flat, a')) :
    flat = nameIn a.package none (partText (.node info cs) .identifier) := by
  obtain ⟨name, a₁, hname, h₁⟩ := bind_eq_ok.mp h
  obtain ⟨part, hpart, rfl, rfl⟩ := textOf_eq_ok.mp hname
  obtain ⟨a₂, a₃, hget, h₂⟩ := bind_eq_ok.mp h₁
  cases hget
  obtain ⟨⟨⟩, a₄, -, h₃⟩ := bind_eq_ok.mp h₂
  rw [partText_of_first? hpart]
  have hend {b : FlatAnalysis} (hb : (do
      if ((ParseTree.node info cs).firstToken? .kwImplements).isSome then throw (.ofList "typeType")
      return nameIn a₁.package none part.text : FlatAnalyze String).run.run b = (.ok flat, a')) :
      flat = nameIn a₁.package none part.text := by
    simp only at hb
    split at hb
    · cases hb
    · cases hb
      rfl
  simp only at h₃
  split at h₃
  · obtain ⟨super, a₅, -, h₄⟩ := bind_eq_ok.mp h₃
    obtain ⟨id, a₆, -, h₅⟩ := bind_eq_ok.mp h₄
    obtain ⟨⟨⟩, a₇, -, h₆⟩ := bind_eq_ok.mp h₅
    obtain ⟨⟨⟩, a₈, -, h₇⟩ := bind_eq_ok.mp h₆
    exact hend h₇
  · exact hend h₃

/-! ### The class that is carried along -/

/-- The class that a reading carries along is the one around every place at or below some place. -/
def Inside (e : Entered) (place : List Nat) (current : String) : Prop :=
  ∃ source : Option String, source.getD "" = current ∧ ∀ below, e.around (place ++ below) = source

theorem Inside.child (h : Inside e place current) (j : Nat) : Inside e (place ++ [j]) current := by
  obtain ⟨source, hsource, haround⟩ := h
  exact ⟨source, hsource, fun below => by rw [List.append_assoc]; exact haround _⟩

/-- What is entered below a child leaves the class around the later ones. -/
theorem Inside.later {j k : Nat} (h : Inside e (place ++ [j]) current) (hjk : j ≠ k)
    (t : ParseTree) :
    Inside (e.enterAll (nodesAt (place ++ [k]) t)) (place ++ [j]) current := by
  obtain ⟨source, hsource, haround⟩ := h
  refine ⟨source, hsource, fun below => ?_⟩
  rw [Entered.around_enterAll, haround]
  intro m hm
  rw [List.append_assoc]
  exact Entered.not_prefix_of_later hjk (prefix_of_mem_nodesAt t hm)

theorem around_class {flat : String} {outer : List (List Nat × String)}
    (h : e.classes = (place, flat) :: outer)
    (below : List Nat) : e.around (place ++ below) = some flat := by
  have hpre : place.isPrefixOf (place ++ below) = true :=
    List.isPrefixOf_iff_prefix.mpr (List.prefix_append place below)
  simp only [Entered.around, h, List.find?_cons, hpre, Option.map_some]

theorem Inside.enter (h : Inside e place current) {m : PlacedNode}
    (hm : m.node.form? ≠ some (.rule .classDeclaration)) :
    Inside (e.enter m) place current := by
  have hclasses : (e.enter m).classes = e.classes := by
    unfold Entered.enter
    split
    · rfl
    · split <;> rfl
    · next hform => exact absurd hform hm
    · rfl
  obtain ⟨source, hsource, haround⟩ := h
  refine ⟨source, hsource, fun below => ?_⟩
  rw [← haround below, Entered.around, Entered.around, hclasses]

/-- The effects of a node in the class that is carried along. -/
theorem Inside.effectsAt (h : Inside e place current) (t : ParseTree) :
    e.effectsAt ⟨place, t⟩ = e.effects current t := by
  obtain ⟨source, rfl, haround⟩ := h
  have hat : e.around place = source := by simpa using haround []
  rw [Entered.effectsAt, hat]

/-! ### Nodes -/

/-- A reading has had the effects of a node and goes on below it. -/
theorem visit_node_does (hf : Follows e a) (hin : Inside e place current)
    (himport : info.form ≠ .rule .importDeclaration)
    (hrest : ∀ {inner : String} {b : FlatAnalysis}, Follows (e.enter ⟨place, .node info cs⟩) b →
      Inside (e.enter ⟨place, .node info cs⟩) place inner →
      Does classes n e' ys b ((visitAll classes n inner cs).run.run b)) :
    Does classes n e' ((e.enter ⟨place, .node info cs⟩).effectsAt ⟨place, .node info cs⟩ ++ ys) a
      ((visit classes n current (.node info cs)).run.run a) := by
  have hform? (hclass : info.form ≠ .rule .classDeclaration) :
      (ParseTree.node info cs).form? ≠ some (.rule .classDeclaration) :=
      fun h => hclass (Option.some_inj.mp h)
  have hplain (hclass : info.form ≠ .rule .classDeclaration) :
      Inside (e.enter ⟨place, .node info cs⟩) place current :=
    hin.enter (hform? hclass)
  have hstay (hpackage : info.form ≠ .rule .packageDeclaration)
      (hclass : info.form ≠ .rule .classDeclaration) :
      e.enter ⟨place, .node info cs⟩ = e := by
    unfold Entered.enter
    split <;> simp_all [ParseTree.form?]
  -- Types count for the class that is carried along, if it has a name.
  have htyped (hpackage : info.form ≠ .rule .packageDeclaration)
      (hclass : info.form ≠ .rule .classDeclaration)
      {x : FlatAnalyze Unit} (hempty : current.isEmpty = true →
        hasGap current (.node info cs) = false)
      (hx : current.isEmpty = false → Does classes n e (e.effects current (.node info cs)) a
        (x.run.run a)) :
      Does classes n e' ((e.enter ⟨place, .node info cs⟩).effectsAt ⟨place, .node info cs⟩ ++ ys) a
        ((if (!current.isEmpty) = true then x >>= fun _ => visitAll classes n current cs
          else visitAll classes n current cs).run.run a) := by
    have hbelow {b : FlatAnalysis} (hb : Follows e b) :=
      hrest ((hstay hpackage hclass).symm ▸ hb) (hplain hclass)
    rw [(hplain hclass).effectsAt, hstay hpackage hclass]
    cases hname : current.isEmpty with
    | true =>
      rw [Entered.effects_plain (hform? hclass), hempty hname, hname]
      exact hbelow hf
    | false => exact (hx hname).bind fun _ _ _ hf' => hbelow hf'
  -- A field or local variable states its type.
  have hstated (hpackage : info.form ≠ .rule .packageDeclaration)
      (hclass : info.form ≠ .rule .classDeclaration)
      (hgap : hasGap current (.node info cs) = false)
        (hparts : typedParts (.node info cs) = [.node info cs]) :=
    htyped hpackage hclass (x := do interact classes n current (← typeOf (.node info cs)))
        (fun _ => hgap) fun hname => by
      rw [Entered.effects_plain (hform? hclass), hgap, hname, hparts]
      simpa using stating_does hf current (.node info cs)
  rw [visit]
  split
  · next hform =>
    rw [(hplain (by simp [hform])).effectsAt,
      Entered.effects_plain (by simp [ParseTree.form?, hform])]
    simp only [hasGap, typedParts, ParseTree.form?, hform, List.flatMap_nil, ite_self]
    cases hpart : (ParseTree.node info cs).first? .qualifiedName with
    | none => exact .fault _
    | some part =>
      have hf' : Follows (e.enter ⟨place, .node info cs⟩) { a with package := part.text } := by
        simp only [Entered.enter, ParseTree.form?, hform, partText_of_first? hpart]
        exact ⟨rfl, hf.full⟩
      have hbelow := hrest hf' (hplain (by simp [hform]))
      exact ⟨hbelow.applied, hbelow.follows⟩
  · next hform => exact absurd hform himport
  · next hform =>
    have hclasses : (e.enter ⟨place, .node info cs⟩).classes =
        (place, nameIn e.package none (partText (.node info cs) .identifier)) :: e.classes := by
      simp only [Entered.enter, ParseTree.form?, hform]
    have hin' : Inside (e.enter ⟨place, .node info cs⟩) place
        (nameIn e.package none (partText (.node info cs) .identifier)) :=
      ⟨some _, rfl, around_class hclasses⟩
    rw [hin'.effectsAt]
    refine (enterClass_does hf hform rfl).bind fun flat a' hrun hf' => ?_
    rw [eq_of_enterClass hrun, hf.package]
    exact hrest hf' hin'
  · next hform =>
    have hdoes := hstated (by simp [hform]) (by simp [hform])
      (by simp [hasGap, ParseTree.form?, hform])
      (by simp [typedParts, ParseTree.form?, hform])
    rwa [bind_assoc] at hdoes
  · next hform =>
    exact htyped (by simp [hform]) (by simp [hform])
      (fun h => by simp [hasGap, ParseTree.form?, hform, h])
      fun h => addParameters_does hf hform h
  · next hform =>
    have hdoes := hstated (by simp [hform]) (by simp [hform])
      (by simp [hasGap, ParseTree.form?, hform])
      (by simp [typedParts, ParseTree.form?, hform])
    rwa [bind_assoc] at hdoes
  · next hpackage himport' hclass hfield hmethod hlocal =>
    have hsame := hstay hpackage hclass
    have hgap : hasGap current (.node info cs) = false := by
      unfold hasGap
      split <;> simp_all [ParseTree.form?]
    have hparts : typedParts (.node info cs) = [] := by
      unfold typedParts
      split <;> simp_all [ParseTree.form?]
    rw [(hplain hclass).effectsAt, Entered.effects_plain (hform? hclass), hgap, hparts,
      List.flatMap_nil, ite_self]
    exact hrest (hsame.symm ▸ hf) (hplain hclass)

/-! ### Runs -/

mutual

/-- A reading has the effects of the nodes of the tree, and knows what they have entered if it comes
to its end. -/
theorem visit_does : ∀ (t : ParseTree) {place : List Nat} {current : String} {e : Entered}
    {a : FlatAnalysis},
    Follows e a → Inside e place current →
    Does classes n (e.enterAll (nodesAt place t)) (effectsFrom e (nodesAt place t)) a
      ((visit classes n current t).run.run a)
  | .token _, _, _, _, _, hf, _ | .skipped _, _, _, _, _, hf, _ | .missing _, _, _, _, _, hf, _ =>
    .nothing hf ()
  | .node info cs, place, current, e, a, hf, hin => by
    rw [nodesAt]
    by_cases hform : info.form = .rule .importDeclaration
    · have hin' := hin.enter (m := ⟨place, .node info cs⟩) (by simp [ParseTree.form?, hform])
      rw [if_pos hform, effectsFrom, effectsFrom, hin'.effectsAt, visit]
      rw [List.append_nil]
      simp only [hform]
      exact addImport_does hf hform rfl current
    · rw [if_neg hform]
      exact visit_node_does hf hin hform fun hf' hin' =>
        visitAll_does cs (fun j _ => hin'.child j) hf'

theorem visitAll_does : ∀ (ts : List ParseTree) {place : List Nat} {k : Nat} {current : String}
    {e : Entered} {a : FlatAnalysis}, (∀ j, k ≤ j → Inside e (place ++ [j]) current) → Follows e a →
    Does classes n (e.enterAll (nodesFrom place k ts)) (effectsFrom e (nodesFrom place k ts)) a
      ((visitAll classes n current ts).run.run a)
  | [], _, _, _, _, _, _, hf => .nothing hf ()
  | t :: ts, place, k, current, e, a, hin, hf => by
    rw [nodesFrom, Entered.enterAll_append, effectsFrom_append]
    exact (visit_does t hf (hin k (Nat.le_refl k))).bind fun _ _ _ hf' =>
      visitAll_does ts (fun j hj => (hin j (by omega)).later (by omega) t) hf'

end

/-- **A reading of a tree has the effects of its nodes**, up to a fault. -/
theorem visit_effects (classes : ClassTable) (n : Numbering) (registry : Registry) (m : Matrix)
    (tree : ParseTree) :
    let out := (visit classes n "" tree).run.run { registry, matrix := m }
    (out.1.toBool, out.2.registry, out.2.matrix) =
      applyAll classes n (flatEffects tree) (registry, m) :=
  (visit_does tree ⟨rfl, fun _ => rfl⟩ ⟨none, rfl, fun _ => rfl⟩ :
    Does classes n (Entered.enterAll {} (nodesAt [] tree))
      (flatEffects tree) { registry, matrix := m } _).applied

end FlatAnalyze

/-! ## What effects count -/

def Effect.reference? : Effect → Option (String × String)
  | .count source target => some (source, target)
  | _ => none

/-- The matrix stayed square, and the count from any class to a class of the table has grown by the
number of some references. -/
structure Counted (classes : ClassTable) (n : Numbering) (refs : List (String × String))
    (m m' : Matrix) : Prop where
  square : ∀ k, m.Square k → m'.Square k
  cell : ∀ p q, classes.contains q = true →
    cell n (some m') p q = (cell n (some m) p q).map (· + Int64.ofNat (flatHits p q refs))

section Counted

variable {classes : ClassTable} {n : Numbering} {m m' m'' : Matrix}
  {refs refs' : List (String × String)}

/-- References from a class to itself or to what is no class do not count. -/
theorem Counted.still (h : ∀ p q, classes.contains q = true → flatHits p q refs = 0) :
    Counted classes n refs m m := by
  refine ⟨fun k hk => hk, fun p q hq => ?_⟩
  rw [h p q hq]
  cases Project.cell n (some m) p q with
  | none => rfl
  | some v => simp

theorem Counted.trans (h : Counted classes n refs m m') (h' : Counted classes n refs' m' m'') :
    Counted classes n (refs ++ refs') m m'' := by
  refine ⟨fun k hk => h'.square k (h.square k hk), fun p q hq => ?_⟩
  rw [h'.cell p q hq, h.cell p q hq, Option.map_map, flatHits_append]
  congr 1
  funext v
  rw [Function.comp_apply, Int64.ofNat_add, Int64.add_assoc]

theorem Effect.apply_counted {x : Effect} {s s' : Registry × Matrix}
    (h : x.apply classes n s = some s') :
    Counted classes n x.reference?.toList s.2 s'.2 := by
  cases x with
  | note name super =>
    obtain ⟨id, -, rfl⟩ := Option.map_eq_some_iff.mp h
    exact .still fun p q _ => flatHits_nil p q
  | count source target =>
    rw [Effect.apply] at h
    split at h
    · next hskip =>
      cases h
      refine .still fun p q hq => ?_
      rw [Effect.reference?, Option.toList_some, flatHits_singleton, if_neg]
      rintro ⟨hne, -, rfl⟩
      rcases hskip with hsame | habsent
      · exact hne hsame
      · rw [hq] at habsent
        cases habsent
    · next hcounts =>
      obtain ⟨m', hm, rfl⟩ := Option.map_eq_some_iff.mp h
      have hm : countInteraction n (some s.2) source target = .ok m' := by
        cases hcount : countInteraction n (some s.2) source target with
        | error f => rw [hcount] at hm; cases hm
        | ok m => rw [hcount] at hm; cases hm; rfl
      refine ⟨fun k hk => ?_, fun p q hq => ?_⟩
      · obtain ⟨m₀, i, j, hm₀, -, -, hbump⟩ := countInteraction_eq_ok hm
        cases hm₀
        exact hk.bump hbump
      · rw [cell_countInteraction hm, Effect.reference?, Option.toList_some, flatHits_singleton]
        by_cases heq : p = source ∧ q = target
        · rw [if_pos heq, if_pos ⟨fun h => hcounts (.inl h), heq⟩]
          rfl
        · rw [if_neg heq, if_neg fun h => heq h.2]
          cases Project.cell n (some s.2) p q with
          | none => rfl
          | some v => simp
  | fault => cases h

/-- Effects without a fault count their references. -/
theorem applyAll_counted {xs : List Effect} {s s' : Registry × Matrix}
    (h : applyAll classes n xs s = (true, s')) :
    Effect.fault ∉ xs ∧ Counted classes n (xs.filterMap Effect.reference?) s.2 s'.2 := by
  induction xs generalizing s with
  | nil =>
    cases h
    exact ⟨List.not_mem_nil, .still fun p q _ => flatHits_nil p q⟩
  | cons x xs ih =>
    rw [applyAll] at h
    cases hx : x.apply classes n s with
    | none => rw [hx] at h; cases h
    | some s₁ =>
      rw [hx] at h
      obtain ⟨hnone, hrest⟩ := ih h
      have hboth := (Effect.apply_counted hx).trans hrest
      refine ⟨fun hmem => (List.mem_cons.mp hmem).elim
        (fun hfault => by subst hfault; cases hx) hnone, ?_⟩
      rw [List.filterMap_cons]
      cases hr : x.reference? with
      | none | some r => simpa [hr] using hboth

end Counted

variable {e : Entered}

/-- The references of types that are stated. -/
theorem references_of_stating {noted : Bool} {source : String} {ts : List ParseTree}
    (h : Effect.fault ∉ ts.flatMap (e.stating noted source)) :
    (ts.flatMap (e.stating noted source)).filterMap Effect.reference? =
      (ts.filterMap fun t => t.first? .typeType).map fun type =>
      (source, e.standsFor type.text) := by
  induction ts with
  | nil => rfl
  | cons t ts ih =>
    rw [List.flatMap_cons, List.mem_append, not_or] at h
    rw [List.flatMap_cons, List.filterMap_append, List.filterMap_cons, ih h.2]
    have ht := h.1
    unfold Entered.stating at ht ⊢
    cases htype : t.first? .typeType with
    | none => rw [htype] at ht; exact absurd List.mem_cons_self ht
    | some type => cases noted <;> rfl

/-- The effects of an entered node without a fault count the references that it states. -/
theorem references_of_effectsAt (h : Effect.fault ∉ (e.enter n).effectsAt n) :
    ((e.enter n).effectsAt n).filterMap Effect.reference? = (e.enter n).references n := by
  rw [Entered.references, flatTypes_eq]
  rw [Entered.effectsAt] at h ⊢
  by_cases hform : n.node.form? = some (.rule .classDeclaration)
  · have hclasses : (e.enter n).classes = (n.place,
        nameIn e.package none (partText n.node .identifier)) :: e.classes := by
      simp only [Entered.enter, hform]
    have haround := FlatAnalyze.around_class hclasses []
    rw [List.append_nil] at haround
    rw [haround] at h ⊢
    simp only [Entered.effects, hform, Option.getD_some, beq_self_eq_true, Bool.not_true,
      Bool.and_false] at h ⊢
    split at h
    · exact absurd List.mem_cons_self h
    · next hgap =>
      rw [if_neg Bool.false_ne_true, List.mem_append, not_or] at h
      rw [if_neg hgap, if_neg Bool.false_ne_true]
      have hend : (if (true && (n.node.firstToken? .kwImplements).isSome) = true then [Effect.fault]
          else []) = [] := by
        split
        · next himpl => exact absurd List.mem_cons_self (if_pos himpl ▸ h.2)
        · rfl
      rw [hend, List.append_nil, references_of_stating h.1]
      simp
  · rw [Entered.effects_plain hform] at h ⊢
    split at h
    · exact absurd List.mem_cons_self h
    · next hgap =>
      rw [if_neg hgap]
      cases hsource : (e.enter n).around n.place with
      | none => rfl
      | some source =>
        rw [hsource, Option.getD_some] at h
        rw [Option.getD_some, Option.toList_some, List.flatMap_singleton]
        by_cases hname : source = ""
        · simp [hname, hform]
        · have hname' : source.isEmpty = false := by simpa using hname
          rw [hname'] at h
          rw [hname', if_neg Bool.false_ne_true, if_neg fun hn => hname hn.1]
          exact references_of_stating h

theorem references_of_effectsFrom {ns : List PlacedNode} (h : Effect.fault ∉ effectsFrom e ns) :
    (effectsFrom e ns).filterMap Effect.reference? = referencesFrom e ns := by
  induction ns generalizing e with
  | nil => rfl
  | cons n ns ih =>
    rw [effectsFrom, List.mem_append, not_or] at h
    rw [effectsFrom, List.filterMap_append, references_of_effectsAt h.1, ih h.2, referencesFrom]

/-! ## Exact counts -/

/-- **Exactness of the matrix by flat names.** Take any table of classes, numbered in its order,
with a square matrix. If a reading of a tree comes to its end, the matrix is still square, and each
of its cells has grown by the number of references that the tree states from the class of the row to
the class of the column -- and not at all, if these are the same. -/
theorem flat_visit_counts (classes : ClassTable) (registry : Registry) (m : Matrix)
    (tree : ParseTree) (a : FlatAnalysis) (hnodup : classes.keys.Nodup) (hm : m.Square classes.size)
    (h : (FlatAnalyze.visit classes ⟨classes.keys⟩ "" tree).run.run { registry, matrix := m } =
      (.ok (), a)) :
    a.matrix.Square classes.size ∧ ∀ i j p q, classes.keys[i]? = some p →
      classes.keys[j]? = some q →
      ∃ count, m.cell? i j = some count ∧ a.matrix.cell? i j =
        some (count + Int64.ofNat (if p = q then 0 else (flatReferences tree).count (p, q))) := by
  have hdoes := FlatAnalyze.visit_effects classes ⟨classes.keys⟩ registry m tree
  rw [h] at hdoes
  obtain ⟨hnone, hcounted⟩ := applyAll_counted hdoes.symm
  rw [flatEffects, references_of_effectsFrom hnone, ← flatReferences] at hcounted
  refine ⟨hcounted.square _ hm, fun i j p q hp hq => ?_⟩
  have hlt : ∀ {k name}, classes.keys[k]? = some name → k < classes.size := fun hk => by
    simpa [Table.keys, Table.size] using (List.getElem?_eq_some_iff.mp hk).1
  obtain ⟨count, hcount⟩ := hm.covers.cell? (hlt hp) (hlt hq)
  refine ⟨count, hcount, ?_⟩
  have hgrown := hcounted.cell p q (Table.contains_iff_mem_keys.mpr (List.mem_of_getElem? hq))
  rw [flatHits] at hgrown
  simpa only [cell, Numbering.index?_of_nodup (n := ⟨classes.keys⟩) hnodup hp,
    Numbering.index?_of_nodup (n := ⟨classes.keys⟩) hnodup hq, Option.bind_some, hcount,
    Option.map_some] using hgrown

open Profiler (branch leaf named packageOf importOf classNamed fieldOf methodTaking localOf)

/-- A class that extends another. -/
def classExtending (name super : String) (body : List ParseTree) : ParseTree :=
  branch .classDeclaration [leaf .kwClass "class", named name, leaf .kwExtends "extends",
    branch .typeType [named super], branch .classBody body]

/-- A table of classes, each with a symbol of its own. -/
def classesNamed (names : List String) : ClassTable := ⟨names.zipIdx⟩

/-- A reading of a tree with some classes and a matrix of zeros. -/
def flatRead (names : List String) (tree : ParseTree) : Except Fault Unit × FlatAnalysis :=
  (FlatAnalyze.visit (classesNamed names) ⟨(classesNamed names).keys⟩ "" tree).run.run
    { registry := .empty, matrix := .zero (classesNamed names).size }

/-- A class that states types in every way, also in a class inside it. -/
def nestedReferences : ParseTree :=
  branch .compilationUnit [packageOf "p", importOf "q" "C", classNamed (named "B") [],
    classExtending "A" "B" [fieldOf "B[]",
      methodTaking [branch .formalParameterList [parameterOf "C<B>"]] "m" [localOf "D"],
      classNamed (named "I") [fieldOf "C"]]]

def nestedNames : List String := ["p.B", "p.A", "p.I", "q.C", "D"]

/-- Types are counted for the class they stand in, by their bare names. -/
theorem nestedReferences_counted :
    (flatRead nestedNames nestedReferences).1.toBool = true ∧
      (flatRead nestedNames nestedReferences).2.matrix.cell? 1 0 = some (Int64.ofNat 2) ∧
      (flatRead nestedNames nestedReferences).2.matrix.cell? 1 3 = some (Int64.ofNat 1) ∧
      (flatRead nestedNames nestedReferences).2.matrix.cell? 2 3 = some (Int64.ofNat 1) ∧
      (flatRead nestedNames nestedReferences).2.matrix.cell? 2 0 = some (Int64.ofNat 0) := by
  have hend : (flatRead nestedNames nestedReferences).1.toBool = true := by decide +kernel
  have hread : flatRead nestedNames nestedReferences =
      (.ok (), (flatRead nestedNames nestedReferences).2) :=
    eq_ok_of_toBool hend
  have hcounts := (flat_visit_counts (classesNamed nestedNames) .empty
    (.zero (classesNamed nestedNames).size)
    nestedReferences (flatRead nestedNames nestedReferences).2 (by decide)
      (Matrix.square_zero _) hread).2
  have hcell : ∀ i j p q k, i < 5 → j < 5 → (classesNamed nestedNames).keys[i]? = some p →
      (classesNamed nestedNames).keys[j]? = some q →
      (if p = q then 0 else (flatReferences nestedReferences).count (p, q)) = k →
      (flatRead nestedNames nestedReferences).2.matrix.cell? i j = some (Int64.ofNat k) := by
    rintro i j p q k hi hj hp hq rfl
    obtain ⟨count, hcount, hgrown⟩ := hcounts i j p q hp hq
    rw [Matrix.cell?_zero (n := (classesNamed nestedNames).size) hi hj] at hcount
    cases hcount
    rw [Int64.zero_add] at hgrown
    exact hgrown
  exact ⟨hend, hcell 1 0 "p.A" "p.B" 2 (by decide) (by decide) rfl rfl (by decide +kernel),
    hcell 1 3 "p.A" "q.C" 1 (by decide) (by decide) rfl rfl (by decide +kernel),
    hcell 2 3 "p.I" "q.C" 1 (by decide) (by decide) rfl rfl (by decide +kernel),
    hcell 2 0 "p.I" "p.B" 0 (by decide) (by decide) rfl rfl (by decide +kernel)⟩

/-- A class with a field whose type is written with a no-break space, which may stand in names,
before it. -/
def spacedField : ParseTree :=
  branch .compilationUnit [classNamed (named "A") [fieldOf "\u00a0B"], classNamed (named "B") []]

/-- **Cutting a type at angle and square brackets is not all.** The only type that is stated is no
class, nothing is bound to it, and there is nothing to cut; but the blank in front is taken off, and
it counts. -/
theorem blank_before_type_counts :
    (flatRead ["A", "B"] spacedField).1.toBool = true ∧
      ((nodesAt [] spacedField).flatMap fun n => (flatTypes n.node).map ParseTree.text) =
        ["\u00a0B"] ∧
      Text.before (Text.before "\u00a0B" '<') '[' = "\u00a0B" ∧
      ((Entered.enterAll {} (nodesAt [] spacedField)).bound.lookup "\u00a0B").isNone = true ∧
      (flatRead ["A", "B"] spacedField).2.matrix.cell? 0 1 = some 1 := by
  decide +kernel

end Coupling.Project
