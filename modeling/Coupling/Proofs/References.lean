import Coupling.Proofs.Cells
import Coupling.Proofs.Nesting
import Coupling.Proofs.Reading

/-!
# Stated references

Which references a parse tree states, said without any reading of it: the types that declarations
state, each in the class or interface declaration nearest around it (`references`). What stands
below a field or local variable declaration, or below the package declaration, does not count.

This is what a reading refers to: the types that its steps name are those that the declaration
states (`supertypes_eq_ok`, `methodTypes_eq_ok`).
-/

namespace Coupling.Project

open Java (ParseTree RuleName)

/-! ## Places in a tree -/

/-- A node of a tree and the nodes above it, the nearest first. -/
structure Spot where
  node : ParseTree
  above : List ParseTree
deriving Inhabited

mutual

/-- The nodes of a tree from top to bottom. -/
def spots (above : List ParseTree) : ParseTree → List Spot
  | .node info cs => ⟨.node info cs, above⟩ :: spotsOf (.node info cs :: above) cs
  | _ => []

def spotsOf (above : List ParseTree) : List ParseTree → List Spot
  | [] => []
  | t :: ts => spots above t ++ spotsOf above ts

end

/-- The role of a node; a leaf has none of its own. -/
def roleOf : ParseTree → Role
  | .node info _ => Role.ofForm info.form
  | _ => .other

/-- Whether a node is a class or interface declaration. -/
def isType (t : ParseTree) : Bool :=
  match roleOf t with
  | .type _ => true
  | _ => false

/-- Whether what stands below a node does not count. -/
def isHiding (t : ParseTree) : Bool :=
  match roleOf t with
  | .package | .field => true
  | _ => false

/-! ## References -/

/-- The types that a declaration states: those that a class or interface extends or implements, that
of a field or local variable, those that a method returns and takes. -/
def statedTypes (t : ParseTree) : List ParseTree :=
  match roleOf t with
  | .type .class =>
    (if (t.firstToken? .kwExtends).isSome then (t.first? .typeType).toList else []) ++
      (if (t.firstToken? .kwImplements).isSome then t.all .typeList else [])
  | .type _ => if (t.firstToken? .kwExtends).isSome then t.all .typeList else []
  | .field => (t.first? .typeType).toList
  | .method =>
    (t.first? .typeTypeOrVoid).toList ++
      ((t.first? .formalParameters).bind fun l => l.first? .formalParameterList).toList.flatMap
          fun l =>
        (l.all .formalParameter).filterMap fun p => p.first? .typeType
  | _ => []

/-- The full name of the class or interface nearest around a place, `none` where there is none
around. There is no such name if the simple name of the class stands for nothing. -/
def classAround (full : Table String) (around : List ParseTree) : List (Option String) :=
  match around.find? isType with
  | none => [none]
  | some t => ((t.first? .identifier).bind fun n => full.get? n.text).toList.map some

/-- The references that the node at a place states: from the class around it to each name that its
types are made of. -/
def referencesAt (full : Table String) (p : Spot) : List (Option String × String) :=
  if p.above.any isHiding then [] else
    (classAround full (p.node :: p.above)).flatMap fun source =>
      (statedTypes p.node).flatMap fun t => (mentions full t.text).map fun target =>
        (source, target)

/-- The references that a tree states. -/
def references (full : Table String) (t : ParseTree) : List (Option String × String) :=
  (spots [] t).flatMap (referencesAt full)

/-- How many references go from one class to another; what no class is around counts as from the
name `""`. -/
def hits (p q : String) (refs : List (Option String × String)) : Nat :=
  refs.countP fun r => decide (r.1.getD "" = p ∧ r.2 = q)

theorem hits_append (p q : String) (refs refs' : List (Option String × String)) :
    hits p q (refs ++ refs') = hits p q refs + hits p q refs' :=
  List.countP_append

/-- References from no class add to those of a class without a name. -/
theorem hits_eq (p q : String) (refs : List (Option String × String)) :
    hits p q refs = refs.count (some p, q) + if p = "" then refs.count (none, q) else 0 := by
  induction refs with
  | nil => simp [hits]
  | cons r refs ih =>
    obtain ⟨source, target⟩ := r
    unfold hits at ih ⊢
    rw [List.countP_cons, List.count_cons, List.count_cons, ih]
    cases source with
    | none =>
      by_cases hp : p = ""
      · subst hp
        by_cases hq : target = q
        · simp [hq]
          omega
        · simp [hq]
      · have hp' : ¬ "" = p := fun h => hp h.symm
        simp [hp, hp']
    | some source =>
      by_cases hs : source = p ∧ target = q
      · obtain ⟨rfl, rfl⟩ := hs
        simp only [Option.getD_some, and_self, decide_true, if_true, beq_self_eq_true, reduceCtorEq,
          Prod.mk.injEq, false_and, beq_iff_eq, if_false, Nat.add_zero]
        omega
      · have hpair : ¬ (some source, target) = (some p, q) := by simpa using hs
        simp [hs, hpair]

/-- The names that the types of a declaration are made of. -/
def statedNames (full : Table String) (t : ParseTree) : List String :=
  ((statedTypes t).map ParseTree.text).flatMap (mentions full)

/-- A reference as it is counted; what no class is around counts as from the name `""`. -/
def counted (r : Option String × String) : String × String := (r.1.getD "", r.2)

theorem hits_eq_count (p q : String) (refs : List (Option String × String)) :
    hits p q refs = (refs.map counted).count (p, q) := by
  unfold hits
  rw [List.count, List.countP_map]
  refine List.countP_congr fun r _ => ?_
  simp [counted]

variable {full : Table String} {t : ParseTree} {above : List ParseTree} {types : List String}
  {r : Registry}

/-- The references at a place in a class. -/
theorem counted_referencesAt {source : Option String} (hidden : above.any isHiding = false)
    (h : classAround full (t :: above) = [source]) :
    (referencesAt full ⟨t, above⟩).map counted = (statedNames full t).map (source.getD "", ·) := by
  simp only [referencesAt, hidden, h, statedNames, counted, Bool.false_eq_true, if_false,
    List.flatMap_cons, List.flatMap_nil, List.append_nil, List.map_flatMap, List.flatMap_map,
    List.map_map, Function.comp_def]

theorem classAround_of_not_type (above : List ParseTree) (h : isType t = false) :
    classAround full (t :: above) = classAround full above := by
  unfold classAround
  rw [List.find?_cons, h]

variable {kind : SymbolKind} {name text : String} {p : Spot} {part : Option ParseTree}
  {classes : ClassTable}
  {r' : Registry}

/-- A class declaration is the nearest class of what stands below it. -/
theorem classAround_type {n : ParseTree} (hrole : roleOf t = .type kind)
    (hn : t.first? .identifier = some n)
    (hname : full.get? n.text = some name) : classAround full (t :: above) = [some name] := by
  have htype : isType t = true := by
    unfold isType
    rw [hrole]
  unfold classAround
  rw [List.find?_cons, htype]
  simp only [hn, Option.bind_some, hname, Option.toList_some, List.map_cons, List.map_nil]

/-! ## What does not count -/

theorem referencesAt_hidden (h : p.above.any isHiding = true) : referencesAt full p = [] := by
  unfold referencesAt
  rw [if_pos h]

theorem referencesAt_of_none (h : statedTypes p.node = []) : referencesAt full p = [] := by
  simp [referencesAt, h]

mutual

theorem spots_hidden (full : Table String) {above : List ParseTree}
    (h : above.any isHiding = true) :
    ∀ t, (spots above t).flatMap (referencesAt full) = []
  | .token _ | .skipped _ | .missing _ => rfl
  | .node info cs => by
    rw [spots, List.flatMap_cons, referencesAt_hidden h, List.nil_append]
    exact spotsOf_hidden full (by rw [List.any_cons, h, Bool.or_true]) cs

theorem spotsOf_hidden (full : Table String) {above : List ParseTree}
    (h : above.any isHiding = true) :
    ∀ ts, (spotsOf above ts).flatMap (referencesAt full) = []
  | [] => rfl
  | t :: ts => by
    rw [spotsOf, List.flatMap_append, spots_hidden full h t, spotsOf_hidden full h ts]
    rfl

end

theorem form_of_import {f : Java.Form} (h : Role.ofForm f = .import) :
    f = .rule .importDeclaration := by
  cases f with
  | expr e => cases h
  | rule r => cases r <;> simp_all [Role.ofForm]

/-- The rules an import declaration is made of. -/
def isImportPart (r : RuleName) : Bool := r == .importDeclaration || r == .qualifiedName ||
    r == .identifier

/-- An import declaration is made of names only. -/
def importsNames (above below : RuleName) : Bool := !isImportPart above || isImportPart below

/-- In every parse tree of a text, import declarations are made of names only. -/
theorem parse_importsNames (text : String) : (Java.parse text).tree.nests importsNames = true := by
  refine Java.parse_nests (fun r => ?_) (fun r => ?_) text
  · cases r <;> rfl
  · cases r <;> rfl

theorem statedTypes_importPart (h : t.rule?.all isImportPart = true) : statedTypes t = [] := by
  cases t with
  | node info cs =>
    obtain ⟨form, start, stop, labels⟩ := info
    cases form with
    | expr e => rfl
    | rule r =>
      have hr : isImportPart r = true := h
      simp only [isImportPart, Bool.or_eq_true, beq_iff_eq] at hr
      rcases hr with (rfl | rfl) | rfl <;> rfl
  | _ => rfl

mutual

theorem spots_importPart (full : Table String) : ∀ (above : List ParseTree) (t : ParseTree),
    t.nests importsNames = true → t.rule?.all isImportPart = true →
    (spots above t).flatMap (referencesAt full) = []
  | _, .token _, _, _ | _, .skipped _, _, _ | _, .missing _, _, _ => rfl
  | above, .node info cs, hnest, hpart => by
    have hstated := statedTypes_importPart hpart
    rw [ParseTree.nests, Bool.and_eq_true, List.all_eq_true] at hnest
    have hpart' : isImportPart info.form.ruleName = true := hpart
    have hparts : ∀ c ∈ cs, c.rule?.all isImportPart = true := by
      intro c hc
      have hbelow := hnest.1 c hc
      cases hr : c.rule? with
      | none => rfl
      | some r =>
        rw [hr] at hbelow
        exact (Bool.or_eq_true_iff.mp hbelow).resolve_left (by rw [hpart']; decide)
    rw [spots, List.flatMap_cons, spotsOf_importPart full _ cs hnest.2 hparts, List.append_nil]
    exact referencesAt_of_none hstated

theorem spotsOf_importPart (full : Table String) : ∀ (above : List ParseTree) (ts : List ParseTree),
    Java.allNest importsNames ts = true → (∀ t ∈ ts, t.rule?.all isImportPart = true) →
    (spotsOf above ts).flatMap (referencesAt full) = []
  | _, [], _, _ => rfl
  | above, t :: ts, hnest, hparts => by
    rw [Java.allNest, Bool.and_eq_true] at hnest
    rw [spotsOf, List.flatMap_append, spots_importPart full above t hnest.1 (hparts t (by simp)),
      spotsOf_importPart full above ts hnest.2 fun t' ht' => hparts t' (by simp [ht'])]
    rfl

end

/-- An import declaration states no reference. -/
theorem spots_import (full : Table String) (above : List ParseTree) (hrole : roleOf t = .import)
    (hnest : t.nests importsNames = true) : (spots above t).flatMap (referencesAt full) = [] := by
  refine spots_importPart full above t hnest ?_
  cases t with
  | node info cs => simp [ParseTree.rule?, ParseTree.form?, form_of_import hrole,
    Java.Form.ruleName, isImportPart]
  | _ => rfl

/-! ## The types that steps refer to -/

theorem exists_of_textOf (h : (textOf part : Except Fault String) = .ok text) :
    ∃ t, part = some t ∧ t.text = text := by
  cases part with
  | none => cases h
  | some t =>
    cases h
    exact ⟨t, rfl, rfl⟩

theorem textOf_except_eq_ok (h : (textOf part : Except Fault String) = .ok text) :
    part.toList.map ParseTree.text = [text] := by
  obtain ⟨t, rfl, rfl⟩ := exists_of_textOf h
  rfl

/-- The supertypes that are noted are those that the declaration states. -/
theorem supertypes_eq_ok (hrole : roleOf t = .type kind) (h : supertypes kind t = .ok types) :
    types = (statedTypes t).map ParseTree.text := by
  unfold supertypes at h
  unfold statedTypes
  rw [hrole]
  cases kind with
  | «class» =>
    simp only at h
    rw [List.map_append]
    split at h
    · next hextends =>
      obtain ⟨own, hown, h₁⟩ := Steps.except_bind_eq_ok.mp h
      obtain ⟨text, htext, h₂⟩ := Steps.except_bind_eq_ok.mp hown
      cases h₂
      cases h₁
      rw [if_pos hextends, textOf_except_eq_ok htext]
      split <;> rfl
    · next hextends =>
      cases h
      rw [if_neg hextends]
      split <;> rfl
  | _ =>
    cases h
    split <;> rfl

theorem mapM_textOf_eq_ok {ps : List ParseTree} {r : RuleName}
    (h : (ps.mapM fun p => (textOf (p.first? r) : Except Fault String)) = .ok types) :
    types = (ps.filterMap fun p => p.first? r).map ParseTree.text := by
  induction ps generalizing types with
  | nil =>
    cases h
    rfl
  | cons p ps ih =>
    rw [List.mapM_cons] at h
    obtain ⟨text, htext, h₁⟩ := Steps.except_bind_eq_ok.mp h
    obtain ⟨texts, htexts, h₂⟩ := Steps.except_bind_eq_ok.mp h₁
    cases h₂
    have hp := textOf_except_eq_ok htext
    cases hpart : p.first? r with
    | none => simp [hpart] at hp
    | some t =>
      rw [hpart] at hp
      rw [List.filterMap_cons, hpart, ih htexts]
      simpa using hp.symm

/-- The types of a method that are referred to are those that its declaration states. -/
theorem methodTypes_eq_ok (hrole : roleOf t = .method) (h : methodTypes t = .ok types) :
    types = (statedTypes t).map ParseTree.text := by
  unfold methodTypes at h
  obtain ⟨result, hresult, h₁⟩ := Steps.except_bind_eq_ok.mp h
  obtain ⟨params, hparams, h₂⟩ := Steps.except_bind_eq_ok.mp h₁
  obtain ⟨paramTypes, htypes, h₃⟩ := Steps.except_bind_eq_ok.mp h₂
  cases h₃
  unfold statedTypes
  rw [hrole]
  simp only [List.map_append]
  rw [textOf_except_eq_ok hresult, mapM_textOf_eq_ok htypes]
  unfold parametersOf at hparams
  cases hlist : t.first? .formalParameters with
  | none => rw [hlist] at hparams; cases hparams
  | some list =>
    rw [hlist] at hparams
    cases hparams
    rw [Option.bind_some]
    cases list.first? .formalParameterList with
    | none => rfl
    | some l => simp

/-! ## Symbols under their names -/

/-- The symbols of a class table have the names they stand under. -/
def Named (classes : ClassTable) (r : Registry) : Prop :=
  ∀ name id, classes.get? name = some id → ∃ s, r.get? id = some s ∧ s.fullName = name

theorem Named.later (h : Named classes r) (hl : r.Later r') : Named classes r' := by
  intro name id hid
  obtain ⟨s, hs, hname⟩ := h name id hid
  obtain ⟨s', hs', he⟩ := hl id s hs
  have hsame := congrArg Symbol.fullName he
  exact ⟨s', hs', hsame.trans hname⟩

/-- Symbols that stand under their names are added to a table of such symbols. -/
theorem Named.update {t : Table SymbolId} (h : Named t r) (hl : r.Later r') {u : Table SymbolId}
    (hu : ∀ name id, (name, id) ∈ u.entries → ∃ s, r'.get? id = some s ∧ s.fullName = name) :
    Named (t.update u) r' := by
  intro name id hid
  rcases Table.get?_update_cases hid with hmem | hold
  · exact hu name id hmem
  · exact h.later hl name id hold

theorem Named.fullName (h : Named classes r) {id : SymbolId} (hid : classes.get? name = some id) :
    r.fullName id = name := by
  obtain ⟨s, hs, hname⟩ := h name id hid
  rw [Registry.fullName_of_get? hs, hname]

end Coupling.Project
