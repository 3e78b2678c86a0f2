import Mathlib.Logic.Basic
import Coupling.Project.Symbol

/-!
# Theory of registries

What is found under a number after symbols were added or changed. A change of a symbol that only
touches its supertypes and dependencies leaves its `identity`, and a registry that went through such
changes and additions is a `Later` one: whatever is said of the identity of a symbol still holds of
it.
-/

namespace Coupling.Project

/-- A symbol without its supertypes and dependencies. -/
def Symbol.identity (s : Symbol) : Symbol := { s with hierarchy := [], dependency := [] }

namespace Registry

/-! ## Adding and changing -/

@[simp] theorem size_add (r : Registry) (s : Symbol) : (r.add s).size = r.size + 1 := by
  simp [size, add]

@[simp] theorem size_change (r : Registry) (id : SymbolId) (f : Symbol → Symbol) :
    (r.change id f).size = r.size := by
  simp [size, change]

theorem get?_add (r : Registry) (s : Symbol) (id : SymbolId) :
    (r.add s).get? id = if id = r.size then some s else r.get? id := by
  unfold get? add size
  exact Array.getElem?_push

theorem get?_add_self (r : Registry) (s : Symbol) : (r.add s).get? r.size = some s := by
  rw [get?_add, if_pos rfl]

theorem get?_change (r : Registry) (i id : SymbolId) (f : Symbol → Symbol) :
    (r.change i f).get? id = if i = id then (r.get? id).map f else r.get? id := by
  unfold get? change
  exact Array.getElem?_modify

variable {r : Registry} {id : SymbolId} {s : Symbol}

/-- Two registries with the same symbols under all numbers are the same. -/
theorem ext_get? {r' : Registry} (h : ∀ id, r.get? id = r'.get? id) : r = r' := by
  obtain ⟨symbols⟩ := r
  obtain ⟨symbols'⟩ := r'
  exact congrArg Registry.mk (Array.ext_getElem? h)

theorem change_add_self (r : Registry) (s : Symbol) (f : Symbol → Symbol) :
    (r.add s).change r.size f = r.add (f s) := by
  refine ext_get? fun id => ?_
  rw [get?_change, get?_add, get?_add]
  by_cases h : id = r.size
  · rw [if_pos h.symm, if_pos h, if_pos h]
    rfl
  · rw [if_neg fun h' => h h'.symm, if_neg h, if_neg h]

theorem lt_size_of_get? (h : r.get? id = some s) : id < r.size := by
  unfold get? at h
  obtain ⟨hlt, _⟩ := Array.getElem?_eq_some_iff.mp h
  exact hlt

theorem exists_get? (h : id < r.size) : ∃ s, r.get? id = some s :=
  ⟨r.symbols[id], Array.getElem?_eq_getElem h⟩

theorem get?_eq_none (h : r.size ≤ id) : r.get? id = none :=
  Array.getElem?_eq_none h

theorem get?_add_of_lt (s : Symbol) (h : id < r.size) : (r.add s).get? id = r.get? id := by
  rw [get?_add, if_neg (Nat.ne_of_lt h)]

/-- The name by which a symbol is known in its file. -/
def shortName (r : Registry) (id : SymbolId) : String := ((r.get? id).map Symbol.shortName).getD ""

/-- The methods of a symbol. -/
def methods (r : Registry) (id : SymbolId) : Table SymbolId :=
  ((r.get? id).map Symbol.methods).getD ∅

theorem shortName_of_get? (h : r.get? id = some s) : r.shortName id = s.shortName := by
  simp [shortName, h]

theorem methods_of_get? (h : r.get? id = some s) : r.methods id = s.methods := by
  simp [methods, h]

theorem methods_eq_empty (h : r.size ≤ id) : r.methods id = ∅ := by
  simp [methods, get?_eq_none h]

/-- A symbol without methods has none. -/
theorem methods_add (hs : s.methods = ∅) (id : SymbolId) : (r.add s).methods id = r.methods id := by
  unfold methods
  rw [get?_add]
  split
  · next h =>
    rw [h, get?_eq_none (Nat.le_refl _)]
    exact hs
  · rfl

/-- A change that leaves the methods of symbols. -/
theorem methods_change {i : SymbolId} {f : Symbol → Symbol} (hf : ∀ s, (f s).methods = s.methods)
    (id : SymbolId) :
    (r.change i f).methods id = r.methods id := by
  unfold methods
  rw [get?_change]
  split
  · rw [Option.map_map, show Symbol.methods ∘ f = Symbol.methods from funext hf]
  · rfl

theorem dependency_of_get? (h : r.get? id = some s) : r.dependency id = s.dependency := by
  simp [dependency, h]

theorem hierarchy_of_get? (h : r.get? id = some s) : r.hierarchy id = s.hierarchy := by
  simp [hierarchy, h]

theorem fullName_of_get? (h : r.get? id = some s) : r.fullName id = s.fullName := by
  simp [fullName, h]

section

variable (r : Registry) (i id : SymbolId) (name : String)

/-- What is added to a list of a symbol is added to that of one symbol, if it is there, and to no
other. -/
theorem listed_change {f : Symbol → Symbol} {g : Symbol → List String}
    (hf : ∀ s, g (f s) = g s ++ [name]) :
    (((r.change i f).get? id).map g).getD [] =
      ((r.get? id).map g).getD [] ++ (if i = id ∧ id < r.size then [name] else []) := by
  rw [get?_change]
  by_cases h : i = id
  · subst h
    rw [if_pos rfl]
    by_cases hlt : i < r.size
    · obtain ⟨s, hs⟩ := exists_get? hlt
      simp [hs, hlt, hf]
    · simp [get?_eq_none (Nat.le_of_not_lt hlt), hlt]
  · simp [h]

theorem dependency_addDependency :
    (r.addDependency i name).dependency id = r.dependency id ++
      (if i = id ∧ id < r.size then [name] else []) :=
  listed_change r i id name fun _ => rfl

theorem hierarchy_addSuper :
    (r.addSuper i name).hierarchy id = r.hierarchy id ++
      (if i = id ∧ id < r.size then [name] else []) :=
  listed_change r i id name fun _ => rfl

@[simp] theorem hierarchy_addDependency :
    (r.addDependency i name).hierarchy id = r.hierarchy id := by
  unfold hierarchy addDependency
  rw [get?_change]
  split
  · cases r.get? id <;> rfl
  · rfl

@[simp] theorem dependency_addSuper : (r.addSuper i name).dependency id = r.dependency id := by
  unfold dependency addSuper
  rw [get?_change]
  split
  · cases r.get? id <;> rfl
  · rfl

end

/-! ## Later registries -/

/-- Every symbol is still there and still what it was, its supertypes and dependencies apart. -/
def Later (r r' : Registry) : Prop :=
  ∀ id s, r.get? id = some s → ∃ s', r'.get? id = some s' ∧ s'.identity = s.identity

namespace Later

theorem refl (r : Registry) : Later r r := fun _ s h => ⟨s, h, rfl⟩

theorem trans {r₁ r₂ r₃ : Registry} (h : Later r₁ r₂) (h' : Later r₂ r₃) : Later r₁ r₃ := by
  intro id s hs
  obtain ⟨s', hs', he⟩ := h id s hs
  obtain ⟨s'', hs'', he'⟩ := h' id s' hs'
  exact ⟨s'', hs'', he'.trans he⟩

theorem add (r : Registry) (s : Symbol) : Later r (r.add s) := by
  intro id s' h
  exact ⟨s', by rw [get?_add_of_lt s (lt_size_of_get? h), h], rfl⟩

theorem change {r : Registry} {i : SymbolId} {f : Symbol → Symbol}
    (hf : ∀ s, (f s).identity = s.identity) :
    Later r (r.change i f) := by
  intro id s h
  rw [get?_change, h]
  split
  · exact ⟨f s, rfl, hf s⟩
  · exact ⟨s, rfl, rfl⟩

theorem addDependency (r : Registry) (i : SymbolId) (name : String) :
    Later r (r.addDependency i name) :=
  change fun _ => rfl

theorem addSuper (r : Registry) (i : SymbolId) (name : String) : Later r (r.addSuper i name) :=
  change fun _ => rfl

theorem size_le {r r' : Registry} (h : Later r r') : r.size ≤ r'.size := by
  rcases Nat.eq_zero_or_pos r.size with h0 | h0
  · rw [h0]
    exact Nat.zero_le _
  · have hlast : r.size - 1 < r.size := by omega
    obtain ⟨s, hs⟩ := exists_get? hlast
    obtain ⟨s', hs', _⟩ := h _ s hs
    have hlt : r.size - 1 < r'.size := lt_size_of_get? hs'
    omega

theorem fullName {r r' : Registry} (h : Later r r') {id : SymbolId} {s : Symbol}
    (hs : r.get? id = some s) :
    r'.fullName id = s.fullName := by
  obtain ⟨s', hs', he⟩ := h id s hs
  have hname := congrArg Symbol.fullName he
  rw [fullName_of_get? hs']
  exact hname

theorem methods {r r' : Registry} (h : Later r r') {id : SymbolId} {s : Symbol}
    (hs : r.get? id = some s) :
    ∃ s', r'.get? id = some s' ∧ s'.methods = s.methods := by
  obtain ⟨s', hs', he⟩ := h id s hs
  have hmethods := congrArg Symbol.methods he
  exact ⟨s', hs', hmethods⟩

end Later

end Registry

end Coupling.Project
