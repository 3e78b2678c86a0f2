import Coupling.Proofs.Registry
import Coupling.Proofs.Table
import Coupling.Project.Collector

/-!
# Collections do not depend on what was there

The declarations of a file are collected into a registry that may hold symbols already. Those
symbols are never looked at: the collection is the one into an empty registry, with all its numbers
moved up (`collect_onto`). So whether a file can be collected, what its names stand for and what its
symbols are can be told from the file alone.
-/

namespace Coupling

/-! ## Moving numbers -/

/-- A table with its numbers moved up. -/
def Table.shift (k : Nat) (t : Table Nat) : Table Nat := ⟨t.entries.map fun e => (e.1, e.2 + k)⟩

namespace Table

variable (k : Nat) (t : Table Nat)

@[simp] theorem get?_shift (key : String) : (t.shift k).get? key = (t.get? key).map (· + k) :=
  get?_map (· + k) t key

@[simp] theorem contains_shift (key : String) : (t.shift k).contains key = t.contains key :=
  contains_map (· + k) t key

@[simp] theorem keys_shift : (t.shift k).keys = t.keys := keys_map (· + k) t

@[simp] theorem values_shift : (t.shift k).values = t.values.map (· + k) :=
  values_map (· + k) t

theorem shift_put (key : String) (value : Nat) :
    (t.put key value).shift k = (t.shift k).put key (value + k) :=
  map_put (· + k) t key value

theorem shift_update (es : List (String × Nat)) :
    (t.update ⟨es⟩).shift k = (t.shift k).update ⟨es.map fun e => (e.1, e.2 + k)⟩ :=
  map_update (· + k) t ⟨es⟩

end Table

namespace Project

open Java (ParseTree NodeInfo)

/-- A symbol with the numbers of its methods moved up. -/
def Symbol.shift (k : Nat) (s : Symbol) : Symbol := { s with methods := s.methods.shift k }

namespace Registry

/-- The symbols of one registry after those of another. -/
def onto (r base : Registry) : Registry := ⟨r.symbols ++ base.symbols.map (·.shift r.size)⟩

@[simp] theorem size_onto (r base : Registry) : (r.onto base).size = r.size + base.size := by
  simp [onto, size]

@[simp] theorem onto_empty (r : Registry) : r.onto .empty = r := by
  simp [onto, empty]

theorem get?_onto_of_lt {r : Registry} (base : Registry) {id : SymbolId} (h : id < r.size) :
    (r.onto base).get? id = r.get? id :=
  Array.getElem?_append_left h

variable (r base : Registry)

@[simp] theorem get?_onto (id : SymbolId) :
    (r.onto base).get? (id + r.size) = (base.get? id).map (·.shift r.size) := by
  show (r.symbols ++ base.symbols.map (·.shift r.size))[id + r.symbols.size]? = _
  rw [Array.getElem?_append_right (Nat.le_add_left _ _), Nat.add_sub_cancel, Array.getElem?_map]
  rfl

theorem fullName_onto (id : SymbolId) :
    (r.onto base).fullName (id + r.size) = base.fullName id := by
  rw [fullName, get?_onto, Option.map_map]
  rfl

theorem onto_add (s : Symbol) : r.onto (base.add s) = (r.onto base).add (s.shift r.size) := by
  simp [onto, add]

theorem onto_change (id : Nat) {f g : Symbol → Symbol}
    (h : ∀ s, g (s.shift r.size) = (f s).shift r.size) :
    r.onto (base.change id f) = (r.onto base).change (id + r.size) g := by
  refine ext_get? fun (i : Nat) => ?_
  rw [get?_change]
  by_cases hi : i < r.size
  · have hne : ¬ id + r.size = i := by omega
    rw [get?_onto_of_lt _ hi, get?_onto_of_lt _ hi, if_neg hne]
  · obtain ⟨j, rfl⟩ : ∃ j, i = j + r.size := ⟨i - r.size, by omega⟩
    rw [get?_onto, get?_onto, get?_change]
    by_cases hj : id = j
    · rw [if_pos hj, if_pos (by rw [hj]), Option.map_map, Option.map_map]
      congr 1
      funext s
      exact (h s).symm
    · have hne : ¬ id + r.size = j + r.size := by omega
      rw [if_neg hj, if_neg hne]

end Registry

/-- What was collected, moved after the symbols of a registry. -/
def Collected.onto (r : Registry) (c : Collected) : Collected :=
  { c with registry := r.onto c.registry, classes := c.classes.shift r.size, symbols :=
    c.symbols.shift r.size }

/-! ## Moving collections -/

namespace Collect

variable {α β γ δ : Type} {r : Registry}

/-- Two steps of a collection: the second does among other symbols what the first does alone. -/
def Moved (r : Registry) (f : α → β) (x : Collect α) (y : Collect β) : Prop :=
  ∀ c, y.run (c.onto r) = (x.run c).map fun p => (f p.1, p.2.onto r)

theorem Moved.bind {f : α → β} {g : γ → δ} {x : Collect α} {y : Collect β} {k : α → Collect γ}
    {l : β → Collect δ}
    (hx : Moved r f x y) (hk : ∀ a, Moved r g (k a) (l (f a))) : Moved r g (x >>= k) (y >>= l) := by
  intro c
  rw [StateT.run_bind, StateT.run_bind, hx c]
  cases x.run c with
  | error fault => rfl
  | ok p => exact hk p.1 p.2

theorem moved_pure (f : α → β) (a : α) : Moved r f (pure a) (pure (f a)) := fun _ => rfl

/-- A step that does not look at the symbols. -/
theorem moved_need (property : String) (part : Option α) :
    Moved r id (need property part) (need property part) := by
  intro c
  cases part <;> rfl

theorem moved_textOf (part : Option ParseTree) : Moved r id (textOf part) (textOf part) :=
  (moved_need _ part).bind fun _ => moved_pure id _

theorem moved_liftExcept (x : Except Fault α) : Moved r id (liftExcept x) (liftExcept x) := by
  intro c
  cases x <;> rfl

theorem moved_get : Moved r (·.onto r) get get := fun _ => rfl

theorem moved_scope (property : String) (scope : Option SymbolId) :
    Moved r (· + r.size) (need property scope) (need property (scope.map (· + r.size))) := by
  intro c
  cases scope <;> rfl

theorem moved_modify {f : Collected → Collected} {g : Collected → Collected}
    (h : ∀ c, g (c.onto r) = (f c).onto r) :
    Moved r id (modify f) (modify g) := by
  intro c
  show Except.ok ((), g (c.onto r)) = Except.ok ((), (f c).onto r)
  rw [h]

theorem moved_change (i : SymbolId) {f g : Symbol → Symbol}
    (h : ∀ s, g (s.shift r.size) = (f s).shift r.size) :
    Moved r id (modify fun c => { c with registry := c.registry.change i f })
      (modify fun c => { c with registry := c.registry.change (i + r.size) g }) := by
  refine moved_modify fun c => ?_
  unfold Collected.onto
  rw [Registry.onto_change r c.registry i h]

theorem moved_nameFor (scope : Option SymbolId) (name : String) :
    Moved r id (nameFor scope name) (nameFor (scope.map (· + r.size)) name) := by
  intro c
  cases scope with
  | none => rfl
  | some id =>
    show Except.ok
      (nameIn c.package (some ((r.onto c.registry).fullName (id + r.size))) name, _) = _
    rw [Registry.fullName_onto]
    rfl

theorem moved_register (s : Symbol) :
    Moved r (· + r.size) (register s) (register (s.shift r.size)) := by
  intro c
  show Except.ok ((r.onto c.registry).size, _) = Except.ok (c.registry.size + r.size, _)
  rw [Registry.size_onto, Nat.add_comm]
  refine congrArg Except.ok (Prod.ext rfl ?_)
  unfold Collected.onto
  simp only [Registry.onto_add, Table.shift_put, Registry.size_onto, Nat.add_comm]
  rfl

theorem moved_bindName (short full : String) :
    Moved r id (bindName short full) (bindName short full) :=
  moved_modify fun _ => rfl

theorem moved_enterPackage (t : ParseTree) : Moved r id (enterPackage t) (enterPackage t) :=
  (moved_textOf _).bind fun _ => moved_modify fun _ => by simp only [Collected.onto, id]

theorem moved_addImport (t : ParseTree) : Moved r id (addImport t) (addImport t) := by
  refine (moved_textOf _).bind fun name => ?_
  cases (t.firstToken? .kwStatic).isSome with
  | true => exact fun _ => rfl
  | false =>
    cases hall : name.endsWith ".*" with
    | true => simp only [id, hall]; exact fun _ => rfl
    | false => simp only [id, hall]; exact moved_bindName _ _

theorem moved_addClass (file source : String) (kind : SymbolKind) (scope : Option SymbolId)
    (info : NodeInfo)
    (t : ParseTree) : Moved r (· + r.size) (addClass file source kind scope info t)
      (addClass file source kind (scope.map (· + r.size)) info t) := by
  refine (moved_textOf _).bind fun name => (moved_nameFor scope name).bind fun full => ?_
  unfold symbolAt
  simp only [bind_assoc, pure_bind]
  refine (moved_need _ info.stop).bind fun last => (moved_register _).bind fun id => ?_
  refine (moved_modify fun c => ?_).bind fun _ => (moved_bindName name full).bind
    fun _ => moved_pure _ id
  unfold Collected.onto
  simp only [Table.shift_put]
  rfl

theorem moved_addMethod (file source : String) (scope : Option SymbolId) (info : NodeInfo)
    (t : ParseTree) :
    Moved r (· + r.size) (addMethod file source scope info t)
      (addMethod file source (scope.map (· + r.size)) info t) := by
  refine moved_get.bind fun c => (moved_liftExcept _).bind fun name =>
    (moved_liftExcept _).bind fun params => ?_
  refine (moved_nameFor scope name).bind fun full => ?_
  unfold symbolAt
  simp only [bind_assoc, pure_bind]
  refine (moved_need _ info.stop).bind fun last => (moved_register _).bind fun id => ?_
  refine (moved_textOf _).bind fun type => moved_get.bind fun c => ?_
  refine Moved.bind (moved_change id fun s => ?_) fun _ => ?_
  · rfl
  refine (moved_bindName name full).bind fun _ => (moved_scope _ scope).bind fun owner => ?_
  refine Moved.bind (moved_change owner fun s => ?_) fun _ => moved_pure _ id
  simp only [Symbol.shift, Table.shift_put]
  rfl

mutual

/-- A reading of a tree does among other symbols what it does alone. -/
theorem visit_moved (file source : String) : ∀ (t : ParseTree) (scope : Option SymbolId),
    Moved r id (visit file source scope t) (visit file source (scope.map (· + r.size)) t)
  | .token _, _ | .skipped _, _ | .missing _, _ => moved_pure id ()
  | .node info cs, scope => by
    rw [visit, visit]
    cases Role.ofForm info.form with
    | package => exact moved_enterPackage _
    | «import» => exact moved_addImport _
    | type kind => exact (moved_addClass file source kind scope info _).bind fun id =>
      visitAll_moved file source cs (some id)
    | method => exact (moved_addMethod file source scope info _).bind fun id =>
      visitAll_moved file source cs (some id)
    | field | other => exact visitAll_moved file source cs scope

theorem visitAll_moved (file source : String) : ∀ (ts : List ParseTree) (scope : Option SymbolId),
    Moved r id (visitAll file source scope ts) (visitAll file source (scope.map (· + r.size)) ts)
  | [], _ => moved_pure id ()
  | t :: ts, scope => by
    rw [visitAll, visitAll]
    exact (visit_moved file source t scope).bind fun _ => visitAll_moved file source ts scope

end

end Collect

/-- **A collection does not depend on the symbols that were there**; it only numbers its own symbols
after them. -/
theorem collect_onto (registry : Registry) (file source : String) (tree : ParseTree) :
    collect registry file source tree =
      (collect .empty file source tree).map (·.onto registry) := by
  have hstart : ({ registry } : Collected) = Collected.onto registry { registry := .empty } := by
    unfold Collected.onto
    rw [Registry.onto_empty]
    rfl
  have hmoved : Collect.Moved registry id
      (do Collect.visit file source none tree; Collect.visit file source none tree)
      (do Collect.visit file source none tree; Collect.visit file source none tree) :=
    (Collect.visit_moved file source tree none).bind fun _ =>
    Collect.visit_moved file source tree none
  unfold collect
  simp only [bind, Except.bind] at hmoved ⊢
  rw [hstart, hmoved { registry := .empty }]
  -- Both sides are now the same reading of the empty registry, ended or not.
  generalize StateT.run _ _ = outcome
  cases outcome <;> rfl

end Project

end Coupling
