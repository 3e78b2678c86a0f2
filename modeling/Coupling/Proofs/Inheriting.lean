import Coupling.Project.Flat
import Coupling.Proofs.Repeating

/-!
# Inherited rows

A class takes over the rows of its supertypes. This succeeds for a whole table just if every
supertype of a class is a class of the table that has no supertypes itself; then to the row of each
class the rows of its supertypes have been added as they were at the beginning, as often as they are
named (`inherited_rows_exact`). The rows that are read are those of classes without supertypes,
which never change; so the order of the classes does not matter.
-/

namespace Coupling.Project

open Steps

/-! ## Tables and their matrices -/

/-- Classes under their names, a numbering of them in any order, and a matrix with a row and a
column for each. -/
structure Fitted (registry : Registry) (classes : ClassTable) (n : Numbering) (m : Matrix) :
    Prop where
  nodup : classes.keys.Nodup
  named : Named classes registry
  numbered : n.names.Perm classes.keys
  square : m.Square classes.size

/-- Every supertype of a class is a class of the table that has no supertypes. -/
def Shallow (registry : Registry) (classes : ClassTable) : Prop :=
  ∀ name id, classes.get? name = some id → ∀ super ∈ registry.hierarchy id,
    ∃ superId, classes.get? super = some superId ∧ registry.hierarchy superId = []

/-- The count of the interactions from one class to another, zero if there is none. -/
def count (n : Numbering) (m : Matrix) (p q : String) : Int64 := (cell n (some m) p q).getD 0

/-- The counts of a class and of its supertypes, added up. -/
def countWith (n : Numbering) (m : Matrix) (supers : List String) (p q : String) : Int :=
  supers.foldl (fun t super => t + (count n m super q).toInt) (count n m p q).toInt

variable {registry : Registry} {classes : ClassTable} {n : Numbering} {m m' : Matrix}

theorem Matrix.Square.addRow {k : Nat} (h : m.Square k) (i : Nat) {r : Array Int64}
    (hr : r.size = k) :
    (m.addRow i r).Square k := by
  refine ⟨Array.size_modify.trans h.size_rows, fun j s hs => ?_⟩
  rw [Matrix.rows_addRow] at hs
  split at hs
  · obtain ⟨s₀, hs₀, rfl⟩ := Option.map_eq_some_iff.mp hs
    rw [Array.size_zipWith, h.size_row j s₀ hs₀, hr, Nat.min_self]
  · exact h.size_row j s hs

variable {p q name super : String} {id : SymbolId} {s s' : Option Matrix}

/-- The names of a numbering have cells in a square matrix. -/
theorem cell_eq_count (h : m.Square n.names.length) (hp : p ∈ n.names) (hq : q ∈ n.names) :
    cell n (some m) p q = some (count n m p q) := by
  obtain ⟨v, hv⟩ := exists_cell h.covers hp hq
  rw [count, hv]
  rfl

/-- Adding the row of one class to that of another adds their counts. -/
theorem count_addRow (h : m.Square n.names.length) {i k : Nat} {r : Array Int64}
    (hi : n.index? name = some i)
    (hk : n.index? super = some k) (hr : m.rows[k]? = some r) (hp : p ∈ n.names)
    (hq : q ∈ n.names) :
    count n (m.addRow i r) p q = if p = name then count n m p q + count n m super q
      else count n m p q := by
  obtain ⟨i', hi', hilt⟩ := Numbering.exists_index? hp
  obtain ⟨j, hj, hjlt⟩ := Numbering.exists_index? hq
  obtain ⟨s, hs, hslt⟩ := h.covers i' hilt
  have hrlt : j < r.size := by rw [h.size_row k r hr]; exact hjlt
  have hslt' : j < s.size := Nat.lt_of_lt_of_le hjlt hslt
  have hrow (x : Option Matrix) (y : String) (l : Nat) (hl : n.index? y = some l) :
      cell n x y q = x.bind fun m => m.cell? l j := by rw [cell, hl, hj]; rfl
  unfold count
  rw [hrow _ p i' hi', hrow _ p i' hi', hrow _ super k hk]
  simp only [Option.bind_some, Matrix.cell?, Matrix.rows_addRow, hs, hr]
  by_cases hname : p = name
  · subst hname
    obtain rfl : i' = i := Option.some_inj.mp (hi'.symm.trans hi)
    rw [if_pos rfl, if_pos rfl]
    simp only [Option.map_some, Option.bind_some, Array.getElem?_zipWith,
      Array.getElem?_eq_getElem hrlt, Array.getElem?_eq_getElem hslt', Option.getD_some]
  · have hne : ¬ i = i' := by
      rintro rfl
      exact hname (Numbering.index?_inj hi' hi)
    rw [if_neg hne, if_neg hname, Option.bind_some]

/-! ## One class -/

/-- What a class does for one of its supertypes. -/
def takeOver (registry : Registry) (classes : ClassTable) (n : Numbering) (depth : Nat)
    (name super : String) :
    Inherit Unit := do
  let (i, _) ← ownRow n name
  let superId ← liftExcept (lookUp classes super)
  match ← inheritRows registry classes n depth superId with
  | some row => modify (Option.map (·.addRow i row))
  | none => throw .noRow

theorem inheritRows_root (h : registry.hierarchy id = []) (depth : Nat) :
    inheritRows registry classes n (depth + 1) id =
      ownRow n (registry.fullName id) >>= fun r => pure (some r.2) := by
  rw [inheritRows, h]

theorem inheritRows_heir (h : registry.hierarchy id ≠ []) (depth : Nat) :
    inheritRows registry classes n (depth + 1) id =
      (registry.hierarchy id).forM (takeOver registry classes n depth (registry.fullName id)) >>=
      fun _ => pure none := by
  rw [inheritRows]
  cases hsupers : registry.hierarchy id with
  | nil => exact absurd hsupers h
  | cons super supers => rfl

/-- Only a class without supertypes has a row to give. -/
theorem hierarchy_of_row {depth : Nat} {row : Array Int64}
    (h : (inheritRows registry classes n depth id).run.run s = (.ok (some row), s')) :
    registry.hierarchy id = [] := by
  cases depth with
  | zero => cases h
  | succ depth =>
    by_contra hne
    rw [inheritRows_heir hne] at h
    obtain ⟨⟨⟩, s₁, -, hnone⟩ := bind_eq_ok.mp h
    cases hnone

/-- A supertype that is taken over is a class of the table without supertypes. -/
theorem root_of_takeOver {depth : Nat}
    (h : (takeOver registry classes n depth name super).run.run s = (.ok (), s')) :
    ∃ superId, classes.get? super = some superId ∧ registry.hierarchy superId = [] := by
  unfold takeOver at h
  obtain ⟨⟨i, _⟩, s₁, -, h₁⟩ := bind_eq_ok.mp h
  obtain ⟨superId, s₂, hlook, h₂⟩ := bind_eq_ok.mp h₁
  obtain ⟨given, s₃, hgiven, h₃⟩ := bind_eq_ok.mp h₂
  cases given with
  | none => cases h₃
  | some row =>
    refine ⟨superId, ?_, hierarchy_of_row hgiven⟩
    have hfound := (liftExcept_eq_ok.mp hlook).1
    unfold lookUp at hfound
    cases hget : classes.get? super with
    | none => rw [hget] at hfound; cases hfound
    | some id => rw [hget] at hfound; cases hfound; rfl

/-- Each member of a list was met by a loop that came to its end. -/
theorem met_of_forM {α : Type} {xs : List α} {f : α → Inherit Unit}
    (h : (xs.forM f).run.run s = (.ok (), s')) :
    ∀ x ∈ xs, ∃ s₁ s₂, (f x).run.run s₁ = (.ok (), s₂) := by
  induction xs generalizing s with
  | nil => exact nofun
  | cons x xs ih =>
    obtain ⟨s₁, hx, hrest⟩ := forM_cons_eq_ok.mp h
    exact List.forall_mem_cons.mpr ⟨⟨s, s₁, hx⟩, ih hrest⟩

theorem Fitted.length_eq (h : Fitted registry classes n m) : n.names.length = classes.size := by
  rw [h.numbered.length_eq, Table.keys, List.length_map, Table.size]

/-- A class has a number. -/
theorem mem_names (h : n.names.Perm classes.keys) (hid : classes.get? name = some id) :
    name ∈ n.names :=
  h.mem_iff.mpr (Table.contains_iff_mem_keys.mp (Table.contains_iff_exists.mpr ⟨id, hid⟩))

/-- The row of a class is there. -/
theorem Fitted.run_ownRow (h : Fitted registry classes n m) (hid : classes.get? name = some id) :
    ∃ i r, n.index? name = some i ∧ m.rows[i]? = some r ∧
      (ownRow n name).run.run (some m) = (.ok (i, r), some m) := by
  obtain ⟨i, hi, hlt⟩ := Numbering.exists_index? (mem_names h.numbered hid)
  obtain ⟨r, hr, -⟩ := h.square.covers i (h.length_eq ▸ hlt)
  refine ⟨i, r, hi, hr, ?_⟩
  unfold ownRow
  simp only [run_bind, run_liftExcept, Numbering.index_eq_ok.mpr hi, run_get,
    Matrix.row_eq_ok.mpr hr, run_pure]

/-- A supertype without supertypes is taken over: its row is added. -/
theorem Fitted.run_takeOver (h : Fitted registry classes n m) (depth : Nat) {superId : SymbolId}
    (hid : classes.get? name = some id) (hsuper : classes.get? super = some superId)
    (hroot : registry.hierarchy superId = []) :
    ∃ m', (takeOver registry classes n (depth + 1) name super).run.run (some m) =
      (.ok (), some m') ∧
      m'.Square classes.size ∧ ∀ p ∈ n.names, ∀ q ∈ n.names,
        count n m' p q = if p = name then count n m p q + count n m super q else count n m p q := by
  obtain ⟨i, r, hi, hr, hrun⟩ := h.run_ownRow hid
  obtain ⟨k, row, hk, hrow, hrun'⟩ := h.run_ownRow hsuper
  have hlook : lookUp classes super = .ok superId := by rw [lookUp, hsuper]
  refine ⟨m.addRow i row, ?_, h.square.addRow i (h.square.size_row k row hrow), fun p hp q hq => ?_⟩
  · unfold takeOver
    simp only [run_bind, hrun, run_liftExcept, hlook, inheritRows_root hroot,
      h.named.fullName hsuper, hrun', run_pure]
    rfl
  · exact count_addRow (h.length_eq ▸ h.square) hi hk hrow hp hq

theorem Fitted.withMatrix (h : Fitted registry classes n m) (hm : m'.Square classes.size) :
    Fitted registry classes n m' :=
  ⟨h.nodup, h.named, h.numbered, hm⟩

/-- The count that a class has after it has taken over its supertypes. -/
def heirCount (n : Numbering) (m : Matrix) (supers : List String) (p q : String) : Int64 :=
  supers.foldl (fun v super => v + count n m super q) (count n m p q)

/-- All supertypes of a class are taken over, one after the other. -/
theorem Fitted.run_supers (h : Fitted registry classes n m) (depth : Nat)
    (hid : classes.get? name = some id)
    {supers : List String} (hsupers : ∀ super ∈ supers, super ≠ name ∧
      ∃ superId, classes.get? super = some superId ∧ registry.hierarchy superId = []) :
    ∃ m', (supers.forM (takeOver registry classes n (depth + 1) name)).run.run (some m) =
      (.ok (), some m') ∧
      m'.Square classes.size ∧ ∀ p ∈ n.names, ∀ q ∈ n.names,
        count n m' p q = if p = name then heirCount n m supers p q else count n m p q := by
  induction supers generalizing m with
  | nil =>
    refine ⟨m, rfl, h.square, fun p _ q _ => ?_⟩
    split <;> rfl
  | cons super supers ih =>
    obtain ⟨⟨hne, superId, hsuper, hroot⟩, hrest⟩ := List.forall_mem_cons.mp hsupers
    obtain ⟨m₁, hrun₁, hsquare₁, hcount₁⟩ := h.run_takeOver depth hid hsuper hroot
    obtain ⟨m', hrun, hsquare, hcount⟩ := ih (h.withMatrix hsquare₁) hrest
    refine ⟨m', forM_cons_eq_ok.mpr ⟨some m₁, hrun₁, hrun⟩, hsquare, fun p hp q hq => ?_⟩
    -- The rows of the other supertypes are as before.
    have hothers : ∀ s ∈ supers, count n m₁ s q = count n m s q := by
      intro s hs
      obtain ⟨hother, sid, hsid, -⟩ := hrest s hs
      rw [hcount₁ s (mem_names h.numbered hsid) q hq, if_neg hother]
    rw [hcount p hp q hq]
    by_cases hname : p = name
    · rw [if_pos hname, if_pos hname, heirCount, heirCount, List.foldl_cons, hcount₁ p hp q hq,
        if_pos hname]
      exact List.foldl_ext _ _ _ fun v s hs => by rw [hothers s hs]
    · rw [if_neg hname, if_neg hname, hcount₁ p hp q hq, if_neg hname]

/-! ## All classes -/

/-- The supertypes of the class with a name. -/
def supersOf (registry : Registry) (classes : ClassTable) (name : String) : List String :=
  ((classes.get? name).map registry.hierarchy).getD []

theorem supersOf_of_get? (h : classes.get? name = some id) :
    supersOf registry classes name = registry.hierarchy id := by
  rw [supersOf, h]
  rfl

/-- A class inherits: its own row changes and no other. -/
theorem Fitted.run_inheritFor (h : Fitted registry classes n m)
    (hshallow : Shallow registry classes) (hid : classes.get? name = some id) :
    ∃ given m', (inheritFor registry classes n id).run.run (some m) = (.ok given, some m') ∧
      m'.Square classes.size ∧ ∀ p ∈ n.names, ∀ q ∈ n.names,
        count n m' p q = if p = name then heirCount n m (supersOf registry classes name) p q
          else count n m p q := by
  unfold inheritFor
  rw [supersOf_of_get? hid]
  by_cases hroot : registry.hierarchy id = []
  · obtain ⟨i, r, -, -, hrun⟩ := h.run_ownRow hid
    refine ⟨some r, m, ?_, h.square, fun p _ q _ => ?_⟩
    · rw [inheritRows_root hroot, h.named.fullName hid]
      simp only [run_bind, hrun, run_pure]
    · rw [hroot]
      split <;> rfl
  · -- There is a class, so that the depth is enough for it and its supertypes.
    obtain ⟨depth, hdepth⟩ : ∃ depth, classes.size = depth + 1 := by
      have hmem : (name, id) ∈ classes.entries := Table.mem_entries_of_get? hid
      exact Nat.exists_eq_succ_of_ne_zero (Nat.ne_of_gt (List.length_pos_of_mem hmem))
    have hsupers : ∀ super ∈ registry.hierarchy id, super ≠ name ∧
        ∃ superId, classes.get? super = some superId ∧ registry.hierarchy superId = [] := by
      intro super hsuper
      obtain ⟨superId, hsuperId, hroot'⟩ := hshallow name id hid super hsuper
      refine ⟨fun heq => ?_, superId, hsuperId, hroot'⟩
      rw [heq, hid, Option.some_inj] at hsuperId
      exact hroot (hsuperId ▸ hroot')
    obtain ⟨m', hrun, hsquare, hcount⟩ := h.run_supers depth hid hsupers
    refine ⟨none, m', ?_, hsquare, hcount⟩
    rw [hdepth, inheritRows_heir hroot, h.named.fullName hid]
    simp only [run_bind, hrun, run_pure]

/-- What one class does leaves what every other class will take over. -/
theorem heirCount_step (hshallow : Shallow registry classes) (hnumbered : n.names.Perm classes.keys)
    (hcount : ∀ p ∈ n.names, ∀ q ∈ n.names, count n m' p q =
      if p = name then heirCount n m (supersOf registry classes name) p q else count n m p q)
        (hp : p ∈ n.names)
    (hq : q ∈ n.names) (hne : p ≠ name) :
    heirCount n m' (supersOf registry classes p) p q =
      heirCount n m (supersOf registry classes p) p q := by
  obtain ⟨id, hid⟩ := Table.contains_iff_exists.mp
    (Table.contains_iff_mem_keys.mpr (hnumbered.mem_iff.mp hp))
  rw [heirCount, heirCount, hcount p hp q hq, if_neg hne]
  refine List.foldl_ext _ _ _ fun v super hsuper => ?_
  rw [supersOf_of_get? hid] at hsuper
  obtain ⟨superId, hsuperId, hroot⟩ := hshallow p id hid super hsuper
  rw [hcount super (mem_names hnumbered hsuperId) q hq]
  split
  · next heq => rw [← heq, supersOf_of_get? hsuperId, hroot]; rfl
  · rfl

/-- Classes inherit one after the other: each takes over what its supertypes had at the
beginning. -/
theorem Fitted.run_each (h : Fitted registry classes n m) (hshallow : Shallow registry classes)
    {entries : List (String × SymbolId)} (hentries : ∀ e ∈ entries, classes.get? e.1 = some e.2)
    (hnodup : (entries.map (·.1)).Nodup) :
    ∃ m', ((entries.map Prod.snd).forM fun id => do
          let _ ← inheritFor registry classes n id).run.run (some m) =
        (.ok (), some m') ∧ m'.Square classes.size ∧ ∀ p ∈ n.names, ∀ q ∈ n.names,
          count n m' p q =
            if p ∈ entries.map (·.1) then heirCount n m (supersOf registry classes p) p q
              else count n m p q := by
  induction entries generalizing m with
  | nil => exact ⟨m, rfl, h.square, fun p _ q _ => rfl⟩
  | cons e entries ih =>
    obtain ⟨hid, hrest⟩ := List.forall_mem_cons.mp hentries
    obtain ⟨hnew, hnodup'⟩ := List.nodup_cons.mp hnodup
    obtain ⟨given, m₁, hrun₁, hsquare₁, hcount₁⟩ := h.run_inheritFor hshallow hid
    obtain ⟨m', hrun, hsquare, hcount⟩ := ih (h.withMatrix hsquare₁) hrest hnodup'
    refine ⟨m', forM_cons_eq_ok.mpr ⟨some m₁, ?_, hrun⟩, hsquare, fun p hp q hq => ?_⟩
    · simp only [run_bind, hrun₁, run_pure]
    · rw [hcount p hp q hq]
      by_cases hname : p = e.1
      · rw [if_neg (hname ▸ hnew), if_pos (hname ▸ List.mem_cons_self), hcount₁ p hp q hq,
          if_pos hname, hname]
      · have hmem : p ∈ (e :: entries).map (·.1) ↔ p ∈ entries.map (·.1) := by
          rw [List.map_cons, List.mem_cons, or_iff_right hname]
        rw [heirCount_step hshallow h.numbered hcount₁ hp hq hname, hcount₁ p hp q hq, if_neg hname]
        simp only [hmem]

/-- Whole numbers are added up in 64 bits. -/
theorem ofInt_countWith (supers : List String) (p q : String) :
    Int64.ofInt (countWith n m supers p q) = heirCount n m supers p q := by
  have hfold (t : Int) :
      Int64.ofInt (supers.foldl (fun t super => t + (count n m super q).toInt) t) =
      supers.foldl (fun v super => v + count n m super q) (Int64.ofInt t) := by
    induction supers generalizing t with
    | nil => rfl
    | cons super supers ih =>
      rw [List.foldl_cons, List.foldl_cons, ih, Int64.ofInt_add, Int64.ofInt_toInt]
  rw [countWith, hfold, Int64.ofInt_toInt, heirCount]

/-- Classes have inherited: this came to its end just if no supertype is unknown or has supertypes,
and then each count is that of the class and of its supertypes before, added up in 64 bits. -/
structure Inherits (registry : Registry) (classes : ClassTable) (n : Numbering) (m : Matrix)
    (out : Except Fault Unit × Option Matrix) : Prop where
  ends_iff : out.1 = .ok () ↔ Shallow registry classes
  rows : out.1 = .ok () → ∃ m', out.2 = some m' ∧ m'.Square classes.size ∧
    ∀ p id, classes.get? p = some id → ∀ q ∈ classes.keys,
      cell n (some m') p q = some (Int64.ofInt (countWith n m (registry.hierarchy id) p q))

/-- If all classes of a table have inherited, all supertypes are classes without supertypes. -/
theorem shallow_of_inheritAll (h : (inheritAll registry classes n).run.run s = (.ok (), s')) :
    Shallow registry classes := by
  intro name id hid super hsuper
  have hmem : id ∈ classes.values := Table.mem_values_of_get? hid
  obtain ⟨s₁, s₂, hrun⟩ := met_of_forM h id hmem
  obtain ⟨given, s₃, hfor, -⟩ := bind_eq_ok.mp hrun
  unfold inheritFor at hfor
  rw [inheritRows_heir (List.ne_nil_of_mem hsuper)] at hfor
  obtain ⟨⟨⟩, s₄, hsupers, -⟩ := bind_eq_ok.mp hfor
  obtain ⟨s₅, s₆, htaken⟩ := met_of_forM hsupers super hsuper
  exact root_of_takeOver htaken

theorem Fitted.inherits (h : Fitted registry classes n m) :
    Inherits registry classes n m ((inheritAll registry classes n).run.run (some m)) := by
  have hends (hshallow : Shallow registry classes) := h.run_each hshallow
    (fun e he => (Table.mem_entries_iff h.nodup).mp he) h.nodup
  refine ⟨⟨fun hok => ?_, fun hshallow => ?_⟩, fun hok => ?_⟩
  · exact shallow_of_inheritAll (Prod.ext hok rfl)
  · obtain ⟨m', hrun, -⟩ := hends hshallow
    exact congrArg Prod.fst hrun
  · have hshallow := shallow_of_inheritAll (Prod.ext hok rfl)
    obtain ⟨m', hrun, hsquare, hcount⟩ := hends hshallow
    refine ⟨m', congrArg Prod.snd hrun, hsquare, fun p id hid q hq => ?_⟩
    have hp := mem_names h.numbered hid
    have hp' : p ∈ classes.entries.map (·.1) := h.numbered.mem_iff.mp hp
    have hq' := h.numbered.mem_iff.mpr hq
    rw [cell_eq_count (h.length_eq ▸ hsquare) hp hq', hcount p hp q hq', if_pos hp',
      supersOf_of_get? hid, ofInt_countWith]

/-! ## Both analysers -/

/-- What an analyser by flat names does when classes inherit: its matrix changes and nothing
else. -/
theorem FlatAnalyzer.run_inheriting {α : Type}
    (step : Registry → ClassTable → Numbering → Inherit α) (s : Scene FlatAnalyzer) :
    (FlatAnalyzer.inheriting step).run.run s =
      let out := (step s.shared.registry (classTable s) s.shared.flatNumbering).run.run
        (some s.self.matrix)
      (out.1, { s with self := { s.self with matrix := out.2.getD s.self.matrix } }) := by
  unfold FlatAnalyzer.inheriting Action.change
  rcases hout : (step s.shared.registry (classTable s) s.shared.flatNumbering).run.run
      (some s.self.matrix) with
    ⟨result, m⟩
  simp only [run_bind, run_get, hout, run_modify, run_liftExcept]

theorem FlatAnalyzer.run_inherited {fs : Files} {s s' : Scene FlatAnalyzer}
    (h : (FlatAnalyzer.run fs false).run.run s = (.ok (), s')) :
    (FlatAnalyzer.run fs true).run.run s = (FlatAnalyzer.inheriting inheritAll).run.run s' := by
  unfold FlatAnalyzer.run FlatAnalyzer.runWith at h ⊢
  obtain ⟨⟨⟩, s₁, hnumber, h⟩ := bind_eq_ok.mp h
  obtain ⟨p, s₂, hself, h⟩ := bind_eq_ok.mp h
  obtain ⟨⟨⟩, s₃, hfiles, h⟩ := bind_eq_ok.mp h
  cases h
  simp only [run_bind, hnumber, hself, hfiles]
  rfl

/-- **Rows are inherited exactly.** Take any class table, a numbering of its classes in any order,
and any square matrix for them. The loop in which all classes inherit, in the order of the table,
comes to its end just if every supertype of a class is a class of the table that has no supertypes.
Then the row of a class is its row before with the rows that its supertypes had before, each as
often as it is named, added up count by count in 64 bits. The same is true of a profile that lets
classes inherit, and of the analysis by flat names, with what they are without it as a start. -/
theorem inherited_rows_exact (h : Fitted registry classes n m) :
    Inherits registry classes n m ((inheritAll registry classes n).run.run (some m)) ∧
    (∀ (parse : Parser) (fs : Files) (s s' : Scene Profiler),
      (Profiler.profile parse fs false).run.run s = (.ok (), s') →
      s'.shared.registry = registry → Profiler.classTable s' = classes → s'.shared.numbering = n →
      s'.self.matrix = some m → ∃ r matrix, Inherits registry classes n m (r, matrix) ∧
        (Profiler.profile parse fs true).run.run s =
          (r, { s' with self := { s'.self with matrix } })) ∧
    (∀ (fs : Files) (s s' : Scene FlatAnalyzer), (FlatAnalyzer.run fs false).run.run s =
      (.ok (), s') →
      s'.shared.registry = registry → FlatAnalyzer.classTable s' = classes →
      s'.shared.flatNumbering = n →
      s'.self.matrix = m → ∃ r matrix, Inherits registry classes n m (r, matrix) ∧
        (FlatAnalyzer.run fs true).run.run s =
          (r, { s' with self := { s'.self with matrix := matrix.getD m } })) := by
  have hout := h.inherits
  rcases hrun : (inheritAll registry classes n).run.run (some m) with ⟨r, matrix⟩
  rw [hrun] at hout
  refine ⟨hout, ?_, ?_⟩
  · rintro parse fs s s' hprofile rfl rfl rfl hmatrix
    refine ⟨r, matrix, hout, ?_⟩
    rw [Profiler.run_profile_inherited hprofile, Profiler.run_inheriting, hmatrix, hrun]
  · rintro fs s s' hanalysis rfl rfl rfl rfl
    refine ⟨r, matrix, hout, ?_⟩
    rw [FlatAnalyzer.run_inherited hanalysis, FlatAnalyzer.run_inheriting, hrun]

/-- A class symbol with supertypes. -/
def classSymbol (name : String) (supers : List String) : Symbol :=
  { kind := .class, shortName := name, fullName := name, file := "", startLine := 1,
    stopLine := 1, code := "", hierarchy := supers }

/-- A class that names one supertype twice and another one once, with a count that is as large as
can be. -/
def twoSupersRegistry : Registry :=
  ⟨#[classSymbol "A" ["B", "C", "B"], classSymbol "B" [], classSymbol "C" []]⟩

def twoSupersClasses : ClassTable := ⟨[("A", 0), ("B", 1), ("C", 2)]⟩

def twoSupersMatrix : Matrix := ⟨#[#[0, 1, 9223372036854775807], #[5, 0, 2], #[0, 7, 0]]⟩

/-- An analyser by flat names without files, whose matrix has been filled. -/
def twoSupersScene : Scene FlatAnalyzer :=
  ⟨⟨[], 0, twoSupersMatrix⟩, { registry := twoSupersRegistry, tables := #[twoSupersClasses] }⟩

/-- The supertypes are added as often as they are named, and a count that gets too large goes on
from the least one. -/
theorem twoSupers_inherited :
    Fitted twoSupersRegistry twoSupersClasses ⟨["A", "B", "C"]⟩ twoSupersMatrix ∧
    ∃ m', (FlatAnalyzer.run ⟨[]⟩ true).run.run twoSupersScene =
        (.ok (), ⟨⟨[], 0, m'⟩, { twoSupersScene.shared with flatNumbering := ⟨["A", "B", "C"]⟩ }⟩) ∧
      cell ⟨["A", "B", "C"]⟩ (some m') "A" "B" = some 8 ∧
      cell ⟨["A", "B", "C"]⟩ (some m') "A" "C" = some (-9223372036854775805) := by
  have hnamed : ∀ e ∈ twoSupersClasses.entries, (twoSupersRegistry.get? e.2).map Symbol.fullName =
      some e.1 := by
    decide
  have hfitted : Fitted twoSupersRegistry twoSupersClasses ⟨["A", "B", "C"]⟩ twoSupersMatrix := by
    refine ⟨by decide, fun name id hid => ?_, .refl _, rfl, fun i r hr => ?_⟩
    · exact Option.map_eq_some_iff.mp (hnamed _ (Table.mem_entries_of_get? hid))
    · have hsizes : ∀ r ∈ twoSupersMatrix.rows, r.size = 3 := by decide
      exact hsizes r (Array.mem_of_getElem? hr)
  have hshallow : Shallow twoSupersRegistry twoSupersClasses := by
    have hroots : ∀ e ∈ twoSupersClasses.entries, ∀ super ∈ twoSupersRegistry.hierarchy e.2,
        (twoSupersClasses.get? super).map twoSupersRegistry.hierarchy = some [] := by decide
    intro name id hid super hsuper
    exact Option.map_eq_some_iff.mp (hroots _ (Table.mem_entries_of_get? hid) super hsuper)
  obtain ⟨-, -, hflat⟩ := inherited_rows_exact hfitted
  obtain ⟨r, matrix, hinherits, hrun⟩ := hflat ⟨[]⟩ twoSupersScene
    { twoSupersScene with shared := { twoSupersScene.shared with flatNumbering := ⟨["A", "B",
      "C"]⟩ } } rfl rfl rfl rfl rfl
  obtain rfl : r = .ok () := hinherits.ends_iff.mpr hshallow
  obtain ⟨m', rfl, -, hcell⟩ := hinherits.rows rfl
  refine ⟨hfitted, m', hrun, ?_, ?_⟩
  · exact (hcell "A" 0 rfl "B" (by decide)).trans (by decide)
  · exact (hcell "A" 0 rfl "C" (by decide)).trans (by decide)

end Coupling.Project
