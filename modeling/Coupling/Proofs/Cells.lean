import Mathlib.Logic.Basic
import Coupling.Project.Matrix

/-!
# Cells of a matrix

A matrix is read through the names of its rows and columns. Different names have different numbers,
so that counting an interaction changes the cell of its two names and no other
(`cell_countInteraction`).
-/

namespace Coupling.Project

namespace Numbering

variable {n : Numbering} {name : String} {i : Nat}

/-- A name stands at its number. -/
theorem names_of_index? (h : n.index? name = some i) : n.names[i]? = some name := by
  unfold index? at h
  obtain ⟨k, hk, rfl⟩ := Option.map_eq_some_iff.mp h
  rw [List.idxOf?, List.findIdx?_eq_some_iff_getElem] at hk
  obtain ⟨hlt, hname, _⟩ := hk
  have hlt' : k < n.names.length := by simpa using hlt
  rw [List.getElem?_eq_getElem (by omega), Option.some_inj]
  rw [List.getElem_reverse, beq_iff_eq] at hname
  exact hname

theorem index?_inj {p q : String} (hp : n.index? p = some i) (hq : n.index? q = some i) :
    p = q := by
  have h := (names_of_index? hp).symm.trans (names_of_index? hq)
  exact Option.some_inj.mp h

theorem exists_index? (h : name ∈ n.names) : ∃ i, n.index? name = some i ∧ i < n.names.length := by
  have hmem : name ∈ n.names.reverse := List.mem_reverse.mpr h
  obtain ⟨k, hk⟩ : ∃ k, n.names.reverse.idxOf? name = some k := by
    rw [← Option.isSome_iff_exists, List.isSome_idxOf?]
    exact hmem
  refine ⟨n.names.length - 1 - k, by rw [index?, hk]; rfl, ?_⟩
  have hpos := List.length_pos_of_mem h
  omega

theorem index?_lt (h : n.index? name = some i) : i < n.names.length :=
  (List.getElem?_eq_some_iff.mp (names_of_index? h)).1

/-- In a numbering without double names every name has the number of its place. -/
theorem index?_of_nodup (hnodup : n.names.Nodup) (h : n.names[i]? = some name) :
    n.index? name = some i := by
  obtain ⟨j, hj, hlt⟩ := exists_index? (List.mem_of_getElem? h)
  have hsame : n.names[j]? = n.names[i]? := (names_of_index? hj).trans h.symm
  rw [hj, (List.getElem?_inj hlt hnodup).mp hsame]

theorem index_eq_ok : n.index name = .ok i ↔ n.index? name = some i := by
  unfold index
  cases n.index? name <;> simp

end Numbering

namespace Matrix

variable {m m' : Matrix} {i j n : Nat}

theorem row_eq_ok {r : Array Int64} : m.row i = .ok r ↔ m.rows[i]? = some r := by
  unfold row
  cases m.rows[i]? <;> simp

theorem bump_eq_ok (h : m.bump i j = .ok m') :
    ∃ r, m.rows[i]? = some r ∧ m' = ⟨m.rows.setIfInBounds i (r.modify j (· + 1))⟩ := by
  unfold bump at h
  cases hr : m.rows[i]? with
  | none => simp [row, hr, bind, Except.bind] at h
  | some r =>
    simp only [row, hr, bind, Except.bind] at h
    split at h
    · cases h
      exact ⟨r, rfl, rfl⟩
    · cases h

/-- Counting one more changes one cell. -/
theorem cell?_bump (h : m.bump i j = .ok m') (i' j' : Nat) :
    m'.cell? i' j' = if i' = i ∧ j' = j then (m.cell? i' j').map (· + 1) else m.cell? i' j' := by
  obtain ⟨r, hr, rfl⟩ := bump_eq_ok h
  have hi : i < m.rows.size := (Array.getElem?_eq_some_iff.mp hr).1
  unfold cell?
  rw [Array.getElem?_setIfInBounds]
  by_cases hi' : i = i'
  · subst hi'
    rw [if_pos rfl, if_pos hi, hr]
    simp only [Option.bind_some, Array.getElem?_modify, true_and]
    by_cases hj' : j = j'
    · subst hj'
      rw [if_pos rfl]
    · rw [if_neg hj', if_neg fun he => hj' he.symm]
  · rw [if_neg hi', if_neg fun he => hi' he.1.symm]

theorem cell?_zero (hi : i < n) (hj : j < n) : (zero n).cell? i j = some 0 := by
  unfold cell? zero
  simp [hi, hj]

/-- Adding a row changes one row, and leaves it a row of at most the same length. -/
theorem rows_addRow (m : Matrix) (i : Nat) (r : Array Int64) (i' : Nat) :
    (m.addRow i r).rows[i']? = if i = i' then (m.rows[i']?).map (·.zipWith (· + ·) r)
      else m.rows[i']? := by
  unfold addRow
  exact Array.getElem?_modify

/-! ## Matrices with enough cells -/

/-- There is a cell for any two of the first `n` numbers. -/
def Covers (n : Nat) (m : Matrix) : Prop := ∀ i, i < n → ∃ r, m.rows[i]? = some r ∧ n ≤ r.size

theorem Covers.cell? (h : m.Covers n) (hi : i < n) (hj : j < n) : ∃ v, m.cell? i j = some v := by
  obtain ⟨r, hr, hsize⟩ := h i hi
  refine ⟨r[j], ?_⟩
  unfold Matrix.cell?
  rw [hr, Option.bind_some, Array.getElem?_eq_getElem (Nat.lt_of_lt_of_le hj hsize)]

theorem covers_zero (n : Nat) : (zero n).Covers n := by
  intro i hi
  refine ⟨Array.replicate n 0, ?_, by simp⟩
  simp [zero, hi]

theorem Covers.bump (h : m.Covers n) (hb : m.bump i j = .ok m') : m'.Covers n := by
  intro k hk
  obtain ⟨r, hr, hsize⟩ := h k hk
  obtain ⟨r', hr', rfl⟩ := bump_eq_ok hb
  have hi : i < m.rows.size := (Array.getElem?_eq_some_iff.mp hr').1
  rw [Array.getElem?_setIfInBounds]
  by_cases hik : i = k
  · subst hik
    rw [hr', Option.some_inj] at hr
    subst hr
    exact ⟨_, by rw [if_pos rfl, if_pos hi], by simpa using hsize⟩
  · exact ⟨r, by rw [if_neg hik, hr], hsize⟩

theorem Covers.addRow (h : m.Covers n) (i : Nat) {r : Array Int64} (hr : n ≤ r.size) :
    (m.addRow i r).Covers n := by
  intro k hk
  obtain ⟨r', hr', hsize⟩ := h k hk
  rw [rows_addRow]
  split
  · exact ⟨r'.zipWith (· + ·) r, by rw [hr']; rfl, by simp; omega⟩
  · exact ⟨r', hr', hsize⟩

/-! ## Square matrices -/

/-- There are `n` rows, and each has `n` counts. -/
structure Square (n : Nat) (m : Matrix) : Prop where
  size_rows : m.rows.size = n
  size_row : ∀ (i : Nat) (r : Array Int64), m.rows[i]? = some r → r.size = n

theorem Square.covers (h : m.Square n) : m.Covers n := by
  intro i hi
  have hi' : i < m.rows.size := h.size_rows ▸ hi
  refine ⟨m.rows[i], Array.getElem?_eq_getElem hi', ?_⟩
  exact Nat.le_of_eq (h.size_row i _ (Array.getElem?_eq_getElem hi')).symm

theorem square_zero (n : Nat) : (zero n).Square n := by
  refine ⟨Array.size_replicate, fun i r hr => ?_⟩
  rw [zero, Array.getElem?_replicate] at hr
  split at hr
  · cases hr
    exact Array.size_replicate
  · cases hr

theorem Square.bump (h : m.Square n) (hb : m.bump i j = .ok m') : m'.Square n := by
  obtain ⟨r, hr, rfl⟩ := bump_eq_ok hb
  refine ⟨Array.size_setIfInBounds.trans h.size_rows, fun k r' hr' => ?_⟩
  rw [Array.getElem?_setIfInBounds] at hr'
  split at hr'
  · split at hr'
    · cases hr'
      exact Array.size_modify.trans (h.size_row i r hr)
    · cases hr'
  · exact h.size_row k r' hr'

/-- Square matrices with the same counts are the same. -/
theorem Square.ext (h : m.Square n) (h' : m'.Square n)
    (hcell : ∀ i j, i < n → j < n → m.cell? i j = m'.cell? i j) :
    m = m' := by
  obtain ⟨rows⟩ := m
  obtain ⟨rows'⟩ := m'
  refine congrArg Matrix.mk (Array.ext (h.size_rows.trans h'.size_rows.symm) fun i hi hi' => ?_)
  have hrow : rows[i].size = n := h.size_row i _ (Array.getElem?_eq_getElem hi)
  have hrow' : rows'[i].size = n := h'.size_row i _ (Array.getElem?_eq_getElem hi')
  refine Array.ext (hrow.trans hrow'.symm) fun j hj hj' => ?_
  have hcount := hcell i j (h.size_rows ▸ hi) (hrow ▸ hj)
  simpa only [cell?, Array.getElem?_eq_getElem hi, Array.getElem?_eq_getElem hi', Option.bind_some,
    Array.getElem?_eq_getElem hj, Array.getElem?_eq_getElem hj', Option.some_inj] using hcount

end Matrix

/-! ## Interactions -/

/-- The count of the interactions from one class to another. -/
def cell (n : Numbering) (matrix : Option Matrix) (source target : String) : Option Int64 :=
  (n.index? source).bind fun i => (n.index? target).bind fun j => matrix.bind fun m => m.cell? i j

variable {n : Numbering} {m' m : Matrix} {p q : String}

theorem countInteraction_eq_ok {matrix : Option Matrix} {source target : String}
    (h : countInteraction n matrix source target = .ok m') :
    ∃ m i j, matrix = some m ∧ n.index? source = some i ∧ n.index? target = some j ∧
    m.bump i j = .ok m' := by
  unfold countInteraction at h
  simp only [bind, Except.bind] at h
  split at h
  · cases h
  · next i hi =>
    cases matrix with
    | none => cases h
    | some m =>
      simp only at h
      split at h
      · cases h
      · split at h
        · cases h
        · next j hj =>
          exact ⟨m, i, j, rfl, Numbering.index_eq_ok.mp hi, Numbering.index_eq_ok.mp hj, h⟩

/-- Counting an interaction changes the cell of its two names and no other. -/
theorem cell_countInteraction {matrix : Option Matrix} {source target : String}
    (h : countInteraction n matrix source target = .ok m') (p q : String) :
    cell n (some m') p q =
      if p = source ∧ q = target then (cell n matrix p q).map (· + 1) else cell n matrix p q := by
  obtain ⟨m, i, j, rfl, hi, hj, hm⟩ := countInteraction_eq_ok h
  unfold cell
  cases hp : n.index? p with
  | none =>
    have hne : ¬ (p = source ∧ q = target) := by
      rintro ⟨rfl, -⟩
      rw [hi] at hp
      cases hp
    rw [if_neg hne]
    rfl
  | some i' =>
    cases hq : n.index? q with
    | none =>
      have hne : ¬ (p = source ∧ q = target) := by
        rintro ⟨-, rfl⟩
        rw [hj] at hq
        cases hq
      rw [if_neg hne]
      rfl
    | some j' =>
      simp only [Option.bind_some]
      rw [Matrix.cell?_bump hm]
      by_cases heq : i' = i ∧ j' = j
      · obtain ⟨rfl, rfl⟩ := heq
        rw [if_pos ⟨rfl, rfl⟩, if_pos ⟨Numbering.index?_inj hp hi, Numbering.index?_inj hq hj⟩]
      · have hne : ¬ (p = source ∧ q = target) := by
          rintro ⟨rfl, rfl⟩
          rw [hp, Option.some_inj] at hi
          rw [hq, Option.some_inj] at hj
          exact heq ⟨hi, hj⟩
        rw [if_neg heq, if_neg hne]

theorem Matrix.Covers.countInteraction {k : Nat} (h : m.Covers k)
    (hc : Project.countInteraction n (some m) p q = .ok m') : m'.Covers k := by
  obtain ⟨m₀, i, j, hm, -, -, hb⟩ := countInteraction_eq_ok hc
  cases hm
  exact h.bump hb

/-- Square matrices with the same counts for every two names are the same. -/
theorem Matrix.Square.ext_cell (hnodup : n.names.Nodup) (h : m.Square n.names.length)
    (h' : m'.Square n.names.length)
    (hcell : ∀ p q, cell n (some m) p q = cell n (some m') p q) : m = m' := by
  refine h.ext h' fun i j hi hj => ?_
  have hcount := hcell n.names[i] n.names[j]
  rwa [cell, cell, Numbering.index?_of_nodup hnodup (List.getElem?_eq_getElem hi),
    Numbering.index?_of_nodup hnodup (List.getElem?_eq_getElem hj)] at hcount

variable (h : m.Covers n.names.length) (hp : p ∈ n.names) (hq : q ∈ n.names)
include h hp hq

/-- A matrix that covers a numbering has a cell for any two of its names. -/
theorem exists_cell : ∃ v, cell n (some m) p q = some v := by
  obtain ⟨i, hi, hilt⟩ := Numbering.exists_index? hp
  obtain ⟨j, hj, hjlt⟩ := Numbering.exists_index? hq
  obtain ⟨v, hv⟩ := h.cell? hilt hjlt
  exact ⟨v, by rw [cell, hi, hj]; exact hv⟩

/-- The interactions of numbered classes can be counted. -/
theorem exists_countInteraction : ∃ m', countInteraction n (some m) p q = .ok m' := by
  obtain ⟨i, hi, hilt⟩ := Numbering.exists_index? hp
  obtain ⟨j, hj, hjlt⟩ := Numbering.exists_index? hq
  obtain ⟨r, hr, hsize⟩ := h i hilt
  refine ⟨⟨m.rows.set! i (r.modify j (· + 1))⟩, ?_⟩
  unfold countInteraction Matrix.bump
  simp only [Numbering.index_eq_ok.mpr hi, Numbering.index_eq_ok.mpr hj, Matrix.row_eq_ok.mpr hr,
    bind, Except.bind]
  rw [if_pos (Nat.lt_of_lt_of_le hjlt hsize)]

end Coupling.Project
