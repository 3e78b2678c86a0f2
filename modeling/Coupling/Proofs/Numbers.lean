import Mathlib.Logic.Basic
import Coupling.Data.Number

/-!
# Sums and quotients

Values are added up one after the other, from left to right. The order matters where a sum is
rounded; it does not if all values are whole numbers (`total_perm`), and then the sum is exact
(`total_whole`). A whole number can be divided unless the quotient is larger than every double
(`exists_quotient_iff`).
-/

namespace Coupling.Data

/-! ## Whole numbers -/

/-- The whole number that a value is, or zero. -/
def wholeOf (j : Json) : Int :=
  match number? j with
  | some (.whole n) => n
  | _ => 0

/-- A value is a whole number. -/
def IsWhole (j : Json) : Prop := number? j = some (.whole (wholeOf j))

@[simp] theorem wholeOf_int (n : Int) : wholeOf (.int n) = n := rfl

theorem isWhole_int (n : Int) : IsWhole (.int n) := rfl

variable {j a b t : Json} {js : List Json}

theorem wholeOf_of_not_isWhole (h : ¬IsWhole j) : wholeOf j = 0 := by
  unfold wholeOf
  split
  · next n hn => exact absurd (by rw [IsWhole, wholeOf, hn]) h
  · rfl

instance (j : Json) : Decidable (IsWhole j) :=
  match h : number? j with
  | some (.whole n) => isTrue (by simp only [IsWhole, wholeOf, h])
  | some (.fraction x) => isFalse (by simp [IsWhole, h])
  | none => isFalse (by simp [IsWhole, h])

theorem add_whole (ha : IsWhole a) (hb : IsWhole b) :
    add a b = .ok (.int (wholeOf a + wholeOf b)) := by
  unfold add toNumber
  rw [ha, hb]
  rfl

theorem subtract_whole (ha : IsWhole a) (hb : IsWhole b) :
    subtract a b = .ok (.int (wholeOf a - wholeOf b)) := by
  unfold subtract toNumber
  rw [ha, hb]
  rfl

theorem isPositive_whole (ha : IsWhole a) : isPositive a = .ok (decide (0 < wholeOf a)) := by
  unfold isPositive toNumber
  rw [ha]
  rfl

/-! ## Sums -/

/-- Values added up from left to right. -/
def total : List Json → Result Json
  | [] => .ok (.int 0)
  | j :: js => js.foldlM add j

/-- The sum of whole numbers. -/
def wholeSum : List Json → Int
  | [] => 0
  | j :: js => wholeOf j + wholeSum js

theorem total_concat (hjs : js ≠ []) (j : Json) :
    total (js ++ [j]) = total js >>= fun t => add t j := by
  cases js with
  | nil => exact absurd rfl hjs
  | cons i js =>
    show (js ++ [j]).foldlM add i = js.foldlM add i >>= fun t => add t j
    rw [List.foldlM_append]
    refine congrArg _ (funext fun t => ?_)
    rw [List.foldlM_cons]
    exact bind_pure _

variable {i : Json} {js' : List Json} {n : Int} {divisor : Nat}

/-- With two values or more the sum is a plain number. -/
theorem foldlM_add_whole (hi : IsWhole i) (hjs : ∀ j ∈ js, IsWhole j) (hne : js ≠ []) :
    js.foldlM add i = .ok (.int (wholeOf i + wholeSum js)) := by
  induction js generalizing i with
  | nil => exact absurd rfl hne
  | cons j js ih =>
    obtain ⟨hj, hrest⟩ := List.forall_mem_cons.mp hjs
    rw [List.foldlM_cons, add_whole hi hj]
    show js.foldlM add (.int (wholeOf i + wholeOf j)) = _
    cases js with
    | nil => simp [wholeSum, pure, Except.pure]
    | cons k js =>
      rw [ih (isWhole_int _) hrest (by simp), wholeOf_int, Int.add_assoc]
      rfl

/-- The sum of whole numbers is exact. -/
theorem total_whole (hjs : ∀ j ∈ js, IsWhole j) :
    ∃ t, total js = .ok t ∧ IsWhole t ∧ wholeOf t = wholeSum js := by
  cases js with
  | nil => exact ⟨.int 0, rfl, rfl, rfl⟩
  | cons i js =>
    obtain ⟨hi, hrest⟩ := List.forall_mem_cons.mp hjs
    by_cases hne : js = []
    · subst hne
      exact ⟨i, rfl, hi, (Int.add_zero _).symm⟩
    · exact ⟨_, foldlM_add_whole hi hrest hne, rfl, rfl⟩

theorem wholeSum_perm (h : js.Perm js') : wholeSum js = wholeSum js' := by
  induction h with
  | nil => rfl
  | cons j _ ih => rw [wholeSum, wholeSum, ih]
  | swap j k js =>
    simp only [wholeSum]
    omega
  | trans _ _ ih₁ ih₂ => exact ih₁.trans ih₂

/-- The order of whole numbers does not matter to their sum. -/
theorem total_perm (h : js.Perm js') (hjs : ∀ j ∈ js, IsWhole j) : total js = total js' := by
  have hjs' : ∀ j ∈ js', IsWhole j := fun j hj => hjs j (h.mem_iff.mpr hj)
  match js, js' with
  | [], js' => rw [List.nil_perm.mp h]
  | [j], js' => rw [List.singleton_perm.mp h]
  | i :: j :: js, [] => exact absurd (List.perm_nil.mp h) (by simp)
  | i :: j :: js, [k] => exact absurd (List.perm_singleton.mp h) (by simp)
  | i :: j :: js, k :: l :: ks =>
    obtain ⟨hi, hrest⟩ := List.forall_mem_cons.mp hjs
    obtain ⟨hk, hrest'⟩ := List.forall_mem_cons.mp hjs'
    show (j :: js).foldlM add i = (l :: ks).foldlM add k
    rw [foldlM_add_whole hi hrest (by simp), foldlM_add_whole hk hrest' (by simp)]
    exact congrArg (fun n => Except.ok (Json.int n)) (wholeSum_perm h)

theorem isSome_number?_add (h : add a b = .ok t) : (number? t).isSome := by
  unfold add at h
  cases ha : toNumber a with
  | error e =>
    rw [ha] at h
    cases h
  | ok m =>
    cases hb : toNumber b with
    | error e =>
      rw [ha, hb] at h
      cases h
    | ok n =>
      rw [ha, hb] at h
      change Number.combine (· + ·) (· + ·) m n = .ok t at h
      unfold Number.combine at h
      split at h
      · cases h
        rfl
      · cases hx : m.toFloat <;> cases hy : n.toFloat <;> simp [hx, hy, bind, Except.bind, pure,
          Except.pure] at h
        subst h
        rfl

theorem isSome_number?_foldlM (hi : (number? i).isSome) (h : js.foldlM add i = .ok t) :
    (number? t).isSome := by
  induction js generalizing i with
  | nil =>
    cases h
    exact hi
  | cons j js ih =>
    rw [List.foldlM_cons] at h
    cases hsum : add i j with
    | error e =>
      rw [hsum] at h
      cases h
    | ok sum =>
      rw [hsum] at h
      exact ih (isSome_number?_add hsum) h

/-- The sum of numbers is a number. -/
theorem isSome_number?_total (hjs : ∀ j ∈ js, (number? j).isSome) (h : total js = .ok t) :
    (number? t).isSome := by
  cases js with
  | nil =>
    cases h
    rfl
  | cons j js => exact isSome_number?_foldlM (hjs j List.mem_cons_self) h

theorem isSome_number?_of_isPositive {b : Bool} (h : isPositive j = .ok b) :
    (number? j).isSome := by
  unfold isPositive toNumber at h
  cases hj : number? j with
  | none =>
    rw [hj] at h
    cases h
  | some n => rfl

/-! ## Quotients -/

theorem exists_nearest_iff : (∃ x, nearest n = .ok x) ↔ n.natAbs < tooLarge := by
  unfold nearest
  split
  · next h => exact ⟨fun ⟨_, hx⟩ => (nomatch hx), fun hlt => absurd h (Nat.not_le.mpr hlt)⟩
  · next h => exact ⟨fun _ => Nat.not_le.mp h, fun _ => ⟨_, rfl⟩⟩

theorem tooLarge_even : tooLarge % 2 = 0 := by decide +kernel

theorem lt_tooLarge_of_lt {n : Nat} (h : n < Nat.pow 2 128) : n < tooLarge :=
  Nat.lt_of_lt_of_le h (by decide +kernel)

/-- The last digit, which tells what is left over, does not make a number too large. -/
theorem or_lt_tooLarge_iff {n left : Nat} (hleft : left ≤ 1) :
    n ||| left < tooLarge ↔ n < tooLarge := by
  have heven := tooLarge_even
  obtain rfl | rfl : left = 0 ∨ left = 1 := by omega
  · rw [Nat.or_zero]
  · have hor : n ||| 1 = n / 2 * 2 + 1 := by
      have hdiv : (n ||| 1) / 2 = n / 2 := by simp [Nat.or_div_two]
      have hmod : (n ||| 1) % 2 = 1 := by simp [Nat.or_mod_two_eq_one]
      omega
    omega

/-- A step that follows on a result comes to its end if there is a result. -/
theorem exists_bind_ok_iff {α β : Type} {x : Result α} {f : α → β} :
    (∃ b, (x >>= fun a => .ok (f a)) = .ok b) ↔ ∃ a, x = .ok a := by
  cases x with
  | error e => exact ⟨fun ⟨_, h⟩ => (nomatch h), fun ⟨_, h⟩ => (nomatch h)⟩
  | ok a => exact ⟨fun _ => ⟨a, rfl⟩, fun _ => ⟨f a, rfl⟩⟩

/-- A whole number can be divided unless the quotient is too large. -/
theorem exists_quotient_iff : (∃ x, quotient n divisor = .ok x) ↔
    n.natAbs / divisor < tooLarge := by
  have hleft (m : Nat) : (if m % divisor = 0 then 0 else 1) ≤ 1 := by split <;> omega
  refine exists_bind_ok_iff.trans (exists_nearest_iff.trans ?_)
  rw [Int.natAbs_natCast, or_lt_tooLarge_iff (hleft _)]
  split
  · next hsmall =>
    have hscaled : n.natAbs * Nat.pow 2 64 < Nat.pow 2 128 :=
      Nat.mul_lt_mul_of_pos_right hsmall (by decide +kernel)
    have hquotient := lt_tooLarge_of_lt (Nat.lt_of_le_of_lt (Nat.div_le_self _ divisor) hscaled)
    have hbare : n.natAbs / divisor < Nat.pow 2 128 :=
      Nat.lt_of_le_of_lt (Nat.div_le_self _ _) (Nat.lt_trans hsmall (by decide +kernel))
    exact ⟨fun _ => lt_tooLarge_of_lt hbare, fun _ => hquotient⟩
  · rw [show n.natAbs * Nat.pow 2 0 = n.natAbs from Nat.mul_one _]

/-- A value can be divided and added to if it is a number, and no whole one that is too large. -/
theorem exists_divideAndAdd_iff {summand : Float} :
    (∃ x, divideAndAdd j divisor summand = .ok x) ↔
      (number? j).isSome ∧ (IsWhole j → (wholeOf j).natAbs / divisor < tooLarge) := by
  have hdivided : (∃ x, divideAndAdd j divisor summand = .ok x) ↔
      ∃ y, (toNumber j >>= Number.dividedBy divisor) = .ok y := by
    unfold divideAndAdd
    cases toNumber j with
    | error e => exact ⟨fun ⟨_, h⟩ => (nomatch h), fun ⟨_, h⟩ => (nomatch h)⟩
    | ok k => exact exists_bind_ok_iff
  rw [hdivided]
  cases hj : number? j with
  | none =>
    rw [show toNumber j = .error .wrongKind by rw [toNumber, hj]]
    exact ⟨fun ⟨_, h⟩ => (nomatch h), fun h => (nomatch h.1)⟩
  | some k =>
    rw [show toNumber j = .ok k by rw [toNumber, hj]]
    cases k with
    | fraction x => exact ⟨fun _ => ⟨rfl, fun h => (nomatch hj.symm.trans h)⟩, fun _ => ⟨_, rfl⟩⟩
    | whole n =>
      have hwhole : wholeOf j = n := by rw [wholeOf, hj]
      have hj' : IsWhole j := by rw [IsWhole, hj, hwhole]
      simp only [bind, Except.bind, Number.dividedBy]
      rw [hwhole, exists_quotient_iff]
      exact ⟨fun h => ⟨rfl, fun _ => h⟩, fun h => h.2 hj'⟩

end Coupling.Data
