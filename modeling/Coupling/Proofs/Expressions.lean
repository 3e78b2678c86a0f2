import Mathlib.Computability.Language
import Coupling.Proofs.Steps
import Coupling.Regex.Reader

/-!
# Plain expressions

Expressions in which characters, and sets with a plus, follow each other match the product of the
languages of their parts (`accepts_joined`): all ways to share a text out among them are tried. In
the text of an expression a character stands for itself unless it is one of the signs, or a brace
that opens a count (`sequence_letter`).
-/

namespace Coupling.Regex

open Steps

/-! ## What is matched -/

/-- The place after some characters, with what is left. -/
def Spot.past (s : Spot) (u rest : List Char) : Spot :=
  { s with before := u.reverse ++ s.before, after := rest }

/-- Wherever an expression starts to match, it reaches a goal just if it can pass a text of a
language to it. -/
def Accepts (r : Regex) (language : Language Char) : Prop :=
  ∀ s goal, (r.run s goal).isSome ↔
    ∃ u ∈ language, ∃ rest, s.after = u ++ rest ∧ (goal (s.past u rest)).isSome

/-- The texts of one or more characters, all of a kind. -/
def oneOrMore (p : Char → Bool) : Language Char := {u | u ≠ [] ∧ ∀ c ∈ u, p c = true}

theorem mem_oneOrMore {p : Char → Bool} {u : List Char} :
    u ∈ oneOrMore p ↔ u ≠ [] ∧ ∀ c ∈ u, p c = true := Iff.rfl

theorem Spot.past_past (s : Spot) (u v rest rest' : List Char) :
    (s.past u rest).past v rest' = s.past (u ++ v) rest' := by
  simp [Spot.past]

theorem accepts_empty : Accepts .empty 1 := by
  intro s goal
  show (goal s).isSome ↔ _
  simp [Language.mem_one, Spot.past]

theorem accepts_seq {a b : Regex} {L M : Language Char} (ha : Accepts a L) (hb : Accepts b M) :
    Accepts (.seq a b) (L * M) := by
  intro s goal
  refine (ha s fun t => run b t goal).trans ⟨?_, ?_⟩
  · rintro ⟨u, hu, rest, hs, hgoal⟩
    obtain ⟨v, hv, rest', hrest, hgoal⟩ := (hb _ goal).mp hgoal
    refine ⟨u ++ v, Language.append_mem_mul hu hv, rest', ?_,
      Spot.past_past s u v rest rest' ▸ hgoal⟩
    rw [hs, List.append_assoc]
    exact congrArg (u ++ ·) hrest
  · rintro ⟨w, hw, rest, hs, hgoal⟩
    obtain ⟨u, hu, v, hv, rfl⟩ := Language.mem_mul.mp hw
    refine ⟨u, hu, v ++ rest, by rw [hs, List.append_assoc], (hb _ goal).mpr ⟨v, hv, rest, rfl, ?_⟩⟩
    rwa [Spot.past_past]

/-- A set passes one character of it. -/
theorem run_one_isSome {set : CharSet} {s : Spot} {goal : Goal} :
    (run (.one set) s goal).isSome ↔
      ∃ c cs, s.after = c :: cs ∧ set.has c = true ∧ (goal (s.past [c] cs)).isSome := by
  cases hs : s.after with
  | nil => simp [run, hs]
  | cons c cs => by_cases hc : set.has c = true <;> simp [run, hs, hc, Spot.past]

theorem accepts_char (c : Char) : Accepts (.one ⟨false, [.char c], .exact⟩) {[c]} := by
  have hhas : ∀ d, CharSet.has ⟨false, [.char c], .exact⟩ d = true ↔ d = c := fun d => by
    simp [CharSet.has, CharTest.holds, Folding.variants, eq_comm]
  intro s goal
  rw [run_one_isSome]
  constructor
  · rintro ⟨d, cs, hs, hd, hgoal⟩
    obtain rfl := (hhas d).mp hd
    exact ⟨[d], rfl, cs, hs, hgoal⟩
  · rintro ⟨_, rfl, rest, hs, hgoal⟩
    exact ⟨c, rest, hs, (hhas c).mpr rfl, hgoal⟩

/-- One round of a set and more of them, or the goal if there were enough. -/
theorem rounds_isSome_succ {set : CharSet} {goal : Goal} {fuel least : Nat} {last : Option Nat}
    {s : Spot} (hlast : last ≠ some s.after.length) :
    ∃ last', (last' = last ∨ last' = some s.after.length) ∧
      ((rounds (run (.one set)) false goal (fuel + 1) least none last s).isSome ↔
        (∃ c cs, s.after = c :: cs ∧ set.has c = true ∧
          (rounds (run (.one set)) false goal fuel (least - 1) none last' (s.past [c] cs)).isSome) ∨
        least = 0 ∧ (goal s).isSome) := by
  cases least with
  | zero =>
    refine ⟨some s.after.length, .inr rfl, ?_⟩
    simp [rounds, beq_false_of_ne hlast, run_one_isSome]
  | succ least =>
    refine ⟨last, .inl rfl, ?_⟩
    simp [rounds, run_one_isSome]

/-- What rounds of one character each pass: at least so many characters, all of the set. Every round
makes headway, so none is begun where the one before it was. -/
theorem rounds_isSome {set : CharSet} {goal : Goal} {fuel least : Nat} {last : Option Nat}
    {s : Spot} (hfuel : s.after.length < fuel) (hlast : ∀ n ∈ last, s.after.length < n) :
    (rounds (run (.one set)) false goal fuel least none last s).isSome ↔
      ∃ u rest, s.after = u ++ rest ∧ least ≤ u.length ∧ (∀ c ∈ u, set.has c = true) ∧
        (goal (s.past u rest)).isSome := by
  induction fuel generalizing least last s with
  | zero => omega
  | succ fuel ih =>
    obtain ⟨last', hlast', hround⟩ := @rounds_isSome_succ set goal fuel least last s fun h =>
      absurd (hlast _ h) (lt_irrefl _)
    have hnext : ∀ c cs, s.after = c :: cs → ∀ n ∈ last', cs.length < n := by
      intro c cs hs n hn
      rw [hs, List.length_cons] at hlast hlast'
      rcases hlast' with rfl | rfl
      · exact (Nat.lt_succ_self _).trans (hlast n hn)
      · cases hn
        exact Nat.lt_succ_self _
    rw [hround]
    constructor
    · rintro (⟨c, cs, hs, hc, hmore⟩ | ⟨rfl, hgoal⟩)
      · obtain ⟨u, rest, hu, hleast, hall, hgoal⟩ :=
          (ih (by rw [hs, List.length_cons] at hfuel; exact Nat.lt_of_succ_lt_succ hfuel)
            (hnext c cs hs)).mp hmore
        refine ⟨c :: u, rest, hs.trans (congrArg (c :: ·) hu), Nat.le_add_of_sub_le hleast,
          List.forall_mem_cons.mpr ⟨hc, hall⟩, ?_⟩
        rwa [Spot.past_past] at hgoal
      · exact ⟨[], s.after, rfl, Nat.le_refl 0, by simp, hgoal⟩
    · rintro ⟨_ | ⟨c, u⟩, rest, hs, hleast, hall, hgoal⟩
      · obtain rfl : s.after = rest := hs
        exact .inr ⟨Nat.le_zero.mp hleast, hgoal⟩
      · obtain ⟨hc, hall⟩ := List.forall_mem_cons.mp hall
        rw [List.cons_append] at hs
        refine .inl ⟨c, u ++ rest, hs, hc, (ih ?_ (hnext c _ hs)).mpr
          ⟨u, rest, rfl, Nat.sub_le_of_le_add hleast, hall, ?_⟩⟩
        · rw [hs, List.length_cons] at hfuel
          exact Nat.lt_of_succ_lt_succ hfuel
        · rwa [Spot.past_past]

/-- A set with a plus passes one character of it or more. -/
theorem accepts_oneOrMore (set : CharSet) :
    Accepts (.times 1 none false (.one set)) (oneOrMore set.has) := by
  intro s goal
  show (rounds (run (.one set)) false goal (1 + s.after.length + 2) 1 none none s).isSome ↔ _
  rw [rounds_isSome (by omega) (by simp)]
  constructor
  · rintro ⟨u, rest, hs, hleast, hall, hgoal⟩
    exact ⟨u, mem_oneOrMore.mpr ⟨List.length_pos_iff.mp hleast, hall⟩, rest, hs, hgoal⟩
  · rintro ⟨u, hu, rest, hs, hgoal⟩
    obtain ⟨hne, hall⟩ := mem_oneOrMore.mp hu
    exact ⟨u, rest, hs, List.length_pos_iff.mpr hne, hall, hgoal⟩

theorem Accepts.matchesAll_iff {r : Regex} {L : Language Char} (h : Accepts r L) (s : String) :
    r.matchesAll s = true ↔ s.toList ∈ L := by
  rw [matchesAll, h]
  constructor
  · rintro ⟨u, hu, rest, hs, hend⟩
    have hrest : rest = [] := by
      by_contra hne
      simp [Spot.past, hne] at hend
    rw [hrest, List.append_nil] at hs
    exact (show s.toList = u from hs) ▸ hu
  · exact fun hs => ⟨s.toList, hs, [], (List.append_nil _).symm, rfl⟩

/-- Items in order pass a text of each of their languages in order. -/
theorem accepts_joined {α : Type} {regex : α → Regex} {language : α → Language Char}
    (h : ∀ a, Accepts (regex a) (language a)) (as : List α) :
    Accepts (Read.joined (as.map regex).reverse) (as.map language).prod := by
  have hfold : ∀ (as : List α) (r : Regex) (L : Language Char), Accepts r L →
      Accepts ((as.map regex).reverse.foldl (fun acc r => .seq r acc) r)
        ((as.map language).prod * L) := by
    intro as
    induction as with
    | nil => simp
    | cons a as ih =>
      intro r L hr
      simpa [List.foldl_append, mul_assoc] using accepts_seq (h a) (ih r L hr)
  rcases List.eq_nil_or_concat as with rfl | ⟨as, a, rfl⟩
  · exact accepts_empty
  · simpa [Read.joined] using hfold as _ _ (h a)

/-! ## What is read -/

namespace Read

/-- The characters that are more than themselves wherever they stand. -/
def isSign (c : Char) : Bool := ['\\', '.', '^', '$', '*', '+', '?', '[', '(', ')', '|'].contains c

variable (fuel : Nat) (items : List Regex) (r : Reading) (cs : List Char) (set : CharSet)

theorem accept_other {c : Char} (hnext : cs.head? ≠ some c) :
    (accept c).run.run { r with rest := cs } = (.ok false, { r with rest := cs }) := by
  simp only [accept, run_bind, peek, run_get, run_pure, beq_iff_eq, hnext, if_false]

theorem accept_next (c : Char) :
    (accept c).run.run { r with rest := c :: cs } = (.ok true, { r with rest := cs }) := by
  simp only [accept, run_bind, peek, run_get, run_pure, List.head?_cons, beq_self_eq_true, if_true,
    skip, run_modify, List.drop_succ_cons, List.drop_zero]

/-- Whether what stands after an opening brace makes it the start of a count. -/
def opensCount (cs : List Char) : Bool :=
  let rest := cs.dropWhile Char.isDigit
  cs.head? != some '\x7d' &&
    (if rest.head? = some ',' then (rest.drop 1).dropWhile Char.isDigit else rest).head? ==
    some '\x7d'

theorem run_takeWhile {n : Nat} (hn : cs.length ≤ n) (p : Char → Bool) :
    (takeWhile n p).run.run { r with rest := cs } =
      (.ok (cs.takeWhile p), { r with rest := cs.dropWhile p }) := by
  have hdrop := @List.drop_left _ (cs.takeWhile p) (cs.dropWhile p)
  rw [List.takeWhile_append_dropWhile] at hdrop
  simp only [takeWhile, run_bind, run_get, run_set, run_pure, List.take_of_length_le hn, hdrop]

theorem count_none (h : opensCount cs = false) :
    count.run.run { r with rest := cs } = (.ok none, { r with rest := cs }) := by
  unfold count
  rw [run_bind, run_get]
  dsimp only
  split
  · rfl
  next hfirst =>
    simp only [opensCount, bne_iff_ne.mpr hfirst, Bool.true_and, beq_eq_false_iff_ne] at h
    rw [run_bind, run_takeWhile r cs (Nat.le_refl _)]
    by_cases hcomma : (cs.dropWhile Char.isDigit).head? = some ','
    · obtain ⟨rest, hrest⟩ := List.head?_eq_some_iff.mp hcomma
      have hlength : rest.length ≤ cs.length := by
        have := (List.dropWhile_suffix Char.isDigit (l := cs)).length_le
        simp only [hrest, List.length_cons] at this
        omega
      rw [if_pos hcomma, hrest, List.drop_one, List.tail_cons] at h
      simp only [hrest, run_bind, accept_next, if_true, run_takeWhile r rest hlength]
      rw [accept_other _ _ h]
      rfl
    · rw [if_neg hcomma] at h
      simp only [run_bind, accept_other r _ hcomma, Bool.false_eq_true, if_false, run_pure]
      rw [accept_other _ _ h]
      rfl

/-- A plus after a set repeats it, unless a sign follows that says how. -/
theorem sequence_plus (hlazy : cs.head? ≠ some '?') (hatomic : cs.head? ≠ some '+') :
    (sequence (fuel + 1) {} (.one set :: items)).run.run { r with rest := '+' :: cs } =
      (sequence fuel {} (.times 1 none false (.one set) :: items)).run.run
        { r with rest := cs } := by
  show ((repeatLast {} 1 none (.one set :: items)) >>= sequence fuel {}).run.run
    { r with rest := cs } = _
  simp only [repeatLast, run_bind, accept_other r cs hlazy, accept_other r cs hatomic, run_pure,
    Bool.false_eq_true, if_false]

theorem sign_eq {c : Char} (hc : isSign c = false) : sign {} c = single {} false [.char c] := by
  unfold sign
  split
  all_goals first | exact absurd hc (by decide) | rfl

/-- A character that is no sign stands for itself, and so does a brace that opens no count. -/
theorem sequence_letter {c : Char} (hc : isSign c = false)
    (hbrace : c = '\x7b' → opensCount cs = false) :
    (sequence (fuel + 1) {} items).run.run { r with rest := c :: cs } =
      (sequence fuel {} (single {} false [.char c] :: items)).run.run { r with rest := cs } := by
  have hstop : ¬(decide (c = '|') || decide (c = ')')) = true := by
    rw [Bool.or_eq_true, decide_eq_true_iff, decide_eq_true_iff]
    rintro (rfl | rfl) <;> exact absurd hc (by decide)
  rw [sequence]
  simp only [run_bind, peek, skip, run_get, run_pure, List.head?_cons, if_neg hstop, run_modify,
    List.drop_succ_cons, List.drop_zero, isPassed, Bool.false_and, Bool.false_eq_true, if_false]
  split
  all_goals try exact absurd hc (by decide)
  · simp only [run_bind, count_none r cs (hbrace rfl), sign_eq hc]
  · rw [sign_eq hc]

/-- A text that does not start with a parenthesis has no flags. -/
theorem leading_plain (h : cs.head? ≠ some '(') :
    (leading (fuel + 1) []).run.run { r with rest := cs } = (.ok [], { r with rest := cs }) := by
  rw [leading, run_bind, run_get]
  cases cs with
  | nil => rfl
  | cons c cs =>
    dsimp only
    split
    case h_1 hrest | h_2 hrest =>
      cases hrest
      exact absurd rfl h
    case h_3 hrest =>
      cases hrest
      rfl
    case h_4 hrest => cases hrest

end Read

end Coupling.Regex
