import Mathlib.Data.List.Basic
import Coupling.Regex.Reader
import Coupling.Words.Camel

/-!
# Words end at case boundaries

Where the case of letters changes is a matter of at most three characters (`caseBoundary`). A text
on one line is cut at these places and at no others: one word ends at the first of them, and then
the rest is cut in the same way. The words are those that a pattern matches one after the other
(`run_wordPattern`).
-/

namespace Coupling.Words

/-- Whether the case changes before the character of a number: a small letter meets a capital, or
the last capital of several begins a word in small letters. -/
def caseBoundary (cs : List Char) (i : Nat) : Bool :=
  (cs[i - 1]?.any isSmall && cs[i]?.any isCapital) ||
    (cs[i - 1]?.any isCapital && cs[i]?.any isCapital && cs[i + 1]?.any isSmall)

theorem caseBoundary_append (w cs : List Char) {i : Nat} (h : 0 < i) :
    caseBoundary (w ++ cs) (w.length + i) = caseBoundary cs i := by
  have hat : ∀ j, (w ++ cs)[w.length + j]? = cs[j]? := fun j => by
    rw [List.getElem?_append_right (Nat.le_add_right ..), Nat.add_sub_cancel_left]
  rw [caseBoundary, caseBoundary, Nat.add_sub_assoc h, Nat.add_assoc, hat, hat, hat]

/-- On one line a word ends between two characters where the case changes. -/
theorem endsBetween_cons (c : Char) {d : Char} (rest : List Char) (hd : d ≠ '\n') :
    endsBetween c (d :: rest) = caseBoundary (c :: d :: rest) 1 := by
  simp [endsBetween, caseBoundary, beq_false_of_ne hd, List.head?_eq_getElem?]

/-- The first word of a text on one line is a beginning of it, with no boundary inside and one at
its end. -/
theorem firstWord_spec {cs : List Char} (hline : '\n' ∉ cs) (hne : cs ≠ []) :
    ∃ w after, firstWord cs = some (w, after) ∧ cs = w ++ after ∧ w ≠ [] ∧
      (∀ i, 0 < i → i < w.length → caseBoundary cs i = false) ∧
      (after ≠ [] → caseBoundary cs w.length = true) := by
  induction cs with
  | nil => exact absurd rfl hne
  | cons c rest ih =>
    have hc : c ≠ '\n' := fun h => hline (h ▸ List.mem_cons_self)
    rw [firstWord, if_neg hc]
    cases rest with
    | nil => exact ⟨[c], [], rfl, rfl, List.cons_ne_nil c [], fun i h0 h1 =>
      absurd h0 (by simpa using h1), by simp⟩
    | cons d rest =>
      have hline' : '\n' ∉ d :: rest := fun h => hline (List.mem_cons_of_mem c h)
      rw [endsBetween_cons c rest fun h => hline' (h ▸ List.mem_cons_self)]
      by_cases hends : caseBoundary (c :: d :: rest) 1 = true
      · exact ⟨[c], d :: rest, if_pos hends, rfl, List.cons_ne_nil c [], fun i h0 h1 =>
          absurd h0 (by simpa using h1), fun _ => hends⟩
      · obtain ⟨w, after, hword, hcs, hw, hinside, hend⟩ := ih hline' (List.cons_ne_nil d rest)
        have hnext : ∀ {i}, 0 < i → caseBoundary (c :: d :: rest) (i + 1) =
            caseBoundary (d :: rest) i := fun {i} hi => by
          rw [Nat.add_comm]
          exact caseBoundary_append [c] (d :: rest) hi
        refine ⟨c :: w, after, by rw [if_neg hends, hword]; rfl, by rw [hcs]; rfl,
          List.cons_ne_nil c w, ?_, ?_⟩
        · rintro (_ | _ | i) h0 h1
          · cases h0
          · exact Bool.eq_false_iff.mpr hends
          · rw [hnext (Nat.succ_pos i), hinside _ (Nat.succ_pos i) (Nat.lt_of_succ_lt_succ h1)]
        · intro hafter
          rw [List.length_cons, hnext (List.length_pos_iff.mpr hw), hend hafter]

/-- The places inside a text where one of the segments that it is made of ends. -/
def EndsAt (segments : List (List Char)) (i : Nat) : Prop :=
  ∃ k, (segments.take k).flatten.length = i

theorem endsAt_cons {w : List Char} {segments : List (List Char)} {i : Nat} (hi : 0 < i) :
    EndsAt (w :: segments) i ↔ ∃ j, i = w.length + j ∧ EndsAt segments j := by
  constructor
  · rintro ⟨_ | k, hk⟩
    · simp only [List.take_zero, List.flatten_nil, List.length_nil] at hk
      omega
    · exact ⟨_, by rw [← hk, List.take_succ_cons, List.flatten_cons, List.length_append], k, rfl⟩
  · rintro ⟨j, rfl, k, rfl⟩
    exact ⟨k + 1, by rw [List.take_succ_cons, List.flatten_cons, List.length_append]⟩

/-- What a text on one line is cut into: nothing is lost, nothing is empty, and segments end at the
boundaries. The induction follows the cuts, and a boundary of the rest is one of the whole text. -/
theorem cut_spec (cs : List Char) (hline : '\n' ∉ cs) :
    (cut cs).flatten = cs ∧ (∀ w ∈ cut cs, w ≠ []) ∧
      ∀ i, 0 < i → i < cs.length → (EndsAt (cut cs) i ↔ caseBoundary cs i = true) := by
  induction hn : cs.length using Nat.strongRecOn generalizing cs with
  | ind n ih =>
    by_cases hne : cs = []
    · subst hne
      simp only [List.length_nil] at hn
      have hcut : cut [] = [] := by rw [cut.eq_def]; rfl
      exact ⟨by rw [hcut]; rfl, by simp [hcut], fun i _ hi => by omega⟩
    · obtain ⟨w, after, hword, rfl, hw, hinside, hend⟩ := firstWord_spec hline hne
      have hcut : cut (w ++ after) = w :: cut after := by
        rw [cut.eq_def]
        split
        · next hsome => rw [hword] at hsome; cases hsome; rfl
        · next hnone => rw [hword] at hnone; cases hnone
      have hpos : 0 < w.length := List.length_pos_iff.mpr hw
      rw [List.length_append] at hn
      obtain ⟨hflat, hnonempty, hcuts⟩ := ih after.length (by omega) after
        (fun h => hline (List.mem_append_right w h)) rfl
      rw [hcut]
      refine ⟨by rw [List.flatten_cons, hflat], List.forall_mem_cons.mpr ⟨hw, hnonempty⟩,
        fun i h0 hi => ?_⟩
      rw [endsAt_cons h0]
      rcases Nat.lt_trichotomy i w.length with hlt | rfl | hgt
      · rw [hinside i h0 hlt]
        constructor
        · rintro ⟨j, hj, -⟩
          omega
        · exact fun h => absurd h Bool.false_ne_true
      · have hafter : after ≠ [] := fun h => by simp only [h, List.length_nil] at hn; omega
        exact ⟨fun _ => hend hafter, fun _ => ⟨0, rfl, 0, rfl⟩⟩
      · obtain ⟨j, rfl⟩ := Nat.exists_eq_add_of_lt hgt
        rw [Nat.add_assoc, caseBoundary_append w after (Nat.succ_pos j),
          ← hcuts (j + 1) (Nat.succ_pos j) (by omega)]
        constructor
        · rintro ⟨j', hj, h⟩
          obtain rfl : j + 1 = j' := by omega
          exact h
        · exact fun h => ⟨j + 1, rfl, h⟩

/-- **Identifiers are cut exactly at case boundaries.** The words of a text on one line are its
consecutive non-empty segments in lower case. They make up the text, and inside the text one ends
just where the case changes. -/
theorem ofIdentifier_cuts_at_boundaries (s : String) (hline : '\n' ∉ s.toList) :
    ∃ segments : List (List Char),
      ofIdentifier s = segments.map (fun w => Text.lower (String.ofList w)) ∧
      segments.flatten = s.toList ∧ (∀ w ∈ segments, w ≠ []) ∧
      ∀ i, 0 < i → i < s.toList.length → (EndsAt segments i ↔ caseBoundary s.toList i = true) :=
  ⟨cut s.toList, rfl, cut_spec s.toList hline⟩

/-- An acronym, a digit and single capitals: the cuts are before `H`, before `R` and before `B`. -/
theorem acronym_cut :
    '\n' ∉ "xmlHTTPRequest2ABc_D".toList ∧
      ∃ segments : List (List Char), ofIdentifier "xmlHTTPRequest2ABc_D" =
          segments.map (fun w => Text.lower (String.ofList w)) ∧
        segments.flatten = "xmlHTTPRequest2ABc_D".toList ∧ (∀ w ∈ segments, w ≠ []) ∧
        ∀ i, 0 < i → i < 20 → (EndsAt segments i ↔ i = 3 ∨ i = 7 ∨ i = 16) := by
  have hline : '\n' ∉ "xmlHTTPRequest2ABc_D".toList := by decide
  have hat : ∀ i < 20, 0 < i →
      (caseBoundary "xmlHTTPRequest2ABc_D".toList i = true ↔ i = 3 ∨ i = 7 ∨ i = 16) := by decide
  obtain ⟨segments, hwords, hflat, hne, hcuts⟩ :=
    ofIdentifier_cuts_at_boundaries "xmlHTTPRequest2ABc_D" hline
  refine ⟨hline, segments, hwords, hflat, hne, fun i h0 hi => (hcuts i h0 hi).trans (hat i hi h0)⟩

/-! ## The pattern of a word -/

open Regex (Spot Goal run rounds)

/-- The pattern that a word is cut by. -/
def wordPattern : String := ".+?(?:(?<=[a-z])(?=[A-Z])|(?<=[A-Z])(?=[A-Z][a-z])|$)"

/-- Any character but a line feed. -/
def onLine : CharSet := ⟨true, [.char '\n'], .exact⟩

def smallSet : CharSet := ⟨false, [.range 'a' 'z'], .exact⟩

def capitalSet : CharSet := ⟨false, [.range 'A' 'Z'], .exact⟩

/-- The end of a word, without extent. -/
def border : Regex :=
  .either (.seq (.behind false 1 (.one smallSet)) (.ahead false (.one capitalSet)))
    (.either
      (.seq (.behind false 1 (.one capitalSet))
        (.ahead false (.seq (.one capitalSet) (.one smallSet))))
      (.anchor .lastLineEnd))

theorem has_onLine (c : Char) : onLine.has c = true ↔ '\n' ≠ c := by
  simp [onLine, CharSet.has, CharTest.holds, Folding.variants]

theorem has_smallSet (c : Char) : smallSet.has c = isSmall c := by
  simp [smallSet, CharSet.has, CharTest.holds, Folding.variants, isSmall]

theorem has_capitalSet (c : Char) : capitalSet.has c = isCapital c := by
  simp [capitalSet, CharSet.has, CharTest.holds, Folding.variants, isCapital]

/-- After a character there is a border just where a word ends. -/
theorem run_border (c : Char) (before rest : List Char) :
    run (.group none border) ⟨c :: before, rest, []⟩ some =
      if endsBetween c rest then some ⟨c :: before, rest, []⟩ else none := by
  rcases rest with _ | ⟨d, _ | ⟨e, rest⟩⟩
  · cases hs : isSmall c <;> cases hc : isCapital c <;>
      simp [run, border, Spot.back?, Spot.isAt, Spot.close, endsBetween, has_smallSet,
        has_capitalSet, hs, hc]
  · cases hs : isSmall c <;> cases hc : isCapital c <;> cases hd : isCapital d <;>
      simp [run, border, Spot.back?, Spot.isAt, Spot.close, endsBetween, has_smallSet,
        has_capitalSet, hs, hc, hd]
  · cases hs : isSmall c <;> cases hc : isCapital c <;> cases hd : isCapital d <;>
      cases he : isSmall e <;>
      simp [run, border, Spot.back?, Spot.isAt, Spot.close, endsBetween, has_smallSet,
        has_capitalSet, hs, hc, hd, he]

/-- One more character, and then as few as it takes to come to a border. -/
theorem run_onLine {goal : Goal} {last : Option Nat} {fuel : Nat} (before rest : List Char)
    (hfuel : rest.length ≤ fuel) (hlast : ∀ n ∈ last, rest.length ≤ n)
    (hgoal : ∀ c before rest, goal ⟨c :: before, rest, []⟩ =
      if endsBetween c rest then some ⟨c :: before, rest, []⟩ else none) :
    run (.one onLine) ⟨before, rest, []⟩ (rounds (run (.one onLine)) true goal fuel 0 none last) =
      (firstWord rest).map fun (w, after) => ⟨w.reverse ++ before, after, []⟩ := by
  induction rest generalizing before fuel last with
  | nil => rfl
  | cons c rest ih =>
    obtain ⟨fuel, rfl⟩ := Nat.exists_eq_add_of_le' (Nat.le_trans (Nat.succ_pos _) hfuel)
    by_cases hc : '\n' = c
    · have hnot : ¬onLine.has c = true := fun h => (has_onLine c).mp h hc
      simp only [run, firstWord, if_pos hc.symm, if_neg hnot, Option.map_none]
    · have hbegun : last ≠ some rest.length := fun h => absurd (hlast _ h) (Nat.not_succ_le_self _)
      have hnext : run (.one onLine) ⟨c :: before, rest, []⟩
          (rounds (run (.one onLine)) true goal fuel 0 none (some rest.length)) = _ :=
        ih (c :: before) (Nat.le_of_succ_le_succ hfuel) (by simp)
      have hone : run (.one onLine) ⟨before, c :: rest, []⟩
          (rounds (run (.one onLine)) true goal (fuel + 1) 0 none last) =
          (goal ⟨c :: before, rest, []⟩).or (run (.one onLine) ⟨c :: before, rest, []⟩
            (rounds (run (.one onLine)) true goal fuel 0 none (some rest.length))) := by
        simp [run, (has_onLine c).mpr hc, rounds, beq_false_of_ne hbegun]
      rw [hone, hnext, hgoal, firstWord, if_neg (Ne.symm hc)]
      cases endsBetween c rest <;> cases firstWord rest <;> simp

/-- **A word is what its pattern matches.** From any place on, the first match of the pattern is the
first word. -/
theorem run_wordPattern : ∃ r, Regex.ofText wordPattern = .ok r ∧ ∀ before cs,
    r.run ⟨before, cs, []⟩ some =
      (firstWord cs).map fun (w, after) => ⟨w.reverse ++ before, after, []⟩ := by
  refine ⟨.seq (.times 1 none true (.one onLine)) (.group none border), rfl, fun before cs => ?_⟩
  exact run_onLine before cs (by simp; omega) (by simp) run_border

end Coupling.Words
