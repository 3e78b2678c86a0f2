import Coupling.Text.Lowercase

/-!
# Words of an identifier

An identifier is cut where a small letter meets a capital and before the last capital of a run that
goes on in small letters. A word lies on one line: what stands on a line before a line break is cut
in the same way, but the rest of it after the last cut belongs to no word unless the break ends the
text.
-/

namespace Coupling.Words

def isSmall (c : Char) : Bool := 'a' ≤ c && c ≤ 'z'

def isCapital (c : Char) : Bool := 'A' ≤ c && c ≤ 'Z'

/-- Whether a word ends between a character and what follows it. -/
def endsBetween (c : Char) : List Char → Bool
  | [] => true
  | d :: rest =>
    (d == '\n' && rest.isEmpty) || (isSmall c && isCapital d) ||
      (isCapital c && isCapital d && rest.head?.any isSmall)

/-- The shortest word at the start of a text and what follows it. -/
def firstWord : List Char → Option (List Char × List Char)
  | [] => none
  | c :: rest =>
    if c = '\n' then none
    else if endsBetween c rest then some ([c], rest)
    else (firstWord rest).map fun (w, after) => (c :: w, after)

theorem firstWord_length {cs w after : List Char} (h : firstWord cs = some (w, after)) :
    after.length < cs.length := by
  induction cs generalizing w with
  | nil => simp [firstWord] at h
  | cons c rest ih =>
    simp only [firstWord] at h
    split at h
    · simp at h
    · split at h
      · simp_all
      · obtain ⟨⟨w', a⟩, hw, he⟩ := Option.map_eq_some_iff.1 h
        simp only [Prod.mk.injEq] at he
        have := ih (he.2 ▸ hw)
        simp only [List.length_cons]
        omega

/-- The words of a text from left to right. -/
def cut (cs : List Char) : List (List Char) :=
  match h : firstWord cs with
  | some (w, after) =>
    have := firstWord_length h
    w :: cut after
  | none =>
    match cs with
    | [] => []
    | _ :: rest => cut rest
termination_by cs.length

/-- The words of an identifier in lower case. -/
def ofIdentifier (s : String) : List String :=
  (cut s.toList).map fun w => Text.lower (String.ofList w)

end Coupling.Words
