import Coupling.Proofs.Rereading

/-!
# The names in a type text

A type text falls into delimiters and maximal runs of other characters (`Segmented`), which are its
names. Cutting it at every delimiter gives these segments in order, and empty names where delimiters
meet or stand at an end. A table that has no empty key and no delimiter as a key leaves everything
but the names as it is.
-/

namespace Coupling.Project

open Java (ParseTree)

/-- Whether a segment is a name: it has no delimiter. -/
def isRun (w : List Char) : Bool := w.all fun c => !isDelimiter c

/-- A text as delimiters and maximal runs: after a run the text ends or a delimiter follows. -/
inductive Segmented : List Char → List (List Char) → Prop
  | nil : Segmented [] []
  | delimiter {c : Char} {cs : List Char} {segments : List (List Char)} :
      isDelimiter c = true → Segmented cs segments → Segmented (c :: cs) ([c] :: segments)
  | run {w cs : List Char} {segments : List (List Char)} :
      w ≠ [] → isRun w = true → (∀ c ∈ cs.head?, isDelimiter c = true) → Segmented cs segments →
      Segmented (w ++ cs) (w :: segments)

/-- A table that stands for names only: neither the empty text nor a delimiter is a key. -/
structure NamesOnly (full : Table String) : Prop where
  empty : full.get? "" = none
  delimiter : ∀ c, isDelimiter c = true → full.get? c.toString = none

/-- A segment with its name replaced by what it stands for. -/
def replaced (full : Table String) (w : List Char) : String :=
  if isRun w then expand full (String.ofList w) else String.ofList w

variable {full full' : Table String} {cs : List Char} {segments : List (List Char)}

theorem exists_segmented (cs : List Char) : ∃ segments, Segmented cs segments := by
  induction cs with
  | nil => exact ⟨[], .nil⟩
  | cons c cs ih =>
    obtain ⟨segments, h⟩ := ih
    cases hc : isDelimiter c with
    | true => exact ⟨_, .delimiter hc h⟩
    | false =>
      have hrun : isRun [c] = true := by simp [isRun, hc]
      -- A character that is no delimiter makes the run after it longer, or is a run of its own.
      cases h with
      | nil => exact ⟨_, .run (List.cons_ne_nil c []) hrun (by simp) .nil⟩
      | delimiter hd h => exact ⟨_, .run (List.cons_ne_nil c []) hrun (by simpa using hd)
        (.delimiter hd h)⟩
      | run hne hw hnext h =>
        exact ⟨_, .run (w := c :: _) (List.cons_ne_nil c _) (by simpa [isRun, hc] using hw) hnext h⟩

/-- A run before a delimiter or an end is the first name. -/
theorem ofChars_run {w : List Char} (hw : isRun w = true)
    (hnext : ∀ c ∈ cs.head?, isDelimiter c = true) :
    (TypeText.ofChars cs).first = [] ∧ TypeText.ofChars (w ++ cs) =
      ⟨w, (TypeText.ofChars cs).rest⟩ := by
  have hfirst : (TypeText.ofChars cs).first = [] := by
    cases cs with
    | nil => rfl
    | cons c cs => rw [TypeText.ofChars, TypeText.cons, if_pos (hnext c rfl)]
  refine ⟨hfirst, ?_⟩
  induction w with
  | nil => rw [List.nil_append, ← hfirst]
  | cons c w ih =>
    obtain ⟨hc, hw⟩ := List.forall_mem_cons.mp (List.all_eq_true.mp hw)
    rw [List.cons_append, TypeText.ofChars, ih (List.all_eq_true.mpr hw), TypeText.cons,
      if_neg (by simpa using hc)]

namespace NamesOnly

variable (h : NamesOnly full)
include h

theorem expand_empty : expand full "" = "" := by rw [expand, Table.getD, h.empty]; rfl

theorem join_pieces (hcs : Segmented cs segments) :
    String.join ((TypeText.ofChars cs).pieces.map (expand full)) =
      String.join (segments.map (replaced full)) := by
  induction hcs with
  | nil => simp [TypeText.ofChars, TypeText.pieces, h.expand_empty]
  | @delimiter c cs segments hc _ ih =>
    have hkept : expand full c.toString = replaced full [c] := by
      rw [expand, Table.getD, h.delimiter c hc]
      simp [replaced, isRun, hc]
    rw [TypeText.ofChars, TypeText.cons, if_pos hc, List.map_cons, String.join_cons, ← ih, ← hkept]
    simp [TypeText.pieces, h.expand_empty]
  | @run w cs segments hne hw hnext _ ih =>
    obtain ⟨hfirst, hrest⟩ := ofChars_run hw hnext
    rw [List.map_cons, String.join_cons, ← ih, hrest]
    simp [TypeText.pieces, hfirst, h.expand_empty, replaced, hw]

theorem names_filter (hcs : Segmented cs segments) :
    ((TypeText.ofChars cs).names.map (expand full)).filter (fun n => !n.isEmpty) =
      ((segments.filter isRun).map (replaced full)).filter fun n => !n.isEmpty := by
  induction hcs with
  | nil => simp [TypeText.ofChars, TypeText.names, h.expand_empty]
  | @delimiter c cs segments hc _ ih =>
    have hdelimiter : isRun [c] = false := by simp [isRun, hc]
    rw [TypeText.ofChars, TypeText.cons, if_pos hc, List.filter_cons_of_neg (by simp [hdelimiter]),
      ← ih]
    simp [TypeText.names, h.expand_empty]
  | @run w cs segments hne hw hnext _ ih =>
    obtain ⟨hfirst, hrest⟩ := ofChars_run hw hnext
    rw [List.filter_cons_of_pos hw, List.map_cons, List.filter_cons, ← ih, hrest]
    simp [TypeText.names, hfirst, h.expand_empty, replaced, hw, List.filter_cons]

/-- Two tables replace the names of a type alike if they agree on them. -/
theorem resolve_eq (h' : NamesOnly full') {type : String} (hcs : Segmented type.toList segments)
    (hagree : ∀ w ∈ segments, isRun w = true →
      expand full' (String.ofList w) = expand full (String.ofList w)) :
    resolve full' type = resolve full type := by
  rw [resolve, resolve, TypeText.ofText, h.join_pieces hcs, h'.join_pieces hcs]
  congr 1
  refine List.map_congr_left fun w hw => ?_
  unfold replaced
  split
  · next hrun => exact hagree w hw hrun
  · rfl

end NamesOnly

/-- **Names are replaced in place.** A type text falls into delimiters and maximal runs of other
characters. In its resolved form each run is replaced by what it stands for and each delimiter is
kept, and it mentions the replaced runs in order, less those that stand for nothing. So two tables
that agree on the runs of a type resolve it alike, and if they agree on the types of a method's
parameters, it has the same signature under both. -/
theorem names_replaced_in_place (full full' : Table String) (hfull : NamesOnly full)
    (hfull' : NamesOnly full') :
    (∀ type : String, (∃ segments, Segmented type.toList segments) ∧ ∀ segments,
      Segmented type.toList segments →
      resolve full type = String.join (segments.map (replaced full)) ∧
      mentions full type = ((segments.filter isRun).map (replaced full)).filter (fun n =>
        !n.isEmpty) ∧
      ((∀ w ∈ segments, isRun w = true → expand full' (String.ofList w) =
        expand full (String.ofList w)) →
        resolve full' type = resolve full type)) ∧
    ∀ method name types, signatureParts method = .ok (name, types) →
      (∀ type ∈ types.getD [], ∀ segments, Segmented type.toList segments → ∀ w ∈ segments,
        isRun w = true →
        expand full' (String.ofList w) = expand full (String.ofList w)) →
      signatureOf full' method = signatureOf full method := by
  refine ⟨fun type => ⟨exists_segmented _, fun segments hsegments => ⟨hfull.join_pieces hsegments,
    hfull.names_filter hsegments, hfull.resolve_eq hfull' hsegments⟩⟩,
    fun method name types hparts hagree => ?_⟩
  rw [signatureOf_eq, signatureOf_eq, hparts]
  refine congrArg Except.ok (signed_congr fun type htype => ?_)
  obtain ⟨segments, hsegments⟩ := exists_segmented type.toList
  exact hfull.resolve_eq hfull' hsegments (hagree type htype segments hsegments)

/-- An array of a type with an argument that stands for nothing; what only looks like a key is not
replaced. -/
theorem array_type_replaced :
    let full : Table String := ⟨[("Map", "java.util.Map"), ("K", ""), ("Map<K", "p.Map")]⟩
    NamesOnly full ∧ resolve full "Map<K[]>" = "java.util.Map<[]>" ∧
      mentions full "Map<K[]>" = ["java.util.Map"] := by
  intro full
  have hfull : NamesOnly full := ⟨rfl, fun c hc => by
    simp only [isDelimiter, Bool.or_eq_true, beq_iff_eq, or_assoc] at hc
    rcases hc with rfl | rfl | rfl | rfl | rfl | rfl <;> decide⟩
  have hsegments : Segmented "Map<K[]>".toList [['M', 'a', 'p'], ['<'], ['K'], ['['],
      [']'], ['>']] :=
    .run (w := ['M', 'a', 'p']) (by simp) rfl (by rintro _ ⟨⟩; rfl) <| .delimiter rfl <|
      .run (w := ['K']) (by simp) rfl (by rintro _ ⟨⟩; rfl) <| .delimiter rfl <| .delimiter rfl <|
      .delimiter rfl .nil
  obtain ⟨hresolve, hmentions, -⟩ :=
    ((names_replaced_in_place full full hfull hfull).1 "Map<K[]>").2 _ hsegments
  exact ⟨hfull, hresolve.trans (by decide), hmentions.trans (by decide)⟩

end Coupling.Project
