import Mathlib.Data.List.Induction
import Coupling.Java.Parsing.Complaint
import Coupling.Proofs.LongestMatch

/-!
# Cutting a text into pieces

A text is cut at its head, again and again, until nothing is left: `Cuts` says so of the pieces, one
scan for each. Every piece has a place, which the characters before it determine. So the pieces
cover the text without a gap and without an overlap, and the place of each is where its first
character is.
-/

namespace Coupling.Java

open Coupling.Lexing

/-! ## Places -/

theorem Position.after_concat (p : Position) (cs : List Char) (c : Char) :
    p.after (cs ++ [c]) = (p.after cs).advance c := by simp [after]

/-- A place counts the characters before it, the line feeds among them, and the characters since the
last of these. -/
theorem Position.after_start (cs : List Char) : Position.start.after cs =
    ⟨cs.length, 1 + cs.count '\n', (cs.reverse.takeWhile (· ≠ '\n')).length⟩ := by
  induction cs using List.reverseRecOn with
  | nil => rfl
  | append_singleton cs c ih =>
    rw [Position.after_concat, ih, Position.advance, List.reverse_concat, List.takeWhile_cons,
      List.count_append]
    by_cases hc : c = '\n'
    · simp [hc, Nat.add_assoc]
    · simp [hc]

/-! ## Cutting a text -/

theorem allOpen_rules : Scan.AllOpen Lexicon.rules := by
  have hall : Lexicon.rules.all (fun r => r.pattern.isOpen) = true := by decide +kernel
  exact List.all_eq_true.mp hall

/-- What is left of a text after some of it is cut into pieces, each as long as the scan at its head
says. -/
inductive Cuts : List Char → List Char → List Piece → Prop
  | done {before : List Char} : Cuts before [] []
  | next {before w rest : List Char} {ps : List Piece} : w ≠ [] →
      (scan Lexicon.rules (w ++ rest)).length = w.length →
      Cuts (before ++ w) rest ps →
      Cuts before (w ++ rest) (pieceAt (Position.start.after before)
        (scan Lexicon.rules (w ++ rest)) w :: ps)

variable {cs before : List Char} {ps : List Piece} {p : Piece}

/-- A scan covers a beginning of the text, which is not empty unless the text is. -/
theorem exists_scanned (h : cs ≠ []) :
    ∃ w rest, cs = w ++ rest ∧ w ≠ [] ∧ (scan Lexicon.rules cs).length = w.length := by
  have hfinds := scan_finds allOpen_rules cs
  cases hscan : scan Lexicon.rules cs with
  | lexeme k n =>
    rw [hscan] at hfinds
    cases hfinds with
    | @lexeme w rest _ hw _ _ => exact ⟨w, rest, rfl, hw, rfl⟩
  | stuck n =>
    rw [hscan] at hfinds
    cases hfinds with
    | @stuck w rest hw _ =>
      refine ⟨w, rest, rfl, ?_, rfl⟩
      rintro rfl
      exact h (by rw [hw rfl]; rfl)

theorem piecesFrom_append {w rest : List Char} (p : Position) (hw : w ≠ [])
    (hlen : (scan Lexicon.rules (w ++ rest)).length = w.length) :
    piecesFrom p (w ++ rest) =
      pieceAt p (scan Lexicon.rules (w ++ rest)) w :: piecesFrom (p.after w) rest := by
  have hmax : max 1 w.length = w.length := Nat.max_eq_right (List.length_pos_iff.mpr hw)
  rw [piecesFrom.eq_def]
  split
  · next hnil => exact absurd (List.append_eq_nil_iff.mp hnil).1 hw
  · simp only [hlen, hmax, List.take_left', List.drop_left']

theorem cuts_piecesFrom (before cs : List Char) :
    Cuts before cs (piecesFrom (Position.start.after before) cs) := by
  induction hn : cs.length using Nat.strongRecOn generalizing before cs with
  | ind n ih =>
    by_cases hcs : cs = []
    · rw [hcs, piecesFrom]
      exact .done
    · obtain ⟨w, rest, rfl, hw, hlen⟩ := exists_scanned hcs
      rw [piecesFrom_append _ hw hlen]
      have hafter : (Position.start.after before).after w = Position.start.after (before ++ w) := by
        simp [Position.after]
      rw [hafter]
      refine .next hw hlen (ih rest.length ?_ (before ++ w) rest rfl)
      rw [← hn, List.length_append]
      exact Nat.lt_add_of_pos_left (List.length_pos_iff.mpr hw)

theorem cuts_pieces (text : String) : Cuts [] text.toList (pieces text) :=
  cuts_piecesFrom [] text.toList

/-- A piece stands in a text between what is before it and what is after it. -/
structure Piece.Stands (p : Piece) (cs before w rest : List Char) : Prop where
  text : cs = before ++ (w ++ rest)
  ne_nil : w ≠ []
  length : (scan Lexicon.rules (w ++ rest)).length = w.length
  piece : p = pieceAt (Position.start.after before) (scan Lexicon.rules (w ++ rest)) w

theorem Cuts.stands (h : Cuts before cs ps) (hp : p ∈ ps) :
    ∃ pre w rest, p.Stands (before ++ cs) pre w rest := by
  induction h with
  | done => cases hp
  | @next before w rest ps hw hlen _ ih =>
    rcases List.mem_cons.mp hp with rfl | hp
    · exact ⟨before, w, rest, rfl, hw, hlen, rfl⟩
    · obtain ⟨pre, v, rest', hstands⟩ := ih hp
      rw [List.append_assoc] at hstands
      exact ⟨pre, v, rest', hstands⟩

/-- How many characters a piece covers. -/
def Piece.length : Piece → Nat
  | .token t => t.length
  | .dropped s _ => s.length

/-- The places of the characters that a piece covers. -/
def Piece.positions (p : Piece) : List Nat := List.range' p.start.offset p.length

section PieceAt

variable (p : Position) (found : Scan Kind) (w : List Char)

theorem start_pieceAt : (pieceAt p found w).start = p := by cases found <;> rfl

theorem text_pieceAt : (pieceAt p found w).text = String.ofList w := by cases found <;> rfl

theorem length_pieceAt : (pieceAt p found w).length = w.length := by
  cases found with
  | lexeme k n => rfl
  | stuck n => exact String.length_ofList

end PieceAt

/-- The pieces cover what is left of a text, one place after the other. -/
theorem Cuts.positions_eq (h : Cuts before cs ps) :
    ps.flatMap Piece.positions = List.range' before.length cs.length := by
  induction h with
  | done => rfl
  | @next before w rest ps _ _ _ ih =>
    rw [List.flatMap_cons, ih, Piece.positions, start_pieceAt, length_pieceAt, Position.after_start,
      List.length_append, List.length_append]
    exact List.range'_append_1 ..

/-- What the lexer says about a stretch that it drops: its text, and where it is. -/
theorem ofPiece_of_dropped (h : p.token? = none) :
    Complaint.ofPiece? p = some ⟨p.start.line, p.start.column, .unreadable p.text⟩ := by
  cases p with
  | token t => cases h
  | dropped s start => rfl

/-- **Lexing loses nothing.** The tokens of a text but its end are those of its pieces, in order,
and the other pieces are what the lexer reports that it drops. Together the pieces cover every place
of the text once, in order. No piece is empty, its text is what the text has at its places, its line
counts the line feeds before it, and its column the characters since the last of these. -/
theorem pieces_partition (text : String) :
    (tokens text).dropLast = (pieces text).filterMap Piece.token? ∧
    (pieces text).flatMap Piece.positions = List.range text.length ∧
    ∀ p ∈ pieces text, p.positions ≠ [] ∧
      p.text.toList = (text.toList.drop p.start.offset).take p.length ∧
      p.start.line = 1 + (text.toList.take p.start.offset).count '\n' ∧
      p.start.column = ((text.toList.take p.start.offset).reverse.takeWhile (· ≠ '\n')).length ∧
      (p.token? = none → Complaint.ofPiece? p = some ⟨p.start.line, p.start.column,
        .unreadable p.text⟩) := by
  refine ⟨List.dropLast_concat .., ?_, fun p hp => ?_⟩
  · rw [(cuts_pieces text).positions_eq, List.range_eq_range', String.length_toList]
    rfl
  · obtain ⟨before, w, rest, hstands⟩ := (cuts_pieces text).stands hp
    rw [List.nil_append] at hstands
    have hstart : p.start = ⟨before.length, 1 + before.count '\n',
        (before.reverse.takeWhile (· ≠ '\n')).length⟩ := by
      rw [hstands.piece, start_pieceAt, Position.after_start]
    have hlength : p.length = w.length := by rw [hstands.piece, length_pieceAt]
    have htext : p.text = String.ofList w := by rw [hstands.piece, text_pieceAt]
    have hbefore : text.toList.take before.length = before := by rw [hstands.text, List.take_left]
    have hafter : text.toList.drop before.length = w ++ rest := by rw [hstands.text, List.drop_left]
    refine ⟨?_, ?_, ?_, ?_, ofPiece_of_dropped⟩
    · rw [Piece.positions, hlength, ne_eq, List.range'_eq_nil_iff, List.length_eq_zero_iff]
      exact hstands.ne_nil
    · rw [hstart, hafter, htext, hlength, List.take_left, String.toList_ofList]
    · rw [hstart, hbefore]
    · rw [hstart, hbefore]

/-- A string without a closing quote is dropped up to the end of its line, and what follows on the
next line is read from there. -/
theorem pieces_partition_unclosed :
    let text := "\"a\n#b"
    Piece.token ⟨.identifier, "b", ⟨4, 2, 1⟩, 1⟩ ∈ pieces text ∧
      Piece.dropped "\"a\n" ⟨0, 1, 0⟩ ∈ pieces text ∧
    (pieces text).flatMap Piece.positions = [0, 1, 2, 3, 4] ∧
    2 = 1 + (text.toList.take 4).count '\n' ∧
    1 = ((text.toList.take 4).reverse.takeWhile (· ≠ '\n')).length ∧
    Complaint.ofPiece? (.dropped "\"a\n" ⟨0, 1, 0⟩) = some ⟨1, 0, .unreadable "\"a\n"⟩ := by
  intro text
  have htoken : Piece.token ⟨.identifier, "b", ⟨4, 2, 1⟩, 1⟩ ∈ pieces text := by decide +kernel
  have hdropped : Piece.dropped "\"a\n" ⟨0, 1, 0⟩ ∈ pieces text := by decide +kernel
  obtain ⟨-, hcover, hpieces⟩ := pieces_partition text
  obtain ⟨-, -, hline, hcolumn, -⟩ := hpieces _ htoken
  obtain ⟨-, -, -, -, hsaid⟩ := hpieces _ hdropped
  exact ⟨htoken, hdropped, hcover.trans (by decide +kernel), hline, hcolumn, hsaid rfl⟩

end Coupling.Java
