import Coupling.Proofs.Pieces

/-!
# Lexemes

What the rules of the lexicon offer, as they are written: a comment or a text block may hold
anything, and ends as soon as it can. The patterns that a scan runs say the same with a closing
text. A token is the longest of what the rules offer at its place, and of the first kind whose rule
offers it; where no rule offers anything the lexer complains.
-/

namespace Coupling.Lexing

theorem CharClass.contains_ofChars {t : String} {c : Char} :
    (CharClass.ofChars t).contains c = true ↔ c ∈ t.toList := by
  simp only [ofChars, contains, inRanges, List.any_map, List.any_eq_true, Function.comp,
    Bool.and_eq_true, decide_eq_true_eq]
  constructor
  · rintro ⟨d, hd, hle⟩
    rwa [Char.le_antisymm hle.2 hle.1]
  · intro hc
    exact ⟨c, hc, Char.le_refl c, Char.le_refl c⟩

namespace Pattern

variable {p q : Pattern} {s : List Char}

theorem matches_ofChars {cs : List Char} : Matches (ofChars cs) s ↔ s = cs := by
  induction cs generalizing s with
  | nil => exact matches_empty_iff
  | cons c cs ih =>
    have hone {s : List Char} : Matches (.one (.single c)) s ↔ s = [c] := by
      simp only [matches_one_iff, CharClass.contains, CharClass.inRanges, CharClass.single,
        List.any_cons, List.any_nil, Bool.or_false, Bool.and_eq_true, decide_eq_true_eq]
      constructor
      · rintro ⟨d, hd, rfl⟩
        rw [Char.le_antisymm hd.2 hd.1]
      · rintro rfl
        exact ⟨c, ⟨Char.le_refl c, Char.le_refl c⟩, rfl⟩
    cases cs with
    | nil => exact hone
    | cons d cs =>
      rw [ofChars, matches_seq_iff]
      · constructor
        · rintro ⟨u, v, rfl, hu, hv⟩
          rw [hone.mp hu, ih.mp hv]
          rfl
        · rintro rfl
          exact ⟨[c], d :: cs, rfl, hone.mpr rfl, ih.mpr rfl⟩
      · exact nofun

theorem matches_text {t : String} : Matches (text t) s ↔ s = t.toList := matches_ofChars

theorem matches_seq_assoc {r : Pattern} : Matches (.seq p (.seq q r)) s ↔
    Matches (.seq (.seq p q) r) s := by
  constructor
  · intro h
    obtain ⟨u, _, rfl, hu, h⟩ := matches_seq_iff.mp h
    obtain ⟨v, w, rfl, hv, hw⟩ := matches_seq_iff.mp h
    rw [← List.append_assoc]
    exact .seq (.seq hu hv) hw
  · intro h
    obtain ⟨_, w, rfl, h, hw⟩ := matches_seq_iff.mp h
    obtain ⟨u, v, rfl, hu, hv⟩ := matches_seq_iff.mp h
    rw [List.append_assoc]
    exact .seq hu (.seq hv hw)

theorem matches_many_one {cls : CharClass} : Matches (.many (.one cls)) s ↔
    ∀ c ∈ s, cls.contains c = true := by
  induction s with
  | nil => exact iff_of_true .done nofun
  | cons c s ih =>
    rw [matches_many_cons, List.forall_mem_cons, ← ih]
    constructor
    · rintro ⟨u, v, rfl, hu, hv⟩
      obtain ⟨d, hd, heq⟩ := matches_one_iff.mp hu
      cases heq
      exact ⟨hd, hv⟩
    · rintro ⟨hc, hs⟩
      exact ⟨[], s, rfl, .one hc, hs⟩

/-- Any text is a repetition of single characters. -/
theorem matches_many_of_singles (h : ∀ c, Matches p [c]) (s : List Char) : Matches (.many p) s := by
  induction s with
  | nil => exact .done
  | cons c s ih => exact .more (h c) ih

/-- At most one beginning of a text matches. -/
def Unique (p : Pattern) : Prop := ∀ u v w, u <+: w → v <+: w → Matches p u → Matches p v → u = v

theorem unique_ofChars (cs : List Char) : (ofChars cs).Unique := by
  intro u v w _ _ hu hv
  rw [matches_ofChars.mp hu, matches_ofChars.mp hv]

/-- A part that ends at the first closing text, after an opening that a text has one of at most, is
the shortest that ends with a closing text at all. -/
theorem matches_through_iff_shortest {opening inner : Pattern} (hopening : opening.Unique)
    (hinner : ∀ s, Matches inner s) (close : List Char) (hclose : close ≠ []) :
    Matches (.seq opening (.through close [])) s ↔
      Matches (.seq opening (.seq inner (ofChars close))) s ∧
      ∀ v, v <+: s → v ≠ s → ¬Matches (.seq opening (.seq inner (ofChars close))) v := by
  have hbody {t : List Char} : Matches (.seq inner (ofChars close)) t ↔ close <:+ t := by
    rw [matches_seq_iff]
    constructor
    · rintro ⟨u, v, rfl, -, hv⟩
      rw [matches_ofChars.mp hv]
      exact List.suffix_append u close
    · rintro ⟨u, rfl⟩
      exact ⟨u, close, rfl, hinner u, matches_ofChars.mpr rfl⟩
  simp only [matches_seq_iff (p := opening), matches_through_iff, EndsFirst, List.nil_append, hbody]
  constructor
  · rintro ⟨o, t, rfl, ho, hend, hne, hfirst⟩
    refine ⟨⟨o, t, rfl, ho, hend⟩, ?_⟩
    rintro _ hv hvne ⟨o', t', rfl, ho', hend'⟩
    cases hopening o o' (o ++ t) (List.prefix_append o t)
      ((List.prefix_append o' t').trans hv) ho ho'
    refine hfirst t' ((List.prefix_append_right_inj o).mp hv) ?_ (fun h => hvne (by rw [h])) hend'
    rintro rfl
    exact hclose (List.suffix_nil.mp hend')
  · rintro ⟨⟨o, t, rfl, ho, hend⟩, hshortest⟩
    refine ⟨o, t, rfl, ho, hend, ?_, fun t' ht' hne hts hend' => ?_⟩
    · rintro rfl
      exact hclose (List.suffix_nil.mp hend)
    · refine hshortest (o ++ t') ((List.prefix_append_right_inj o).mpr ht')
        (fun h => hts ?_) ⟨o, t', rfl, ho, hend'⟩
      exact List.append_cancel_left h

end Pattern

end Coupling.Lexing

namespace Coupling.Java

open Coupling.Lexing

namespace Lexicon

open Coupling.Lexing.Pattern

/-! ## Rules as they are written -/

/-- Any character. -/
def anyChar : Pattern := .one (.outside [])

/-- The opening of a text block: quotes, and the rest of their line. -/
def blockOpening : Pattern := .seq (text "\"\"\"") (.seq (.many (anyOf " \t")) (anyOf "\r\n"))

/-- The rule of a kind as it is written. What a comment or a text block holds may be anything,
closing texts included. -/
def written : Kind → Pattern
  | .comment => .seq (text "/*") (.seq (.many anyChar) (text "*/"))
  | .textBlock => .seq blockOpening (.seq (.many (.either anyChar escapeSequence)) (text "\"\"\""))
  | k => pattern k

/-- A kind whose lexemes end as soon as they can. -/
def Reluctant (k : Kind) : Prop := k = .comment ∨ k = .textBlock

/-- A text that the rule of a kind offers as a lexeme: it matches, and if the kind is reluctant, no
shorter beginning of it does. -/
def Offers (k : Kind) (w : List Char) : Prop :=
  Matches (written k) w ∧ (Reluctant k → ∀ v, v <+: w → v ≠ w → ¬Matches (written k) v)

theorem matches_anyChar (c : Char) : Matches anyChar [c] := .one rfl

/-- The blanks before a line break and the break itself, read in one way only. -/
theorem unique_blanks : Unique (.seq (.many (anyOf " \t")) (anyOf "\r\n")) := by
  have hapart {c : Char} (hblank : (CharClass.ofChars " \t").contains c = true) :
      (CharClass.ofChars "\r\n").contains c ≠ true := by
    rw [CharClass.contains_ofChars] at hblank
    rw [ne_eq, CharClass.contains_ofChars]
    rcases List.mem_cons.mp hblank with rfl | htab
    · decide
    · rw [List.mem_singleton.mp htab]
      decide
  intro u v w hu hv hmu hmv
  obtain ⟨blanks, _, rfl, hblanks, hbreak⟩ := matches_seq_iff.mp hmu
  obtain ⟨c, hc, rfl⟩ := matches_one_iff.mp hbreak
  obtain ⟨blanks', _, rfl, hblanks', hbreak'⟩ := matches_seq_iff.mp hmv
  obtain ⟨c', hc', rfl⟩ := matches_one_iff.mp hbreak'
  replace hblanks := matches_many_one.mp hblanks
  replace hblanks' := matches_many_one.mp hblanks'
  clear hmu hmv hbreak hbreak'
  induction blanks generalizing blanks' w with
  | nil =>
    obtain ⟨w, rfl⟩ := hu
    cases blanks' with
    | nil => rw [(List.cons_prefix_cons.mp hv).1]
    | cons d blanks' =>
      rw [(List.cons_prefix_cons.mp hv).1] at hblanks'
      exact absurd hc (hapart (hblanks' c List.mem_cons_self))
  | cons b blanks ih =>
    obtain ⟨w, rfl⟩ := hu
    cases blanks' with
    | nil =>
      rw [(List.cons_prefix_cons.mp hv).1] at hc'
      exact absurd hc' (hapart (hblanks b List.mem_cons_self))
    | cons d blanks' =>
      obtain ⟨rfl, htail⟩ := List.cons_prefix_cons.mp hv
      have hrest := ih _ (List.prefix_append _ w) blanks' htail (List.forall_mem_cons.mp hblanks).2
        (List.forall_mem_cons.mp hblanks').2
      rw [List.cons_append, hrest, List.cons_append]

theorem unique_blockOpening : blockOpening.Unique := by
  intro u v w hu hv hmu hmv
  obtain ⟨_, u, rfl, hquotes, hblanks⟩ := matches_seq_iff.mp hmu
  obtain ⟨_, v, rfl, hquotes', hblanks'⟩ := matches_seq_iff.mp hmv
  cases matches_text.mp hquotes
  cases matches_text.mp hquotes'
  obtain ⟨w, rfl⟩ := (List.prefix_append _ u).trans hu
  rw [unique_blanks u v w ((List.prefix_append_right_inj _).mp hu)
    ((List.prefix_append_right_inj _).mp hv) hblanks
    hblanks']

/-- A rule offers what its pattern matches. -/
theorem offers_iff (k : Kind) (w : List Char) : Offers k w ↔ Matches (pattern k) w := by
  by_cases hcomment : k = .comment
  · subst hcomment
    have hshortest := matches_through_iff_shortest (s := w) (unique_ofChars "/*".toList)
      (matches_many_of_singles matches_anyChar) "*/".toList (by decide)
    exact (and_congr_right fun _ => imp_iff_right (.inl rfl)).trans hshortest.symm
  · by_cases hblock : k = .textBlock
    · subst hblock
      have hshortest := matches_through_iff_shortest (s := w) unique_blockOpening
        (matches_many_of_singles fun c => .left (q := escapeSequence) (matches_anyChar c))
          "\"\"\"".toList
        (by decide)
      have hpattern : Matches (pattern .textBlock) w ↔
          Matches (.seq blockOpening (.through "\"\"\"".toList [])) w := by
        rw [blockOpening, ← matches_seq_assoc, matches_seq_iff]
        simp only [← matches_seq_assoc]
        exact matches_seq_iff
      exact (and_congr_right fun _ => imp_iff_right (.inr rfl)).trans
        (hshortest.symm.trans hpattern.symm)
    · have hwritten : written k = pattern k := by
        unfold written
        split
        · exact absurd rfl hcomment
        · exact absurd rfl hblock
        · rfl
      rw [Offers, hwritten]
      exact and_iff_left fun h => absurd h (not_or.mpr ⟨hcomment, hblock⟩)

/-! ## The order of the rules -/

theorem pairwise_index : Kind.all.Pairwise (·.index < ·.index) := by decide +kernel

theorem mem_all (k : Kind) : k ∈ Kind.all := by cases k <;> decide

variable {k : Kind} {w text : List Char} {s : String}

/-- The pattern of the end of the text matches nothing. -/
theorem ne_eof_of_matches (h : Matches (pattern k) w) : k ≠ .eof := by
  rintro rfl
  exact not_matches_void h

theorem mem_drop_all (h : Matches (pattern k) w) : k ∈ Kind.all.drop 1 :=
  (List.mem_cons.mp (mem_all k)).resolve_left (ne_eof_of_matches h)

theorem firstMatch_map {ks : List Kind} (hks : ks.Pairwise (·.index < ·.index)) :
    Scan.FirstMatch k w (ks.map fun k => ⟨k, pattern k⟩) ↔
      k ∈ ks ∧ Matches (pattern k) w ∧ ∀ k' ∈ ks, k'.index < k.index → ¬Matches (pattern k') w := by
  induction ks with
  | nil => exact iff_of_false id nofun
  | cons j ks ih =>
    obtain ⟨hj, hks⟩ := List.pairwise_cons.mp hks
    rw [List.map_cons, Scan.FirstMatch, ih hks]
    constructor
    · rintro (⟨hmatch, rfl⟩ | ⟨hno, hk, hmatch, hbefore⟩)
      · refine ⟨List.mem_cons_self, hmatch, List.forall_mem_cons.mpr ⟨fun hlt => ?_,
          fun k' hk' hlt => ?_⟩⟩
        · exact absurd hlt (Nat.lt_irrefl _)
        · exact absurd hlt (Nat.lt_asymm (hj k' hk'))
      · exact ⟨List.mem_cons_of_mem _ hk, hmatch, List.forall_mem_cons.mpr ⟨fun _ => hno, hbefore⟩⟩
    · rintro ⟨hk, hmatch, hbefore⟩
      obtain ⟨hfirst, hbefore⟩ := List.forall_mem_cons.mp hbefore
      rcases List.mem_cons.mp hk with rfl | hk
      · exact .inl ⟨hmatch, rfl⟩
      · exact .inr ⟨hfirst (hj k hk), hk, hmatch, hbefore⟩

/-- The first rule that matches a text is that of the first kind whose pattern does. -/
theorem firstMatch_rules : Scan.FirstMatch k w rules ↔
    Matches (pattern k) w ∧ ∀ k' : Kind, k'.index < k.index → ¬Matches (pattern k') w := by
  rw [rules, firstMatch_map (pairwise_index.sublist (List.drop_sublist 1 _))]
  constructor
  · rintro ⟨-, hmatch, hbefore⟩
    exact ⟨hmatch, fun k' hlt hmatch' => hbefore k' (mem_drop_all hmatch') hlt hmatch'⟩
  · rintro ⟨hmatch, hbefore⟩
    exact ⟨mem_drop_all hmatch, hmatch, fun k' _ => hbefore k'⟩

theorem noMatch_rules : Scan.NoMatch rules w ↔ ∀ k, ¬Matches (pattern k) w := by
  constructor
  · intro h k hmatch
    exact h _ (List.mem_map_of_mem (mem_drop_all hmatch)) hmatch
  · intro h r hr
    obtain ⟨k, -, rfl⟩ := List.mem_map.mp hr
    exact h k

/-! ## Lexemes -/

/-- A beginning of a text is its lexeme of a kind: no rule offers a longer beginning, and no rule
before that of the kind offers the same one. -/
structure Lexeme (text : List Char) (k : Kind) (w : List Char) : Prop where
  ne_nil : w ≠ []
  beginning : w <+: text
  offered : Offers k w
  longest : ∀ k' v, v <+: text → Offers k' v → v.length ≤ w.length
  first : ∀ k', k'.index < k.index → ¬Offers k' w

theorem lexeme_of_scan {n : Nat} (h : scan rules text = .lexeme k n) :
    Lexeme text k (text.take n) := by
  have hfinds := scan_finds allOpen_rules text
  rw [h] at hfinds
  cases hfinds with
  | @lexeme w rest _ hw hfirst hlongest =>
    obtain ⟨hmatch, hbefore⟩ := firstMatch_rules.mp hfirst
    rw [List.take_left]
    refine ⟨hw, List.prefix_append w rest, (offers_iff k w).mpr hmatch, fun k' v hv hoffers => ?_,
      fun k' hlt hoffers => ?_⟩
    · refine Nat.le_of_not_lt fun hlt => ?_
      exact noMatch_rules.mp (hlongest v hv hlt) k' ((offers_iff k' v).mp hoffers)
    · exact hbefore k' hlt ((offers_iff k' w).mp hoffers)

theorem not_offers_of_stuck {n : Nat} (h : scan rules text = .stuck n) (k : Kind) (hw : w ≠ [])
    (hbegins : w <+: text) :
    ¬Offers k w := by
  have hfinds := scan_finds allOpen_rules text
  rw [h] at hfinds
  cases hfinds with
  | stuck _ hnone =>
    rw [offers_iff]
    exact noMatch_rules.mp (hnone w hbegins hw) k

/-- A spelling is the lexeme of the kind that it is the spelling of. -/
theorem lexeme_spelling (h : k.spelling? = some s) : Lexeme s.toList k s.toList := by
  have hall : ∀ k ∈ Kind.all, ∀ s ∈ k.spelling?,
    scan rules s.toList = .lexeme k s.toList.length := by decide +kernel
  have hlexeme := lexeme_of_scan (hall k (mem_all k) s h)
  rwa [List.take_length] at hlexeme

theorem offers_of_spelling (h : k.spelling? = some s) (hw : Offers k w) : w = s.toList := by
  have hpattern : pattern k = text s := by
    unfold pattern
    split <;> first | rw [h] | cases h
  rw [offers_iff, hpattern] at hw
  exact matches_text.mp hw

theorem Lexeme.kind_unique {text' : List Char} {k' : Kind} (h : Lexeme text k w)
    (h' : Lexeme text' k' w) : k = k' := by
  have hle := Nat.le_of_not_lt fun hlt => h.first k' hlt h'.offered
  have hge := Nat.le_of_not_lt fun hlt => h'.first k hlt h.offered
  have hindex : k.index = k'.index := Nat.le_antisymm hle hge
  rw [← Kind.ofNat_ctorIdx k, ← Kind.ofNat_ctorIdx k']
  exact congrArg Kind.ofNat hindex

/-- A lexeme is of a kind with a spelling if it is that spelling. -/
theorem Lexeme.kind_eq_iff {k' : Kind} (h : Lexeme text k w) (hs : k'.spelling? = some s) :
    k = k' ↔ w = s.toList := by
  constructor
  · rintro rfl
    exact offers_of_spelling hs h.offered
  · rintro rfl
    exact h.kind_unique (lexeme_spelling hs)

end Lexicon

/-- **Longest match.** A token is the longest beginning of what is left of the text that any rule
offers, and its kind is the first whose rule offers it. So a text that is the spelling of a kind is
a token of that kind and of no other, and a name is never cut. The lexer complains about a piece if
no rule offers anything there. -/
theorem pieces_longest_match (text : String) : ∀ p ∈ pieces text,
    (∀ t, p.token? = some t →
      Lexicon.Lexeme (text.toList.drop p.start.offset) t.kind t.text.toList ∧
      (∀ k s, k.spelling? = some s → (t.kind = k ↔ t.text = s)) ∧
      ∀ w, w <+: text.toList.drop p.start.offset → Lexicon.Offers .identifier w →
      w <+: t.text.toList) ∧
    ((Complaint.ofPiece? p).isSome ↔
      ∀ k w, w ≠ [] → w <+: text.toList.drop p.start.offset → ¬Lexicon.Offers k w) := by
  intro p hp
  obtain ⟨before, w, rest, hstands⟩ := (cuts_pieces text).stands hp
  rw [List.nil_append] at hstands
  have hdrop : text.toList.drop p.start.offset = w ++ rest := by
    rw [hstands.piece, start_pieceAt, Position.after_start, hstands.text, List.drop_left]
  rw [hdrop]
  obtain ⟨-, -, hlen, hpiece⟩ := hstands
  cases hscan : scan Lexicon.rules (w ++ rest) with
  | lexeme k n =>
    rw [hscan] at hlen hpiece
    cases hlen
    have hlexeme := Lexicon.lexeme_of_scan hscan
    rw [List.take_left] at hlexeme
    subst hpiece
    constructor
    · rintro t ht
      cases ht
      simp only [String.toList_ofList]
      refine ⟨hlexeme, fun k' s hs => ?_, fun v hv hoffers => ?_⟩
      · rw [hlexeme.kind_eq_iff hs, String.ext_iff, String.toList_ofList]
      · exact List.prefix_of_prefix_length_le hv hlexeme.beginning (hlexeme.longest _ v hv hoffers)
    · exact iff_of_false nofun fun hnone => hnone k w hlexeme.ne_nil hlexeme.beginning
        hlexeme.offered
  | stuck n =>
    rw [hscan] at hpiece
    subst hpiece
    exact ⟨nofun, iff_of_true rfl fun k v hv hbegins =>
      Lexicon.not_offers_of_stuck hscan k hv hbegins⟩

/-- A name that begins with a keyword is one token; a stray mark is none. -/
theorem pieces_longest_match_classes :
    let text := "classes#"
    Piece.token ⟨.identifier, "classes", ⟨0, 1, 0⟩, 7⟩ ∈ pieces text ∧
      Piece.dropped "#" ⟨7, 1, 7⟩ ∈ pieces text ∧
    Lexicon.Lexeme text.toList .identifier "classes".toList ∧
    ∀ k w, w ≠ [] → w <+: text.toList.drop 7 → ¬Lexicon.Offers k w := by
  intro text
  have htoken : Piece.token ⟨.identifier, "classes", ⟨0, 1, 0⟩, 7⟩ ∈ pieces text := by
    decide +kernel
  have hdropped : Piece.dropped "#" ⟨7, 1, 7⟩ ∈ pieces text := by decide +kernel
  obtain ⟨hlexeme, -⟩ := (pieces_longest_match text _ htoken).1 _ rfl
  exact ⟨htoken, hdropped, hlexeme, (pieces_longest_match text _ hdropped).2.mp rfl⟩

end Coupling.Java
