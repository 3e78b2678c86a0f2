import Coupling.Lexing.Scan

/-!
# Longest match

Reading a character turns a pattern into one of the texts that are left to match
(`Pattern.matches_step`), and a pattern accepts just if the empty text is left
(`Pattern.nullable_iff`). This needs a pattern to be open: of a closing text it looks for, less than
all has been read. Patterns that are written down are, and reading keeps them so.

A scan carries its rules along the text in this way. So it finds the longest beginning of the text
that some rule matches, with the kind of the first rule that matches it, and finds none just if no
rule matches any beginning that is not empty (`scan_finds`).
-/

namespace Coupling.Lexing

namespace Pattern

variable {p q : Pattern} {c : Char} {s : List Char}

/-! ## Which texts match -/

theorem not_matches_void : ¬Matches .void s := nofun

theorem matches_empty_iff : Matches .empty s ↔ s = [] :=
  ⟨fun h => by cases h; rfl, fun h => h ▸ .empty⟩

theorem matches_one_iff {cls : CharClass} : Matches (.one cls) s ↔ ∃ c, cls.contains c = true ∧
    s = [c] := by
  constructor
  · rintro ⟨⟩
    exact ⟨_, ‹_›, rfl⟩
  · rintro ⟨c, hc, rfl⟩
    exact .one hc

theorem matches_seq_iff : Matches (.seq p q) s ↔ ∃ u v, s = u ++ v ∧ Matches p u ∧ Matches q v := by
  constructor
  · rintro ⟨⟩
    exact ⟨_, _, rfl, ‹_›, ‹_›⟩
  · rintro ⟨u, v, rfl, hu, hv⟩
    exact .seq hu hv

theorem matches_either_iff : Matches (.either p q) s ↔ Matches p s ∨ Matches q s := by
  constructor
  · intro h
    cases h with
    | left h => exact .inl h
    | right h => exact .inr h
  · rintro (h | h)
    · exact .left h
    · exact .right h

/-- A repetition that is not empty has a first turn that is not empty. -/
theorem matches_many_cons : Matches (.many p) (c :: s) ↔
    ∃ u v, s = u ++ v ∧ Matches p (c :: u) ∧ Matches (.many p) v := by
  constructor
  · intro h
    generalize hm : Pattern.many p = m at h
    generalize hw : c :: s = w at h
    induction h with
    | @more p' u v hu hv _ ih =>
      cases hm
      cases u with
      | nil => exact ih rfl hw
      | cons d u =>
        cases hw
        exact ⟨u, v, rfl, hu, hv⟩
    | _ => simp_all
  · rintro ⟨u, v, rfl, hu, hv⟩
    exact .more hu hv

/-- The closing text ends a text, and no shorter beginning of it. -/
def EndsFirst (close read s : List Char) : Prop :=
  close <:+ read ++ s ∧ s ≠ [] ∧ ∀ t, t <+: s → t ≠ [] → t ≠ s → ¬close <:+ read ++ t

variable {close read w : List Char}

theorem matches_through_iff : Matches (.through close read) s ↔ EndsFirst close read s := by
  constructor
  · rintro ⟨⟩
    exact ⟨‹_›, ‹_›, ‹_›⟩
  · rintro ⟨hend, hne, hfirst⟩
    exact .through hend hne hfirst

theorem nullable_iff (p : Pattern) : p.nullable = true ↔ Matches p [] := by
  induction p with
  | void => simp [nullable, not_matches_void]
  | empty => simp [nullable, matches_empty_iff]
  | one cls => simp [nullable, matches_one_iff]
  | seq p q ihp ihq => simp [nullable, matches_seq_iff, ihp, ihq, and_assoc]
  | either p q ihp ihq => simp [nullable, matches_either_iff, ihp, ihq]
  | many p _ => exact iff_of_true rfl .done
  | through close read => simp [nullable, matches_through_iff, EndsFirst]

theorem matches_andThen : Matches (andThen p q) s ↔ Matches (.seq p q) s := by
  unfold andThen
  split
  · simp [matches_seq_iff, not_matches_void]
  · constructor
    · exact fun h => .seq .empty h
    · intro h
      obtain ⟨u, v, rfl, hu, hv⟩ := matches_seq_iff.mp h
      rw [matches_empty_iff.mp hu]
      exact hv
  · split
    · next hq => simp [hq, matches_seq_iff, not_matches_void]
    · rfl

theorem matches_orElse : Matches (orElse p q) s ↔ Matches (.either p q) s := by
  unfold orElse
  split
  · next hp => simp [hp, matches_either_iff, not_matches_void]
  · split
    · next h =>
      rcases h with rfl | rfl
      · simp [matches_either_iff, not_matches_void]
      · simp [matches_either_iff]
    · rfl

/-! ## Closing texts that have begun -/

theorem overlap_suffix (close w : List Char) : overlap close w <:+ w := by
  induction w with
  | nil => exact List.suffix_refl _
  | cons c w ih =>
    rw [overlap]
    split
    · exact List.suffix_refl _
    · exact ih.trans (List.suffix_cons c w)

theorem overlap_begins (close w : List Char) : overlap close w <+: close := by
  induction w with
  | nil => exact List.nil_prefix
  | cons c w ih =>
    rw [overlap]
    split
    · next h => exact List.isPrefixOf_iff_prefix.mp h
    · exact ih

/-- Every end of a text that begins the closing text is an end of the overlap. -/
theorem suffix_overlap {u : List Char} (hw : u <:+ w) (hclose : u <+: close) :
    u <:+ overlap close w := by
  induction w with
  | nil => exact hw
  | cons c w ih =>
    rw [overlap]
    split
    · exact hw
    · next h =>
      rcases List.suffix_cons_iff.mp hw with rfl | hw
      · exact absurd (List.isPrefixOf_iff_prefix.mpr hclose) h
      · exact ih hw

/-- What has been read of a text matters to how it ends only by its overlap with the closing
text. -/
theorem suffix_overlap_append : close <:+ overlap close w ++ s ↔ close <:+ w ++ s := by
  constructor
  · intro h
    obtain ⟨v, hv⟩ := overlap_suffix close w
    rw [← hv, List.append_assoc]
    exact h.trans (List.suffix_append v _)
  · rintro ⟨v, hv⟩
    rcases List.append_eq_append_iff.mp hv with ⟨u, rfl, rfl⟩ | ⟨u, rfl, rfl⟩
    · obtain ⟨x, hx⟩ := suffix_overlap (List.suffix_append v u) (List.prefix_append u s)
      rw [← hx, List.append_assoc]
      exact List.suffix_append x _
    · exact (List.suffix_append u close).trans (List.suffix_append _ _)

/-- Of every closing text less is read than all of it. -/
def isOpen : Pattern → Bool
  | .seq p q => p.isOpen && q.isOpen
  | .either p q => p.isOpen && q.isOpen
  | .many p => p.isOpen
  | .through close read => read.isPrefixOf close && read != close
  | _ => true

theorem isOpen_andThen (hp : p.isOpen = true) (hq : q.isOpen = true) :
    (andThen p q).isOpen = true := by
  unfold andThen
  split
  · rfl
  · exact hq
  · split
    · rfl
    · rw [isOpen, hp, hq]
      rfl

theorem isOpen_orElse (hp : p.isOpen = true) (hq : q.isOpen = true) :
    (orElse p q).isOpen = true := by
  unfold orElse
  split
  · exact hq
  · split
    · exact hp
    · rw [isOpen, hp, hq]
      rfl

theorem isOpen_through : (through close read).isOpen = true ↔ read <+: close ∧ read ≠ close := by
  simp [isOpen, List.isPrefixOf_iff_prefix]

/-- As less than all of the closing text is read, one character closes it just if it is the last one
missing. -/
theorem suffix_concat_iff (h : (through close read).isOpen = true) (c : Char) :
    close <:+ read ++ [c] ↔ read ++ [c] = close := by
  obtain ⟨hread, hne⟩ := isOpen_through.mp h
  have hshort : read.length < close.length :=
    Nat.lt_of_le_of_ne hread.length_le fun hlen => hne (hread.eq_of_length hlen)
  constructor
  · intro hend
    refine (hend.eq_of_length_le ?_).symm
    rw [List.length_append]
    exact hshort
  · rintro rfl
    exact List.suffix_refl _

theorem isOpen_step (c : Char) (hp : p.isOpen = true) : (p.step c).isOpen = true := by
  induction p with
  | void | empty => rfl
  | one cls =>
    rw [step]
    split <;> rfl
  | seq p q ihp ihq =>
    obtain ⟨hp, hq⟩ := Bool.and_eq_true_iff.mp hp
    rw [step]
    split
    · exact isOpen_orElse (isOpen_andThen (ihp hp) hq) (ihq hq)
    · exact isOpen_andThen (ihp hp) hq
  | either p q ihp ihq =>
    obtain ⟨hp, hq⟩ := Bool.and_eq_true_iff.mp hp
    exact isOpen_orElse (ihp hp) (ihq hq)
  | many p ih => exact isOpen_andThen (ih hp) hp
  | through close read =>
    rw [step]
    split
    · rfl
    · next hopen =>
      refine isOpen_through.mpr ⟨overlap_begins _ _, fun hall =>
        hopen ((suffix_concat_iff hp c).mp ?_)⟩
      have hend := overlap_suffix close (read ++ [c])
      rwa [hall] at hend

/-! ## Steps -/

theorem endsFirst_cons : EndsFirst close read (c :: s) ↔
    if close <:+ read ++ [c] then s = [] else EndsFirst close (read ++ [c]) s := by
  have happend (t : List Char) : read ++ c :: t = (read ++ [c]) ++ t := List.append_cons ..
  split
  · next hclosed =>
    constructor
    · rintro ⟨-, -, hfirst⟩
      refine Decidable.byContradiction fun hs => hfirst [c] ⟨s, rfl⟩ (List.cons_ne_nil _ _)
        (fun h => ?_) hclosed
      exact hs (List.cons.inj h).2.symm
    · rintro rfl
      refine ⟨hclosed, List.cons_ne_nil _ _, fun t ht htne hts => ?_⟩
      rcases List.prefix_cons_iff.mp ht with rfl | ⟨t', rfl, ht'⟩
      · exact absurd rfl htne
      · rw [List.prefix_nil.mp ht'] at hts
        exact absurd rfl hts
  · next hopen =>
    constructor
    · rintro ⟨hend, -, hfirst⟩
      rw [happend] at hend
      refine ⟨hend, ?_, fun t ht htne hts => ?_⟩
      · rintro rfl
        rw [List.append_nil] at hend
        exact hopen hend
      · rw [← happend]
        exact hfirst (c :: t) ((List.prefix_cons_inj c).mpr ht) (List.cons_ne_nil _ _) fun h =>
          hts (List.cons.inj h).2
    · rintro ⟨hend, -, hfirst⟩
      rw [EndsFirst, happend]
      refine ⟨hend, List.cons_ne_nil _ _, fun t ht htne hts => ?_⟩
      rcases List.prefix_cons_iff.mp ht with rfl | ⟨t', rfl, ht'⟩
      · exact absurd rfl htne
      · rw [happend]
        by_cases hnil : t' = []
        · rw [hnil, List.append_nil]
          exact hopen
        · exact hfirst t' ht' hnil fun h => hts (by rw [h])

theorem endsFirst_overlap : EndsFirst close (overlap close w) s ↔ EndsFirst close w s := by
  simp only [EndsFirst, suffix_overlap_append]

/-- The texts that are left to match after a character. -/
theorem matches_step (h : p.isOpen = true) : Matches (p.step c) s ↔ Matches p (c :: s) := by
  induction p generalizing s with
  | void => exact iff_of_false not_matches_void not_matches_void
  | empty => exact iff_of_false not_matches_void (by simp [matches_empty_iff])
  | one cls =>
    rw [step, matches_one_iff]
    split
    · next hc =>
      rw [matches_empty_iff]
      constructor
      · rintro rfl
        exact ⟨c, hc, rfl⟩
      · rintro ⟨d, -, hd⟩
        exact (List.cons.inj hd).2
    · next hc =>
      refine iff_of_false not_matches_void ?_
      rintro ⟨d, hd, heq⟩
      rw [(List.cons.inj heq).1] at hc
      exact hc hd
  | seq p q ihp ihq =>
    obtain ⟨hp, hq⟩ := Bool.and_eq_true_iff.mp h
    -- The character is the first of the left part, or of the right one if the left one is empty.
    have hsplit : Matches (.seq p q) (c :: s) ↔
        (∃ u v, s = u ++ v ∧ Matches p (c :: u) ∧ Matches q v) ∨
        (Matches p [] ∧ Matches q (c :: s)) := by
      rw [matches_seq_iff]
      constructor
      · rintro ⟨u, v, huv, hu, hv⟩
        cases u with
        | nil => exact .inr ⟨hu, by rw [huv]; exact hv⟩
        | cons d u =>
          cases huv
          exact .inl ⟨u, v, rfl, hu, hv⟩
      · rintro (⟨u, v, rfl, hu, hv⟩ | ⟨hu, hv⟩)
        · exact ⟨c :: u, v, rfl, hu, hv⟩
        · exact ⟨[], c :: s, rfl, hu, hv⟩
    have hleft : Matches (andThen (p.step c) q) s ↔ ∃ u v, s = u ++ v ∧ Matches p (c :: u) ∧
        Matches q v := by
      rw [matches_andThen, matches_seq_iff]
      simp only [ihp hp]
    rw [hsplit, step]
    split
    · next hnull => rw [matches_orElse, matches_either_iff, hleft, ihq hq,
        and_iff_right ((nullable_iff p).mp hnull)]
    · next hnull => rw [hleft, or_iff_left fun hboth => hnull ((nullable_iff p).mpr hboth.1)]
  | either p q ihp ihq =>
    obtain ⟨hp, hq⟩ := Bool.and_eq_true_iff.mp h
    rw [step, matches_orElse, matches_either_iff, matches_either_iff, ihp hp, ihq hq]
  | many p ih =>
    rw [step, matches_andThen, matches_seq_iff, matches_many_cons]
    simp only [ih h]
  | through close read =>
    rw [matches_through_iff, endsFirst_cons, step]
    split
    · next hall => rw [if_pos ((suffix_concat_iff h c).mpr hall), matches_empty_iff]
    · next hopen =>
      rw [if_neg fun hend => hopen ((suffix_concat_iff h c).mp hend), matches_through_iff,
        endsFirst_overlap]

end Pattern

/-! ## Longest match -/

namespace Scan

variable {κ : Type} {live rules : List (LexRule κ)} {c : Char} {w text : List Char} {k : κ}

/-- The first of some rules that matches a text is of a kind. -/
def FirstMatch (k : κ) (w : List Char) : List (LexRule κ) → Prop
  | [] => False
  | r :: rules => r.pattern.Matches w ∧ r.kind = k ∨ ¬r.pattern.Matches w ∧ FirstMatch k w rules

/-- No rule matches a text. -/
def NoMatch (rules : List (LexRule κ)) (w : List Char) : Prop := ∀ r ∈ rules, ¬r.pattern.Matches w

/-- Rules of which every closing text is open. -/
def AllOpen (rules : List (LexRule κ)) : Prop := ∀ r ∈ rules, r.pattern.isOpen = true

theorem accepted_cons (r : LexRule κ) (live : List (LexRule κ)) :
    accepted (r :: live) = if r.pattern.nullable then some r.kind else accepted live := by
  rw [accepted, accepted, List.find?_cons]
  cases r.pattern.nullable <;> rfl

theorem accepted_eq_some : accepted live = some k ↔ FirstMatch k [] live := by
  induction live with
  | nil => exact iff_of_false nofun id
  | cons r live ih =>
    rw [accepted_cons, FirstMatch, ← Pattern.nullable_iff]
    cases r.pattern.nullable <;> simp [ih]

theorem accepted_eq_none : accepted live = none ↔ NoMatch live [] := by
  simp [accepted, NoMatch, ← Pattern.nullable_iff]

theorem advance_cons (r : LexRule κ) (live : List (LexRule κ)) :
    advance c (r :: live) =
      if r.pattern.step c = .void then advance c live else ⟨r.kind, r.pattern.step c⟩ ::
        advance c live := by
  rw [advance, List.filterMap_cons]
  split <;> simp_all [advance]

theorem allOpen_advance (h : AllOpen live) : AllOpen (advance c live) := by
  intro r hr
  obtain ⟨r', hr', hstep⟩ := List.mem_filterMap.mp hr
  simp only at hstep
  split at hstep
  · cases hstep
  · cases hstep
    exact Pattern.isOpen_step c (h r' hr')

theorem firstMatch_advance (h : AllOpen live) :
    FirstMatch k w (advance c live) ↔ FirstMatch k (c :: w) live := by
  induction live with
  | nil => rfl
  | cons r live ih =>
    obtain ⟨hr, hlive⟩ := List.forall_mem_cons.mp h
    rw [advance_cons, FirstMatch, ← Pattern.matches_step hr, ← ih hlive]
    split
    · next hvoid => simp [hvoid, Pattern.not_matches_void]
    · rfl

theorem noMatch_advance (h : AllOpen live) : NoMatch (advance c live) w ↔
    NoMatch live (c :: w) := by
  induction live with
  | nil => exact iff_of_true nofun nofun
  | cons r live ih =>
    obtain ⟨hr, hlive⟩ := List.forall_mem_cons.mp h
    have hcons (r : LexRule κ) (rs : List (LexRule κ)) (v : List Char) :
        NoMatch (r :: rs) v ↔ ¬r.pattern.Matches v ∧ NoMatch rs v := List.forall_mem_cons
    rw [advance_cons, hcons, ← Pattern.matches_step hr, ← ih hlive]
    split
    · next hvoid => simp [hvoid, Pattern.not_matches_void]
    · rw [hcons]

/-- What a scan may find at the head of a text: a beginning that no rule extends, with the kind of
the first rule that matches it; or, if no rule matches any beginning, a stretch that is not empty
unless the text is. -/
inductive Finds (rules : List (LexRule κ)) : List Char → Scan κ → Prop
  | lexeme {w rest : List Char} {k : κ} : w ≠ [] → FirstMatch k w rules →
      (∀ v, v <+: w ++ rest → w.length < v.length → NoMatch rules v) →
      Finds rules (w ++ rest) (.lexeme k w.length)
  | stuck {w rest : List Char} : (w = [] → rest = []) →
      (∀ v, v <+: w ++ rest → v ≠ [] → NoMatch rules v) →
      Finds rules (w ++ rest) (.stuck w.length)

/-- A beginning of a text that is not empty goes on after its first character as the live rules
do. -/
theorem prefix_cons_noMatch {v cs : List Char} (h : AllOpen live) (hv : v <+: c :: cs)
    (hne : v ≠ []) :
    ∃ v', v = c :: v' ∧ v' <+: cs ∧ (NoMatch (advance c live) v' → NoMatch live v) := by
  rcases List.prefix_cons_iff.mp hv with rfl | ⟨v', rfl, hv'⟩
  · exact absurd rfl hne
  · exact ⟨v', rfl, hv', (noMatch_advance h).mp⟩

/-- The longest match after some characters, if they make one of the live rules match. -/
def improved (live : List (LexRule κ)) (read : Nat) (best : Option (κ × Nat)) : Option (κ × Nat) :=
  match accepted live with
  | some k => some (k, read)
  | none => best

theorem run_cons_of_live {cs : List Char} (h : advance c live ≠ []) (read : Nat)
    (best : Option (κ × Nat)) :
    run live read best (c :: cs) =
      run (advance c live) (read + 1) (improved (advance c live) (read + 1) best) cs := by
  rw [run]
  split
  · next hdead => exact absurd hdead h
  · rfl

/-- How a run ends: with the longest beginning that its rules match or, if they match none, with
what was found before it. -/
theorem run_cases (h : AllOpen live) (read : Nat) (best : Option (κ × Nat)) (text : List Char) :
    (∃ w rest k, text = w ++ rest ∧ w ≠ [] ∧ FirstMatch k w live ∧
      (∀ v, v <+: text → w.length < v.length → NoMatch live v) ∧
      run live read best text = .lexeme k (read + w.length)) ∨
    (∃ w rest, text = w ++ rest ∧ (w = [] → rest = []) ∧
      (∀ v, v <+: text → v ≠ [] → NoMatch live v) ∧
      run live read best text = run.finish best (read + w.length)) := by
  induction text generalizing live read best with
  | nil =>
    refine .inr ⟨[], [], rfl, fun _ => rfl, fun v hv hne => ?_, rfl⟩
    exact absurd (List.prefix_nil.mp hv) hne
  | cons c cs ih =>
    have hcons (w : List Char) : read + 1 + w.length = read + (c :: w).length := by
      rw [List.length_cons]
      omega
    by_cases hdead : advance c live = []
    · refine .inr ⟨[c], cs, rfl, nofun, fun v hv hne => ?_, by rw [run, hdead]; rfl⟩
      obtain ⟨v', -, -, hno⟩ := prefix_cons_noMatch h hv hne
      refine hno ?_
      rw [hdead]
      exact nofun
    · rw [run_cons_of_live hdead]
      rcases ih (allOpen_advance (c := c) h) (read + 1)
          (improved (advance c live) (read + 1) best) with
        ⟨w, rest, k, rfl, -, hfirst, hlonger, hrun⟩ | ⟨w, rest, rfl, -, hno, hrun⟩
      · refine .inl ⟨c :: w, rest, k, rfl, List.cons_ne_nil _ _, (firstMatch_advance h).mp hfirst,
          fun v hv hlen => ?_, ?_⟩
        · obtain ⟨v', rfl, hv', hno⟩ :=
            prefix_cons_noMatch h hv (List.ne_nil_of_length_pos (Nat.zero_lt_of_lt hlen))
          exact hno (hlonger v' hv' (Nat.lt_of_succ_lt_succ hlen))
        · rw [hrun, hcons]
      · -- Nothing longer than the character matches; whether it matches itself is what
        -- `accepted` tells.
        cases haccepted : accepted (advance c live) with
        | some k =>
          have hfirst := (firstMatch_advance h).mp (accepted_eq_some.mp haccepted)
          refine .inl ⟨[c], w ++ rest, k, rfl, List.cons_ne_nil _ _, hfirst,
            fun v hv hlen => ?_, ?_⟩
          · obtain ⟨v', rfl, hv', hno'⟩ :=
              prefix_cons_noMatch h hv (List.ne_nil_of_length_pos (Nat.zero_lt_of_lt hlen))
            exact hno' (hno v' hv' (List.ne_nil_of_length_pos (Nat.lt_of_succ_lt_succ hlen)))
          · rw [hrun, improved, haccepted]
            rfl
        | none =>
          refine .inr ⟨c :: w, rest, rfl, nofun, fun v hv hne => ?_, ?_⟩
          · obtain ⟨v', rfl, hv', hno'⟩ := prefix_cons_noMatch h hv hne
            by_cases hnil : v' = []
            · subst hnil
              exact hno' (accepted_eq_none.mp haccepted)
            · exact hno' (hno v' hv' hnil)
          · rw [hrun, improved, haccepted, hcons]

end Scan

/-- A scan finds the longest match. -/
theorem scan_finds {κ : Type} {rules : List (LexRule κ)} (h : Scan.AllOpen rules)
    (text : List Char) :
    Scan.Finds rules text (scan rules text) := by
  rcases Scan.run_cases h 0 none text with ⟨w, rest, k, rfl, hw, hfirst, hlonger, hrun⟩ | ⟨w, rest,
    rfl, hw, hno, hrun⟩
  · rw [scan, hrun, Nat.zero_add]
    exact .lexeme hw hfirst hlonger
  · rw [scan, hrun, Nat.zero_add]
    exact .stuck hw hno

end Coupling.Lexing
