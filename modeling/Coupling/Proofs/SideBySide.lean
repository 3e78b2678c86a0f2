import Coupling.Proofs.Mirroring

/-!
# Two profilers side by side

Two profilers share the registry of symbols and the numbering of classes, and are asked for things
in any order (`Duo.after`). Each has its own class table and its own symbols, and no call of the one
touches those of the other. What they have in common is the numbering: it is that of the profiler
that collected last, so that the other prints its matrix with wrong names, or counts in wrong rows
(`numbering_is_shared`).

`side_by_side` says what is left. What collections find and answer is always as if the profiler were
alone. All else is, too, if each call that uses the numbering finds it as it would be then.
-/

namespace Coupling.Project.Profiler

open Steps

variable {parse : Parser}

/-! ## Calls in any order -/

/-- Two profilers and what they share. -/
structure Duo where
  selves : Bool → Profiler
  shared : Shared

namespace Duo

def scene (d : Duo) (b : Bool) : Scene Profiler := ⟨d.selves b, d.shared⟩

/-- Two new profilers beside the analysers that are there. -/
def opened (files : Bool → List String) (shared : Shared) : Duo :=
  let first := Profiler.opened (files false) shared
  let second := Profiler.opened (files true) first.shared
  ⟨fun b => if b then second.self else first.self, second.shared⟩

/-- One of them is asked for something. -/
def next (parse : Parser) (d : Duo) (b : Bool) (ask : Ask) : Duo :=
  let s := ask.next parse (d.scene b)
  ⟨fun b' => if b' = b then s.self else d.selves b', s.shared⟩

def after (parse : Parser) (calls : List (Bool × Ask)) (d : Duo) : Duo :=
  calls.foldl (fun d call => d.next parse call.1 call.2) d

theorem scene_next_self (d : Duo) (b : Bool) (ask : Ask) :
    (d.next parse b ask).scene b = ask.next parse (d.scene b) := by
  show Scene.mk (if b = b then (ask.next parse (d.scene b)).self else d.selves b) _ = _
  rw [if_pos rfl]
  rfl

theorem scene_next_other (d : Duo) {b b' : Bool} (h : b ≠ b') (ask : Ask) :
    (d.next parse b' ask).scene b = ⟨d.selves b, (ask.next parse (d.scene b')).shared⟩ := by
  show Scene.mk (if b = b' then (ask.next parse (d.scene b')).self else d.selves b) _ = _
  rw [if_neg h]
  rfl

end Duo

/-- What a profiler is led to by those of the calls that are its own. -/
def solo (parse : Parser) (b : Bool) (calls : List (Bool × Ask)) (t : Scene Profiler) :
    Scene Profiler :=
  (calls.filter (·.1 == b)).foldl (fun t call => call.2.next parse t) t

/-- Each call of a profiler that uses the numbering of the classes finds it as if the profiler were
alone. -/
def Undisturbed (parse : Parser) (b : Bool) : List (Bool × Ask) → Duo → Scene Profiler → Prop
  | [], _, _ => True
  | (b', ask) :: calls, d, t =>
    if b' = b then
      (ask.counts = true → InForce t (d.scene b)) ∧
        Undisturbed parse b calls (d.next parse b' ask) (ask.next parse t)
    else Undisturbed parse b calls (d.next parse b' ask) t

instance decidableUndisturbed (parse : Parser) (b : Bool) :
    ∀ (calls : List (Bool × Ask)) (d : Duo) (t : Scene Profiler),
    Decidable (Undisturbed parse b calls d t)
  | [], _, _ => inferInstanceAs (Decidable True)
  | (b', ask) :: calls, d, t =>
    have := decidableUndisturbed parse b calls
    inferInstanceAs (Decidable (if b' = b then
      (ask.counts = true → InForce t (d.scene b)) ∧
        Undisturbed parse b calls (d.next parse b' ask) (ask.next parse t)
    else Undisturbed parse b calls (d.next parse b' ask) t))

/-! ## What the calls of the one leave of the other -/

/-- Two profilers that share what they share, with class tables of their own. -/
structure Separate (s o : Scene Profiler) : Prop where
  shared : o.shared = s.shared
  own : s.self.classes < s.shared.tables.size
  own' : o.self.classes < o.shared.tables.size
  apart : o.self.classes ≠ s.self.classes

namespace Separate

variable {s o : Scene Profiler} (h : Separate s o)
include h

theorem symm : Separate o s := ⟨h.shared.symm, h.own', h.own, h.apart.symm⟩

/-- The one is asked for something, and the class table of the other stays. -/
theorem classTable_next (ask : Ask) :
    classTable ⟨o.self, (ask.next parse s).shared⟩ = classTable o := by
  have hwithin : Within s (ask.next parse s) := within_next ask s
  unfold classTable Shared.table
  rw [hwithin.others _ h.apart, h.shared]

theorem next (ask : Ask) : Separate (ask.next parse s) ⟨o.self, (ask.next parse s).shared⟩ := by
  have hwithin : Within s (ask.next parse s) := within_next ask s
  refine ⟨rfl, ?_, ?_, hwithin.own ▸ h.apart⟩
  · rw [hwithin.own, hwithin.size]
    exact h.own
  · show o.self.classes < (ask.next parse s).shared.tables.size
    rw [hwithin.size, ← h.shared]
    exact h.own'

/-- The names that the other knows are still those that it would know alone. -/
theorem outlined {t : Scene Profiler} (ho : Outlined t o) (ask : Ask) :
    Outlined t ⟨o.self, (ask.next parse s).shared⟩ where
  files := ho.files
  full := ho.full
  classNames := by
    rw [h.classTable_next]
    exact ho.classNames
  own := ho.own
  own' := (h.next ask).own'

end Separate

/-- The places of the symbols that a profiler would have alone. -/
def placed {r r' : Registry} (p : Pairing r r') (id : Nat) : Prop := ∃ j < r.size, p.place j = id

/-- A profiler that is as if alone, and one beside it that has none of its symbols. -/
structure Beside (t s o : Scene Profiler) (p : Pairing t.shared.registry s.shared.registry) :
    Prop where
  mirrors : Mirrors t s p
  separate : Separate s o
  spares : Spares (placed p) s.shared.registry o

namespace Beside

variable {t s o : Scene Profiler} {p : Pairing t.shared.registry s.shared.registry}
  (h : Beside t s o p)
include h

/-- The profiler is asked for something. -/
theorem own (ask : Ask) (hn : ask.counts = true → InForce t s) :
    ask.answer parse s = ask.answer parse t ∧
      ∃ q, Beside (ask.next parse t) (ask.next parse s) ⟨o.self, (ask.next parse s).shared⟩ q := by
  obtain ⟨hanswer, q, hext, hmirrors⟩ := h.mirrors.ask parse ask hn
  have hwithin : Within s (ask.next parse s) := within_next ask s
  have hlater : o.shared.registry.Later (ask.next parse s).shared.registry :=
    h.separate.shared ▸ hwithin.later
  refine ⟨hanswer, q, hmirrors, h.separate.next ask, ⟨(h.separate.next ask).own', ?_, ?_⟩, ?_,
    fun _ _ => rfl⟩
  · rw [h.separate.classTable_next]
    exact h.spares.named.later hlater
  · exact h.spares.symbols.later hlater
  · intro k id hid
    rw [h.separate.classTable_next] at hid
    have hold : ¬ placed p id := h.spares.apart.spared k id hid
    -- A symbol of the other was there before, so that it is not the place of a new one.
    have hlt : id < s.shared.registry.size := by
      obtain ⟨i, hi, -⟩ : ∃ i, o.shared.registry.get? id = some i ∧ i.fullName = k.name := by
        cases k with
        | ofClass name => exact h.spares.named name id hid
        | ofSymbol name => exact h.spares.symbols name id hid
      rw [h.separate.shared] at hi
      exact Registry.lt_size_of_get? hi
    rintro ⟨j, hj, rfl⟩
    rcases Nat.lt_or_ge j t.shared.registry.size with hjlt | hjge
    · exact hold ⟨j, hjlt, (hext.agree j hjlt).symm⟩
    · exact Nat.not_lt.mpr (hext.fresh j hjge hj) hlt

/-- The other is asked for something. -/
theorem other (ask : Ask) :
    ∃ q, Beside t ⟨s.self, (ask.next parse o).shared⟩ (ask.next parse o) q := by
  have hplaced : ∀ id, placed p id → id < s.shared.registry.size := by
    rintro id ⟨j, hj, rfl⟩
    exact p.place_lt hj
  have hspares : Spares (placed p) s.shared.registry (ask.next parse o) := by
    refine (lasting_spares hplaced).keeps_ask ask (quiet o) ?_
    exact { h.spares with }
  have hsymm := h.separate.symm
  refine ⟨p.among fun j hj => hspares.apart.kept _ ⟨j, hj, rfl⟩,
    ⟨?_, h.mirrors.grown, h.mirrors.closed, ?_, ?_, ?_⟩, ?_, ?_⟩
  · exact hsymm.outlined h.mirrors.outlined ask
  · rw [hsymm.classTable_next]
    exact h.mirrors.classes
  · exact h.mirrors.symbols
  · exact h.mirrors.matrix
  · exact (hsymm.next ask).symm
  · exact { hspares with apart := ⟨hspares.apart.spared, fun _ _ => rfl⟩ }

end Beside

/-! ## Runs -/

/-- What the calls of either profiler keep holds after all of them. The calls of the one may rely on
being undisturbed, if they are. -/
theorem after_keeps {P : Scene Profiler → Scene Profiler → Scene Profiler → Prop}
    (undisturbed : Prop) {b : Bool}
    (hown : ∀ t s o (ask : Ask), P t s o → (undisturbed → ask.counts = true → InForce t s) →
      P (ask.next parse t) (ask.next parse s) ⟨o.self, (ask.next parse s).shared⟩)
    (hother : ∀ t s o (ask : Ask), P t s o →
      P t ⟨s.self, (ask.next parse o).shared⟩ (ask.next parse o))
    (calls : List (Bool × Ask)) {d : Duo} {t : Scene Profiler} (h : P t (d.scene b) (d.scene (!b)))
    (hcalls : undisturbed → Undisturbed parse b calls d t) :
    P (solo parse b calls t) ((d.after parse calls).scene b)
      ((d.after parse calls).scene (!b)) := by
  induction calls generalizing d t with
  | nil => exact h
  | cons call calls ih =>
    obtain ⟨b', ask⟩ := call
    by_cases hb : b' = b
    · subst hb
      simp only [Undisturbed, if_pos] at hcalls
      have hsolo : solo parse b' ((b', ask) :: calls) t =
          solo parse b' calls (ask.next parse t) := by
        unfold solo
        rw [List.filter_cons_of_pos (by simp), List.foldl_cons]
      rw [hsolo]
      refine ih ?_ fun hu => (hcalls hu).2
      rw [Duo.scene_next_self, Duo.scene_next_other d (by simp)]
      exact hown t _ _ ask h fun hu => (hcalls hu).1
    · simp only [Undisturbed, if_neg hb] at hcalls
      have hsolo : solo parse b ((b', ask) :: calls) t = solo parse b calls t := by
        unfold solo
        rw [List.filter_cons_of_neg (by simpa using hb)]
      obtain rfl : b' = !b := by cases b <;> cases b' <;> simp_all
      rw [hsolo]
      refine ih ?_ hcalls
      rw [Duo.scene_next_self, Duo.scene_next_other d (by simp)]
      exact hother t _ _ ask h

section

variable (files : Bool → List String) (shared : Shared) (b : Bool)

theorem classTable_opened : classTable ((Duo.opened files shared).scene b) = ∅ := by
  cases b with
  | false =>
    show (((shared.tables.push ∅).push ∅)[shared.tables.size]?).getD ∅ = ∅
    rw [Array.getElem?_push, Array.size_push, if_neg (Nat.ne_of_lt (Nat.lt_succ_self _)),
      Array.getElem?_push_size]
    rfl
  | true =>
    show (((shared.tables.push ∅).push ∅)[(shared.tables.push ∅).size]?).getD ∅ = ∅
    rw [Array.getElem?_push_size]
    rfl

theorem separate_opened : Separate ((Duo.opened files shared).scene b)
    ((Duo.opened files shared).scene (!b)) := by
  have hfirst : Separate ((Duo.opened files shared).scene false)
      ((Duo.opened files shared).scene true) := by
    refine ⟨rfl, ?_, ?_, ?_⟩
    · show shared.tables.size < ((shared.tables.push ∅).push ∅).size
      simp only [Array.size_push]
      omega
    · show (shared.tables.push ∅).size < ((shared.tables.push ∅).push ∅).size
      simp only [Array.size_push]
      omega
    · show (shared.tables.push ∅).size ≠ shared.tables.size
      simp
  cases b with
  | false => exact hfirst
  | true => exact hfirst.symm

theorem outlined_opened :
    Outlined (opened (files b) {}) ((Duo.opened files shared).scene b) where
  files := by cases b <;> rfl
  full := by cases b <;> rfl
  classNames := by
    rw [classTable_opened]
    rfl
  own := (sound_opened (files b) {}).own
  own' := (separate_opened files shared b).own

theorem beside_opened :
    ∃ p, Beside (opened (files b) {}) ((Duo.opened files shared).scene b)
      ((Duo.opened files shared).scene (!b)) p := by
  refine ⟨Pairing.ofEmpty _,
    ⟨outlined_opened files shared b, grown_opened (files b) {}, closed_opened (files b) {}, ?_, ?_,
      ?_⟩,
    separate_opened files shared b, ?_⟩
  · rw [classTable_opened]
    rfl
  · cases b <;> rfl
  · cases b <;> rfl
  · refine ⟨⟨(separate_opened files shared b).own', ?_, ?_⟩, ?_, fun _ _ => rfl⟩
    · rw [classTable_opened]
      intro name id hid
      cases hid
    · intro name id hid
      cases b <;> cases hid
    · rintro k id - ⟨j, hj, -⟩
      exact absurd hj (Nat.not_lt_zero j)

end

section After

variable (parse) (files : Bool → List String) (shared : Shared) (calls : List (Bool × Ask))
  (b : Bool)

/-- Each profiler knows the names that it would know alone. -/
theorem outlined_after : Outlined (solo parse b calls (opened (files b) {}))
    (((Duo.opened files shared).after parse calls).scene b) := by
  refine (after_keeps (P := fun t s o => Outlined t s ∧ Separate s o) False ?_ ?_ calls ?_
    False.elim).1
  · intro t s o ask h _
    exact ⟨h.1.ask ask, h.2.next ask⟩
  · intro t s o ask h
    exact ⟨h.2.symm.outlined h.1 ask, (h.2.symm.next ask).symm⟩
  · exact ⟨outlined_opened files shared b, separate_opened files shared b⟩

/-- A profiler that is not disturbed is as if alone. -/
theorem mirrors_after
    (h : Undisturbed parse b calls (Duo.opened files shared) (opened (files b) {})) :
    ∃ p, Mirrors (solo parse b calls (opened (files b) {}))
      (((Duo.opened files shared).after parse calls).scene b) p := by
  obtain ⟨p, hp⟩ := after_keeps (P := fun t s o => ∃ p, Beside t s o p) True
    (fun t s o ask ⟨_, h⟩ hn => (h.own ask (hn trivial)).2)
      (fun t s o ask ⟨_, h⟩ => h.other ask) calls
    (beside_opened files shared b) fun _ => h
  exact ⟨p, hp.mirrors⟩

end After

/-- **Profilers side by side.** Two profilers are asked for things in any order, beside whatever
analysers there were. Each of them knows the classes, and what simple names stand for, as if it were
alone. What it is asked to collect it answers as it would then; if that comes to its end, the
numbering of the classes is as it would be then. An analysis raises the fault that it would raise
then, if any.

If each of its calls that uses the numbering has found it as it would be alone, or there was nothing
to number, then all that it has is the same -- the records of its classes and symbols, the matrix --
and so is the answer to what it is asked for next, if that does not use the numbering or finds it
so, too. -/
theorem side_by_side (parse : Parser) (files : Bool → List String) (shared : Shared)
    (calls : List (Bool × Ask)) (b : Bool)
    (t s : Scene Profiler) (ht : t = solo parse b calls (opened (files b) {}))
    (hs : s = ((Duo.opened files shared).after parse calls).scene b) :
    ((classTable s).keys = (classTable t).keys ∧ s.self.full = t.self.full ∧
      (∀ fs, (Ask.collect fs).answer parse s = (Ask.collect fs).answer parse t ∧
        (((Ask.collect fs).answer parse t).result = .ok none →
          InForce ((Ask.collect fs).next parse t) ((Ask.collect fs).next parse s))) ∧
      ∀ fs, ((Ask.analyze fs).answer parse s).result = ((Ask.analyze fs).answer parse t).result) ∧
    (Undisturbed parse b calls (Duo.opened files shared) (opened (files b) {}) →
      Same t s ∧ ∀ ask : Ask, (ask.counts = true → InForce t s) →
      ask.answer parse s = ask.answer parse t) := by
  subst ht hs
  have houtlined := outlined_after parse files shared calls b
  refine ⟨⟨houtlined.classNames, houtlined.full, fun fs =>
    ⟨(houtlined.collect fs).1, houtlined.inForce fs⟩, fun fs => (houtlined.analyze fs).1⟩,
      fun hcalls => ?_⟩
  obtain ⟨p, hp⟩ := mirrors_after parse files shared calls b hcalls
  exact ⟨hp.same, fun ask hn => (hp.ask parse ask hn).1⟩

/-- A class with a field of another class, that class, and a class of another project. -/
def meetingParser : Parser :=
  parserOf [("A", branch .compilationUnit [classNamed (named "A") [fieldOf "B"]]),
    ("B", branch .compilationUnit [classNamed (named "B") []]),
    ("C", branch .compilationUnit [classNamed (named "C") []])]

def meetingFiles : Files :=
  ⟨[(["A.java"], .text "A"), (["B.java"], .text "B"), (["C.java"], .text "C")]⟩

def meetingLists (b : Bool) : List String := if b then ["C.java"] else ["A.java", "B.java"]

/-- The first collects and analyses, then the second does, and then the first once more. -/
def meetingCalls : List (Bool × Ask) :=
  [(false, .collect meetingFiles), (false, .analyze meetingFiles), (true, .collect meetingFiles),
    (true, .analyze meetingFiles), (false, .collect meetingFiles), (false, .analyze meetingFiles)]

def meetingScene : Scene Profiler :=
  ((Duo.opened meetingLists {}).after meetingParser meetingCalls).scene false

def meetingAlone : Scene Profiler := solo meetingParser false meetingCalls
    (opened (meetingLists false) {})

/-- A profiler that collects anew after the other is not disturbed. -/
theorem meeting_answered :
    Undisturbed meetingParser false meetingCalls (Duo.opened meetingLists {})
      (opened (meetingLists false) {}) ∧
      Same meetingAlone meetingScene ∧
      Ask.print.answer meetingParser meetingScene = Ask.print.answer meetingParser meetingAlone ∧
      meetingScene.self.matrix = some ⟨#[#[0, 1], #[0, 0]]⟩ := by
  have hcalls : Undisturbed meetingParser false meetingCalls (Duo.opened meetingLists {})
      (opened (meetingLists false) {}) := by
    decide +kernel
  obtain ⟨-, h⟩ := side_by_side meetingParser meetingLists {} meetingCalls false meetingAlone
    meetingScene rfl rfl
  obtain ⟨hsame, hanswer⟩ := h hcalls
  exact ⟨hcalls, hsame, hanswer .print fun _ => by decide +kernel, by decide +kernel⟩

/-- The numbering of the classes is that of the profiler that has collected last: a profiler prints
its matrix with the class of the other. -/
theorem numbering_is_shared :
    (Ask.print.answer meetingParser (((Duo.opened meetingLists {}).after meetingParser
      [(true, .collect meetingFiles), (false, .collect meetingFiles)]).scene true)).printed =
        "A -> []\n" ∧
    (Ask.print.answer meetingParser (solo meetingParser true
      [(true, .collect meetingFiles), (false, .collect meetingFiles)]
        (opened (meetingLists true) {}))).printed =
        "C -> []\n" := by
  decide +kernel

end Coupling.Project.Profiler
