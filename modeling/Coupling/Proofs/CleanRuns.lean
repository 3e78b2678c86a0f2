import Coupling.Proofs.Alternatives
import Coupling.Proofs.Heights
import Coupling.Proofs.Parsing

/-!
# Parses without complaints

A parse that has nothing to complain about follows the steps of its rules: it reads tokens that are
wanted, takes alternatives that there are, and comes to the end of every rule that it calls
(`Went`). That the bound on its steps is never reached is due to the grammar: only so many steps are
taken between two tokens, and a rule that reads nothing is one that can be empty
(`Engine.parseRule_went`).
-/

namespace Coupling.Java

/-! ## Steps that are taken -/

/-- The node that a frame becomes when a parse has come to a position. -/
def Frame.closed (f : Frame) (source : Source) (i : Nat) : ParseTree :=
  f.tree (if i = 0 then none else some (source.token (i - 1)))

/-- The scope of a rule that is called. -/
def Scope.called (c : Scope) (next : Nat) (rule : RuleName) (level : Nat) : Scope :=
  { c with stack := next :: c.stack, rule, level }

/-- The empty node of a rule that is begun at a position. -/
def Scope.opened (c : Scope) (i : Nat) : Frame := ⟨.rule c.rule, c.source.token i, [], []⟩

/-- The position after the token at a position; the end of the text is not passed. -/
def Source.after (source : Source) (i : Nat) : Nat := if source.kind i = .eof then i else i + 1

theorem Source.le_after (source : Source) (i : Nat) : i ≤ source.after i := by
  unfold after
  split <;> omega

/-- The steps that are taken for a step. -/
def Step.Picks : Step → List Step → Prop
  | .choose _ _ alts, steps => steps ∈ alts
  | .optionally _ _ alts, steps => steps ∈ alts ∨ steps = []
  | .many _ place back decision body, steps =>
    steps = body ++ [.many true place back decision body] ∨ steps = []
  | .some place back decision body, steps => steps = body ++ [.many true place back decision body]
  | .climb _ _ _ _ _ _ _, steps => steps = []
  | _, _ => False

theorem Step.Picks.turns {step : Step} {steps : List Step} (h : step.Picks steps) :
    step.Turns steps := by
  cases step with
  | choose => exact .inl h
  | optionally | many | some | climb => exact h
  | read | call | become => exact h.elim

/-- Steps that are taken in a scope without complaint: from a node and a position to the node that
they make of it and the position they lead to. -/
inductive Went : Scope → List Step → Frame → Nat → Frame → Nat → Prop where
  | nil {c : Scope} {f : Frame} {i : Nat} : Went c [] f i f i
  | read {c : Scope} {place next : Nat} {kinds : KindSet} {only : Option Kind}
      {label : Option Label} {rest : List Step}
      {f f' : Frame} {i j : Nat} : kinds.contains (c.source.kind i) = true →
      Went c rest ((f.add (.token (c.source.token i))).name label) (c.source.after i) f' j →
      Went c (.read place next kinds only label :: rest) f i f' j
  | call {c : Scope} {place next : Nat} {rule : RuleName} {level : Nat} {label : Option Label}
      {rest : List Step}
      {f inner f' : Frame} {i k j : Nat} :
      Went (c.called next rule level) (c.net.steps rule)
        ((c.called next rule level).opened i) i inner k →
      Went c rest ((f.add (inner.closed c.source k)).name label) k f' j →
      Went c (.call place next rule level label :: rest) f i f' j
  | turn {c : Scope} {step : Step} {steps rest : List Step} {f f' : Frame} {i j : Nat} :
      step.Picks steps →
      Went c (steps ++ rest) f i f' j → Went c (step :: rest) f i f' j
  | become {c : Scope} {form : Form} {rest : List Step} {f f' : Frame} {i j : Nat} :
      Went c rest { f with form } i f' j → Went c (.become form :: rest) f i f' j
  | operand {c : Scope} {again : Bool} {place back decision inner innerDecision : Nat}
      {ops : List (Form × Nat × Nat × List Step)} {op : Form × Nat × Nat × List Step}
        {rest : List Step} {f f' : Frame}
      {i j : Nat} : op ∈ ops → c.level ≤ op.2.1 →
      Went c (op.2.2.2 ++ .climb true place back decision inner innerDecision ops :: rest)
        ⟨op.1, f.start, [f.closed c.source i], []⟩ i f' j →
      Went c (.climb again place back decision inner innerDecision ops :: rest) f i f' j

namespace Went

variable {c : Scope} {code : List Step} {f f' : Frame} {i j : Nat}

theorem le (h : Went c code f i f' j) : i ≤ j := by
  induction h with
  | nil => exact Nat.le_refl _
  | read _ _ ih => exact Nat.le_trans (Source.le_after _ _) ih
  | call _ _ ihinner ih => exact Nat.le_trans ihinner ih
  | turn _ _ ih | become _ ih | operand _ _ _ ih => exact ih

/-- Steps that were taken one after the other. -/
theorem split {front rest : List Step} (h : Went c code f i f' j) (hcode : code = front ++ rest) :
    ∃ f₁ k, Went c front f i f₁ k ∧ Went c rest f₁ k f' j := by
  induction h generalizing front with
  | nil =>
    obtain ⟨rfl, rfl⟩ := List.append_eq_nil_iff.mp hcode.symm
    exact ⟨_, _, .nil, .nil⟩
  | read hkinds hrest ih =>
    cases front with
    | nil =>
      cases hcode
      exact ⟨_, _, .nil, .read hkinds hrest⟩
    | cons s front =>
      cases hcode
      obtain ⟨f₁, k, hfront, hrest⟩ := ih rfl
      exact ⟨f₁, k, .read hkinds hfront, hrest⟩
  | call hinner hrest _ ih =>
    cases front with
    | nil =>
      cases hcode
      exact ⟨_, _, .nil, .call hinner hrest⟩
    | cons s front =>
      cases hcode
      obtain ⟨f₁, k, hfront, hrest⟩ := ih rfl
      exact ⟨f₁, k, .call hinner hfront, hrest⟩
  | turn hpicks hrest ih =>
    cases front with
    | nil =>
      cases hcode
      exact ⟨_, _, .nil, .turn hpicks hrest⟩
    | cons s front =>
      cases hcode
      obtain ⟨f₁, k, hfront, hrest⟩ := ih (List.append_assoc ..).symm
      exact ⟨f₁, k, .turn hpicks hfront, hrest⟩
  | become hrest ih =>
    cases front with
    | nil =>
      cases hcode
      exact ⟨_, _, .nil, .become hrest⟩
    | cons s front =>
      cases hcode
      obtain ⟨f₁, k, hfront, hrest⟩ := ih rfl
      exact ⟨f₁, k, .become hfront, hrest⟩
  | operand hop hlevel hrest ih =>
    cases front with
    | nil =>
      cases hcode
      exact ⟨_, _, .nil, .operand hop hlevel hrest⟩
    | cons s front =>
      cases hcode
      obtain ⟨f₁, k, hfront, hrest⟩ := ih (List.append_assoc _ (_ :: front) rest).symm
      exact ⟨f₁, k, .operand hop hlevel hfront, hrest⟩

end Went

/-! ## Complaining or going on -/

/-- A run that has had nothing to complain about, and remembers alternatives that there are. -/
structure Run.Clean (net : Network) (r : Run) : Prop where
  silent : r.state.complaints = []
  ready : r.state.recovering = false
  memory : r.state.memory.Knows net

/-- A run that has come no further than another, without complaint. -/
structure Run.Stays (net : Network) (r r' : Run) : Prop where
  clean : r'.Clean net
  frame : r'.frame = r.frame
  pos : r'.state.pos = r.state.pos

variable {net : Network} {source : Source} {i size j k bound : Nat} {c : Scope} {g : Gauge}

theorem Run.Stays.trans {r r' r'' : Run} (h : r.Stays net r') (h' : r'.Stays net r'') :
    r.Stays net r'' :=
  ⟨h'.clean, h'.frame.trans h.frame, h'.pos.trans h.pos⟩

/-- The end of a stretch of a parse about which there is, or will be, a complaint. -/
def Outcome.Fouled (o : Outcome) : Prop :=
  o.run.state.complaints ≠ [] ∨ ∃ w r, o = .failed w r ∧ w ≠ .exhausted ∧ r.state.recovering = false

/-- A stretch of a parse that takes no complaint back. -/
def Minds (f : Run → Outcome) : Prop := ∀ r, r.state.complaints ≠ [] →
    (f r).run.state.complaints ≠ []

namespace Outcome.Fouled

theorem of_said {o : Outcome} (h : o.run.state.complaints ≠ []) : o.Fouled := .inl h

theorem of_failed {w : Failure} {r : Run} (hw : w ≠ .exhausted) (hr : r.state.recovering = false) :
    (Outcome.failed w r).Fouled := .inr ⟨w, r, rfl, hw, hr⟩

theorem andThen {o : Outcome} {f : Run → Outcome} (h : o.Fouled) (hf : Minds f) :
    (o.andThen f).Fouled := by
  cases o with
  | done r =>
    rcases h with h | ⟨w, r', heq, -, -⟩
    · exact .inl (hf r h)
    · cases heq
  | failed w r => exact h

end Outcome.Fouled

namespace Minds

variable {c : Scope} {f : Run → Outcome} {go : Nat → Run → Outcome}

theorem exec (n : Nat) (c : Scope) (code : List Step) : Minds (exec n c code) :=
  fun r h => (exec_runs n c code r).said h

theorem andThen {o : Run → Outcome} (ho : ∀ r : Run, r.Reads c.source (o r).run) (hf : Minds f) :
    Minds fun r => (o r).andThen f := by
  intro r h
  have hsaid := (ho r).said h
  simp only
  cases hr : o r with
  | done r' => exact hf r' (by rw [hr] at hsaid; exact hsaid)
  | failed w r' =>
    rw [hr] at hsaid
    exact hsaid

theorem choose (hgo : ∀ i, Minds (go i)) (decision : Nat) :
    Minds fun r => c.choose decision r go := by
  intro r h
  have hsaid := (c.reads_decide r decision).said h
  simp only [Scope.choose]
  split
  · next i r' heq =>
    rw [heq] at hsaid
    exact hgo i r' hsaid
  · next w r' heq =>
    rw [heq] at hsaid
    exact hsaid

theorem chooseAmong (hgo : ∀ i, Minds (go i)) (hf : Minds f) (decision l : Nat) :
    Minds fun r => c.chooseAmong decision l r go f := by
  intro r h
  have hsaid := (c.reads_decide r decision).said h
  simp only [Scope.chooseAmong]
  split
  · next i r' heq =>
    rw [heq] at hsaid
    split
    · exact hgo i r' hsaid
    · exact hf r' hsaid
  · next w r' heq =>
    rw [heq] at hsaid
    split
    · exact hf r' hsaid
    · exact hsaid

end Minds

@[simp] theorem State.recovering_fetch (source : Source) (i : Nat) (s : State) :
    (s.fetch source i).recovering = s.recovering := by
  unfold State.fetch
  simp only
  split <;> rfl

@[simp] theorem State.memory_fetch (source : Source) (i : Nat) (s : State) :
    (s.fetch source i).memory = s.memory := by
  unfold State.fetch
  simp only
  split <;> rfl

/-- What is read while there is no error. -/
theorem Run.consume_ready (source : Source) (r : Run) (h : r.state.recovering = false) :
    (r.consume source).frame = r.frame.add (.token (source.token r.state.pos)) ∧
      (r.consume source).state.recovering = false ∧
      (r.consume source).state.memory = r.state.memory ∧
      (r.consume source).state.pos = source.after r.state.pos := by
  have hready (s : State) (hs : s.recovering = false) : ¬s.recovering = true := by simp [hs]
  unfold Run.consume Source.after Source.kind
  by_cases heof : (source.token r.state.pos).kind = .eof
  · simp [heof, h, State.log]
  · simp only [if_neg heof]
    rw [if_neg (hready _ (by simpa using h))]
    exact ⟨rfl, by simpa [State.log] using h, by simp [State.log], State.pos_fetch _ _ _⟩

namespace Scope

variable {net : Network} {c : Scope} {r : Run}

theorem complain_said (hr : r.state.recovering = false) (f : Fault) :
    (c.complain f r).state.complaints ≠ [] := by
  unfold complain
  rw [if_neg (by simp [hr])]
  exact List.cons_ne_nil _ _

theorem skipOne?_said (hr : r.state.recovering = false) :
    ((c.skipOne? r).1 = true → (c.skipOne? r).2.state.complaints ≠ []) ∧
      ((c.skipOne? r).1 = false → (c.skipOne? r).2.state.recovering = false) := by
  have hfetch : (r.onState (State.fetch c.source (r.state.pos + 1))).state.recovering = false := by
    simpa [Run.onState] using hr
  unfold skipOne?
  simp only
  split
  · refine ⟨fun _ => ?_, nofun⟩
    exact ((Run.reads_consume c.source _).trans (Run.reads_onState _ id rfl)).said
      (complain_said hfetch _)
  · exact ⟨nofun, fun _ => hfetch⟩

theorem bridge_fouled (hr : r.state.recovering = false) (next : Nat) (only : Option Kind) :
    (c.bridge next only r).Fouled := by
  have hskip := skipOne?_said (c := c) hr
  unfold bridge
  split
  · next r' heq =>
    rw [heq] at hskip
    exact .of_said ((r'.reads_consume c.source).said (hskip.1 rfl))
  · next r' heq =>
    rw [heq] at hskip
    split
    · have hsaid := complain_said (c := c) (hskip.2 rfl)
        (.missing (c.expected r') (c.current r').shown)
      cases only with
      | none | some k => exact .of_said hsaid
    · exact .of_failed nofun (hskip.2 rfl)

/-- Either there is something to complain about, or the parse goes on and stays where it is. -/
def GoesOn (net : Network) (r : Run) (o : Outcome) : Prop :=
  o.Fouled ∨ ∃ r', o = .done r' ∧ r'.Clean net ∧ r'.frame = r.frame ∧ r'.state.pos = r.state.pos

theorem syncAtStart_goesOn (hr : r.Clean net) (place : Nat) :
    GoesOn net r (c.syncAtStart place r) := by
  have hskip := skipOne?_said (c := c) (r := r.goTo place) hr.ready
  unfold syncAtStart
  simp only
  split
  · exact .inr ⟨_, rfl, ⟨hr.silent, hr.ready, hr.memory⟩, rfl, rfl⟩
  · refine .inl ?_
    split
    · next r' heq =>
      rw [heq] at hskip
      exact .of_said (hskip.1 rfl)
    · next r' heq =>
      rw [heq] at hskip
      exact .of_failed nofun (hskip.2 rfl)

theorem syncAtTurn_goesOn (hr : r.Clean net) (place : Nat) :
    GoesOn net r (c.syncAtTurn place r) := by
  unfold syncAtTurn
  simp only
  split
  · exact .inr ⟨_, rfl, ⟨hr.silent, hr.ready, hr.memory⟩, rfl, rfl⟩
  · refine .inl (.of_said ((Run.reads_consumeUntil _ _ _ _).said ?_))
    exact complain_said (r := r.goTo place) hr.ready _

theorem sync_goesOn (hr : r.Clean net) (again : Bool) (place back : Nat) :
    GoesOn net r (if again then c.syncAtTurn back r else c.syncAtStart place r) := by
  split
  · exact syncAtTurn_goesOn hr back
  · exact syncAtStart_goesOn hr place

/-- A token that is read without complaint is one that is wanted. -/
theorem readToken_goesOn (hr : r.Clean net) (place next : Nat) (kinds : KindSet)
    (only : Option Kind) :
    (c.readToken place next kinds only r).Fouled ∨
    ∃ r', c.readToken place next kinds only r = .done r' ∧
      r'.Clean net ∧ kinds.contains (c.source.kind r.state.pos) = true ∧
      r'.frame = r.frame.add (.token (c.source.token r.state.pos)) ∧
      r'.state.pos = c.source.after r.state.pos := by
  unfold readToken
  simp only
  split
  · next hkinds =>
    let wanted : Run := (r.goTo place).onState State.recovered
    obtain ⟨hframe, hready, hmemory, hpos⟩ := wanted.consume_ready c.source rfl
    by_cases hsaid : (((r.goTo place).onState State.recovered).consume c.source).state.complaints =
      []
    · exact .inr ⟨_, rfl, ⟨hsaid, hready, hmemory ▸ hr.memory⟩, hkinds, hframe, hpos⟩
    · exact .inl (.of_said hsaid)
  · exact .inl (bridge_fouled (r := r.goTo place) hr.ready next only)

theorem decide_clean (hr : r.Clean c.net) (decision : Nat) :
    ((c.decide decision r).2.state.complaints = [] → r.Stays c.net (c.decide decision r).2) ∧
      (c.decide decision r).2.state.recovering = false ∧ ∀ w, (c.decide decision r).1 = .error w →
      w ≠ .exhausted := by
  unfold Scope.decide
  split
  · split
    · exact ⟨fun _ => ⟨hr, rfl, rfl⟩, hr.ready, nofun⟩
    · exact ⟨fun _ => ⟨hr, rfl, rfl⟩, hr.ready, fun w h => by cases h; exact nofun⟩
  · have hmemory := predict_knows hr.memory c.source r.state.pos decision c.stack c.level
    simp only
    split
    · refine ⟨fun hsilent => ⟨⟨hsilent, ?_, ?_⟩, rfl, State.pos_fetch _ _ _⟩, ?_, nofun⟩
      all_goals simp [Run.onState, hr.ready, hmemory]
    · refine ⟨fun hsilent => ⟨⟨hsilent, ?_, ?_⟩, rfl, State.pos_fetch _ _ _⟩, ?_,
        fun w h => by cases h; exact nofun⟩
      all_goals simp [Run.onState, hr.ready, hmemory]

/-- A rule about which there is something to complain is closed with a complaint. -/
theorem finish_said {o : Outcome} (h : o.Fouled) : (c.finish o).2.complaints ≠ [] := by
  rw [finish_eq]
  rcases h with hsaid | ⟨w, r, rfl, hw, hr⟩
  · exact (c.reads_closing o).said hsaid
  · refine (c.reads_recover _).said ?_
    unfold report
    rw [if_neg (by simp [hr])]
    cases w with
    | noViable first offending => exact List.cons_ne_nil _ _
    | mismatch expected | tooLow => exact complain_said hr _
    | exhausted => exact absurd rfl hw

end Scope

/-! ## Parses that go on -/

/-- A source in which only the last token is the end of the text. -/
def Source.Ends (source : Source) : Prop := ∀ i, source.kind i ≠ .eof → i + 1 < source.size

theorem Source.Ends.after_lt (h : source.Ends) (hi : i < source.size) :
    source.after i < source.size := by
  unfold Source.after
  split
  · exact hi
  · next hkind => exact h i hkind

/-- What holds at a position if it holds at all later ones holds at every position. -/
theorem forall_of_later {P : Nat → Prop} (h : ∀ i < size, (∀ j, i < j → j < size → P j) → P i) :
    ∀ i < size, P i := by
  intro i hi
  induction hd : size - i using Nat.strongRecOn generalizing i with
  | _ d ih => exact h i hi fun j hij hj => ih (size - j) (by omega) j hj rfl

theorem mul_add_le_mul_of_lt (hij : i < j) (hi : i < size) :
    (size - j) * k + k ≤ (size - i) * k := by
  have hle : size - j + 1 ≤ size - i := by omega
  rw [← Nat.succ_mul]
  exact Nat.mul_le_mul_right k hle

theorem Went.lt_size {code : List Step} {f f' : Frame} (h : Went c code f i f' j)
    (hsource : c.source.Ends) (hi : i < c.source.size) : j < c.source.size := by
  induction h with
  | nil => exact hi
  | read _ _ ih => exact ih hsource (hsource.after_lt hi)
  | call _ _ ihinner ih => exact ih hsource (ihinner hsource hi)
  | turn _ _ ih | become _ ih | operand _ _ _ ih => exact ih hsource hi

/-- What comes of steps: a complaint, or the steps were taken; `empty` says whether that can be
without reading. -/
def Goes (c : Scope) (code : List Step) (empty : Bool) (r : Run) (o : Outcome) : Prop :=
  o.Fouled ∨ ∃ r', o = .done r' ∧ r'.Clean c.net ∧
    Went c code r.frame r.state.pos r'.frame r'.state.pos ∧
    (r'.state.pos = r.state.pos → empty = true)

/-- Steps for which, at a position, `k` steps for every token that is left and `m` more are
enough. -/
def Suffices (c : Scope) (k i m : Nat) (empty : Bool) (code : List Step) : Prop :=
  ∀ n r, r.Clean c.net → r.state.pos = i →
  (c.source.size - i) * k + m < n → Goes c code empty r (exec n c code r)

section Exec

variable {c : Scope} {k i m m' n : Nat} {b b' : Bool} {code rest : List Step} {r r' : Run}

theorem Goes.andThen {o : Outcome} {f : Run → Outcome} (ho : Scope.GoesOn c.net r o)
    (hminds : Minds f)
    (hf : ∀ r', r.Stays c.net r' → Goes c code b r (f r')) : Goes c code b r (o.andThen f) := by
  rcases ho with ho | ⟨r', rfl, hclean, hframe, hpos⟩
  · exact .inl (ho.andThen hminds)
  · exact hf r' ⟨hclean, hframe, hpos⟩

/-- A choice that is made goes on with an alternative that there is. -/
theorem goes_choose (hnet : c.net.Ordered) {decision : Nat} {go : Nat → Run → Outcome}
    (hr' : r.Stays c.net r') (hminds : ∀ i, Minds (go i))
    (hgo : ∀ i r'', i < c.net.targetCount decision → r.Stays c.net r'' →
      Goes c code b r (go i r'')) :
    Goes c code b r (c.choose decision r' go) := by
  obtain ⟨hstays, hready, herror⟩ := Scope.decide_clean hr'.clean decision
  unfold Scope.choose
  split
  · next i r'' heq =>
    have hlt := Scope.decide_lt hnet hr'.clean.memory (congrArg Prod.fst heq)
    rw [heq] at hstays
    by_cases hsilent : r''.state.complaints = []
    · exact hgo i r'' hlt (hr'.trans (hstays hsilent))
    · exact .inl (.of_said (hminds i r'' hsilent))
  · next w r'' heq =>
    rw [heq] at hready
    exact .inl (.of_failed (herror w (by rw [heq])) hready)

/-- A choice whose last alternative is to go on. -/
theorem goes_chooseAmong {decision l : Nat} {go : Nat → Run → Outcome} {pass : Run → Outcome}
    (hr' : r.Stays c.net r') (hminds : ∀ i, Minds (go i)) (hminds' : Minds pass)
    (hgo : ∀ i r'', i < l → r.Stays c.net r'' → Goes c code b r (go i r''))
    (hpass : ∀ r'', r.Stays c.net r'' → Goes c code b r (pass r'')) :
    Goes c code b r (c.chooseAmong decision l r' go pass) := by
  obtain ⟨hstays, hready, herror⟩ := Scope.decide_clean hr'.clean decision
  unfold Scope.chooseAmong
  split
  · next i r'' heq =>
    rw [heq] at hstays
    by_cases hsilent : r''.state.complaints = []
    · split
      · next hlt => exact hgo i r'' hlt (hr'.trans (hstays hsilent))
      · exact hpass r'' (hr'.trans (hstays hsilent))
    · split
      · exact .inl (.of_said (hminds i r'' hsilent))
      · exact .inl (.of_said (hminds' r'' hsilent))
  · next w r'' heq =>
    rw [heq] at hstays hready
    split
    · by_cases hsilent : r''.state.complaints = []
      · exact hpass r'' (hr'.trans (hstays hsilent))
      · exact .inl (.of_said (hminds' r'' hsilent))
    · exact .inl (.of_failed (herror w (by rw [heq])) hready)

namespace Suffices

theorem mono (h : Suffices c k i m b code) (hm : m ≤ m') (hb : b = true → b' = true) :
    Suffices c k i m' b' code := by
  intro n r hr hpos hfuel
  refine (h n r hr hpos (by omega)).imp_right ?_
  rintro ⟨r', heq, hclean, hwent, hempty⟩
  exact ⟨r', heq, hclean, hwent, fun hsame => hb (hempty hsame)⟩

variable {step : Step} {place decision : Nat}

/-- To suffice for a step is to suffice for the rest with one step less. -/
theorem of_succ (h : ∀ n r, r.Clean c.net → r.state.pos = i → (c.source.size - i) * k + m < n →
      Goes c (step :: rest) b r (exec (n + 1) c (step :: rest) r)) : Suffices c k i (m + 1) b
        (step :: rest) := by
  intro n r hr hpos hfuel
  obtain ⟨n, rfl⟩ : ∃ n', n = n' + 1 := ⟨n - 1, by omega⟩
  exact h n r hr hpos (by omega)

/-- Steps that are taken for a step. -/
theorem picks {steps : List Step} (h : Suffices c k i m b (steps ++ rest))
    (hpicks : step.Picks steps)
    (hpos : r.state.pos = i) (hfuel : (c.source.size - i) * k + m < n) (hr' : r.Stays c.net r') :
    Goes c (step :: rest) b r (exec n c (steps ++ rest) r') := by
  refine (h n r' hr'.clean (hr'.pos.trans hpos) hfuel).imp_right ?_
  rintro ⟨r'', heq, hclean, hwent, hempty⟩
  rw [hr'.frame, hr'.pos] at hwent
  rw [hr'.pos] at hempty
  exact ⟨r'', heq, hclean, .turn hpicks hwent, hempty⟩

theorem leave (h : Suffices c k i m b rest) (hpicks : step.Picks []) (hpos : r.state.pos = i)
    (hfuel : (c.source.size - i) * k + m < n) (hr' : r.Stays c.net r') :
    Goes c (step :: rest) b r (exec n c rest r') :=
  picks (show Suffices c k i m b ([] ++ rest) from h) hpicks hpos hfuel hr'

theorem nil : Suffices c k i 0 true [] := by
  intro n r hr _ hfuel
  obtain ⟨n, rfl⟩ : ∃ n', n = n' + 1 := ⟨n - 1, by omega⟩
  simp only [exec]
  exact .inr ⟨r, rfl, hr, .nil, fun _ => rfl⟩

variable {next back : Nat} {label : Option Label} {alts : List (List Step)} {body : List Step}

theorem read {kinds : KindSet} {only : Option Kind} (hsource : c.source.Ends)
    (hi : i < c.source.size) (hm : m ≤ k)
    (hlater : ∀ j, i < j → j < c.source.size → Suffices c k j m b rest)
    (hsame : kinds.contains .eof = true → Suffices c k i m' b rest) :
    Suffices c k i (kinds.height m') (kinds.contains .eof && b)
      (.read place next kinds only label :: rest) := by
  intro n r hr hpos hfuel
  obtain ⟨n, rfl⟩ : ∃ n', n = n' + 1 := ⟨n - 1, by omega⟩
  rw [exec]
  rcases Scope.readToken_goesOn (c := c) hr place next kinds only with hfoul | ⟨r', heq, hr',
    hkinds, hframe, hpos'⟩
  · exact .inl (hfoul.andThen fun r hsaid => Minds.exec n c rest _ hsaid)
  rw [heq]
  have hclean : Run.Clean c.net { r' with frame := r'.frame.name label } :=
    ⟨hr'.silent, hr'.ready, hr'.memory⟩
  rw [hpos] at hkinds hpos'
  -- Only the end of the text is read without getting on.
  have hrest : Goes c rest (kinds.contains .eof && b || decide (i < r'.state.pos))
      { r' with frame := r'.frame.name label }
      (exec n c rest { r' with frame := r'.frame.name label }) := by
    by_cases heof : c.source.kind i = .eof
    · rw [Source.after, if_pos heof] at hpos'
      rw [heof] at hkinds
      rw [KindSet.height, if_pos hkinds] at hfuel
      refine ((hsame hkinds).mono (Nat.le_refl _) fun hb => ?_) n _ hclean hpos' (by omega)
      rw [hkinds, hb]
      rfl
    · have hgoes := hlater (i + 1) (Nat.lt_succ_self i) (hsource i heof)
      rw [Source.after, if_neg heof] at hpos'
      have hdrop := mul_add_le_mul_of_lt (k := k) (Nat.lt_succ_self i) hi
      have hpositive := kinds.height_pos m'
      rw [Nat.succ_eq_add_one] at hdrop
      refine (hgoes.mono (Nat.le_refl _) fun _ => ?_) n _ hclean hpos' (by omega)
      rw [hpos', decide_eq_true (Nat.lt_succ_self i), Bool.or_true]
  refine hrest.imp_right ?_
  rintro ⟨r'', heq', hclean', hwent, hempty⟩
  simp only [hframe, hpos'] at hwent
  refine ⟨r'', heq', hclean', ?_, fun hsame' => ?_⟩
  · rw [hpos]
    rw [hpos] at hwent
    exact .read hkinds hwent
  · have hle := hwent.le
    have hle' := c.source.le_after i
    have hstay : r''.state.pos = r'.state.pos ∧ ¬ i < r'.state.pos := by omega
    simpa [hstay.2] using hempty hstay.1

theorem call {level : Nat} {rule : RuleName} {h : Nat} (hsource : c.source.Ends)
    (hi : i < c.source.size) (hm : m ≤ k)
    (hcallee : Suffices (c.called next rule level) k i h b' (c.net.steps rule))
    (hlater : ∀ j, i < j → j < c.source.size → Suffices c k j m b rest)
    (hsame : b' = true → Suffices c k i m' b rest) :
    Suffices c k i (max h (if b' then m' else 0) + 1) (b' && b)
      (.call place next rule level label :: rest) := by
  refine of_succ fun n r hr hpos hfuel => ?_
  let inner := c.called next rule level
  have hbegin : (inner.begin (r.goTo place).state).Clean c.net := ⟨hr.silent, hr.ready, hr.memory⟩
  have hgoes := hcallee n (inner.begin (r.goTo place).state) hbegin hpos
    (show (c.source.size - i) * k + h < n by omega)
  rw [exec]
  change Goes c _ _ r (exec n c rest ⟨((r.goTo place).frame.add
    (inner.finish (exec n inner (c.net.steps rule) (inner.begin (r.goTo place).state))).1).name
      label,
    (inner.finish (exec n inner (c.net.steps rule) (inner.begin (r.goTo place).state))).2⟩)
  rcases hgoes with hfoul | ⟨r', heq, hr', hwent, hempty⟩
  · exact .inl (.of_said (Minds.exec n c rest _ (Scope.finish_said hfoul)))
  rw [heq]
  let after : Run := ⟨((r.goTo place).frame.add (inner.finish (.done r')).1).name label,
    (inner.finish (.done r')).2⟩
  have hafter : after.Clean c.net := ⟨hr'.silent, hr'.ready, hr'.memory⟩
  have hle : i ≤ r'.state.pos := hpos ▸ hwent.le
  have hlt : r'.state.pos < c.source.size := hwent.lt_size hsource (hpos.symm ▸ hi)
  -- Either the rule has read something, or it can be empty and its caller gets on.
  have hrest : Goes c rest (b' && b || decide (i < r'.state.pos)) after (exec n c rest after) := by
    by_cases hstay : r'.state.pos = i
    · have hb' : b' = true := hempty (hstay.trans hpos.symm)
      rw [if_pos hb'] at hfuel
      refine ((hsame hb').mono (Nat.le_refl _) fun hb => ?_) n after hafter hstay (by omega)
      rw [hb', hb]
      rfl
    · have hlater' : i < r'.state.pos := Nat.lt_of_le_of_ne hle (Ne.symm hstay)
      have hdrop := mul_add_le_mul_of_lt (k := k) hlater' hi
      refine ((hlater _ hlater' hlt).mono (Nat.le_refl _) fun _ => ?_) n after hafter rfl (by omega)
      rw [decide_eq_true hlater', Bool.or_true]
  refine hrest.imp_right ?_
  rintro ⟨r'', heq', hclean, hwent', hempty'⟩
  refine ⟨r'', heq', hclean, .call hwent hwent', fun hsame' => ?_⟩
  have hle' : r'.state.pos ≤ r''.state.pos := hwent'.le
  have hstay : r''.state.pos = r'.state.pos ∧ ¬ i < r'.state.pos := by omega
  simpa [hstay.2] using hempty' hstay.1

theorem choose (hnet : c.net.Ordered) (hcount : c.net.targetCount decision = alts.length)
    (h : ∀ alt ∈ alts, Suffices c k i m b (alt ++ rest)) :
    Suffices c k i (m + 1) b (.choose place decision alts :: rest) := by
  refine of_succ fun n r hr hpos hfuel => ?_
  rw [exec]
  refine .andThen (Scope.syncAtStart_goesOn hr place) (.choose (fun i => .exec n c _) decision)
    fun r₁ hr₁ => goes_choose hnet hr₁ (fun i => .exec n c _) fun i r₂ hi hr₂ => ?_
  rw [List.getElem?_eq_getElem (hcount ▸ hi), Option.getD_some]
  exact (h _ (List.getElem_mem _)).picks (List.getElem_mem _) hpos hfuel hr₂

theorem optionally (h : ∀ alt ∈ alts, Suffices c k i m b (alt ++ rest))
    (hrest : Suffices c k i m b rest) :
    Suffices c k i (m + 1) b (.optionally place decision alts :: rest) := by
  refine of_succ fun n r hr hpos hfuel => ?_
  rw [exec]
  refine .andThen (Scope.syncAtStart_goesOn hr place)
    (.chooseAmong (fun i => .exec n c _) (.exec n c rest) decision _)
    fun r₁ hr₁ => goes_chooseAmong hr₁ (fun i => .exec n c _) (.exec n c rest)
      (fun i r₂ hi hr₂ => ?_) fun r₂ hr₂ => ?_
  · rw [List.getElem?_eq_getElem hi, Option.getD_some]
    exact (h _ (List.getElem_mem _)).picks (.inl (List.getElem_mem _)) hpos hfuel hr₂
  · exact leave hrest (.inr rfl) hpos hfuel hr₂

theorem many {again : Bool}
    (h : Suffices c k i m b (body ++ .many true place back decision body :: rest))
    (hrest : Suffices c k i m b rest) :
    Suffices c k i (m + 1) b (.many again place back decision body :: rest) := by
  refine of_succ fun n r hr hpos hfuel => ?_
  rw [List.append_cons] at h
  rw [exec]
  refine .andThen (Scope.sync_goesOn hr again place back)
    (.chooseAmong (fun _ => .exec n c _) (.exec n c rest) decision 1)
    fun r₁ hr₁ => goes_chooseAmong hr₁ (fun _ => .exec n c _) (.exec n c rest)
      (fun i r₂ _ hr₂ => ?_) fun r₂ hr₂ => ?_
  · rw [List.append_cons]
    exact h.picks (.inl rfl) hpos hfuel hr₂
  · exact leave hrest (.inr rfl) hpos hfuel hr₂

theorem some (h : Suffices c k i m b (body ++ .many true place back decision body :: rest)) :
    Suffices c k i (m + 1) b (.some place back decision body :: rest) := by
  refine of_succ fun n r hr hpos hfuel => ?_
  rw [List.append_cons] at h
  rw [exec]
  refine .andThen (Scope.syncAtStart_goesOn hr place) (.exec n c _) fun r₁ hr₁ => ?_
  rw [List.append_cons]
  exact h.picks (show Step.Picks (.some place back decision body) _ from rfl) hpos hfuel hr₁

theorem become {form : Form} (h : Suffices c k i m b rest) :
    Suffices c k i (m + 1) b (.become form :: rest) := by
  refine of_succ fun n r hr hpos hfuel => ?_
  rw [exec]
  refine (h n { r with frame := { r.frame with form } } ⟨hr.silent, hr.ready, hr.memory⟩ hpos
    hfuel).imp_right ?_
  rintro ⟨r', heq, hclean, hwent, hempty⟩
  exact ⟨r', heq, hclean, .become hwent, hempty⟩

end Suffices

/-- What is done for an operator of a climbing rule: the node becomes its operand, if its level is
high enough. -/
def Scope.climbOn (n : Nat) (c : Scope) (ops : List (Form × Nat × Nat × List Step))
    (rest : List Step) (i : Nat) (r : Run) :
    Outcome :=
  (ops[i]?).elim (.done r) fun op =>
    if c.level ≤ op.2.1 then exec n c (op.2.2.2 ++ rest) ((c.takeOperand op.1 r).goTo op.2.2.1)
    else .failed .tooLow ((c.takeOperand op.1 r).goTo op.2.2.1)

theorem exec_climb (n : Nat) (c : Scope) (again : Bool)
    (place back decision inner innerDecision : Nat)
    (ops : List (Form × Nat × Nat × List Step)) (rest : List Step) (r : Run) :
    exec (n + 1) c (.climb again place back decision inner innerDecision ops :: rest) r =
      (if again then c.syncAtTurn back r else c.syncAtStart place r).andThen fun r =>
        c.chooseAmong decision 1 r (fun _ r =>
          let left := r.onState (State.log (.exit r.frame.form))
          let take := c.climbOn n ops
            (.climb true place back decision inner innerDecision ops :: rest)
          if ops.length = 1 then take 0 left
          else (c.syncAtStart inner left).andThen fun r => c.choose innerDecision r take)
            (exec n c rest) := by
  rw [exec]
  congr 1
  funext r
  congr 1
  funext _ r
  refine ite_congr rfl (fun _ => ?_) fun _ => ?_
  · unfold Scope.climbOn
    beta_reduce
    cases ops[0]? <;> rfl
  · congr 1
    funext r
    congr 1
    funext i r
    unfold Scope.climbOn
    cases ops[i]? <;> rfl

theorem Minds.climbOn (n : Nat) (c : Scope) (ops : List (Form × Nat × Nat × List Step))
    (rest : List Step) (i : Nat) :
    Minds (c.climbOn n ops rest i) := by
  intro r h
  unfold Scope.climbOn
  cases ops[i]? with
  | none => exact h
  | some op =>
    rw [Option.elim_some]
    split
    · exact Minds.exec n c _ _ h
    · exact h

theorem Suffices.climb (hnet : c.net.Ordered) {again : Bool}
    {place back decision inner innerDecision : Nat}
    {ops : List (Form × Nat × Nat × List Step)}
    (hcount : c.net.targetCount innerDecision = ops.length)
    (h : ∀ op ∈ ops, Suffices c k i m b
      (op.2.2.2 ++ .climb true place back decision inner innerDecision ops :: rest))
    (hrest : Suffices c k i m b rest) :
    Suffices c k i (m + 1) b (.climb again place back decision inner innerDecision ops ::
      rest) := by
  refine of_succ fun n r hr hpos hfuel => ?_
  rw [exec_climb]
  let take := c.climbOn n ops (.climb true place back decision inner innerDecision ops :: rest)
  let turn (r : Run) : Outcome :=
    let left := r.onState (State.log (.exit r.frame.form))
    if ops.length = 1 then take 0 left else (c.syncAtStart inner left).andThen fun r =>
      c.choose innerDecision r take
  have hmindsTake (i : Nat) : Minds (take i) := Minds.climbOn n c ops _ i
  have hmindsTurn : Minds turn := by
    intro r h
    simp only [turn]
    split
    · exact hmindsTake 0 _ h
    · exact Minds.andThen (fun r => c.reads_syncAtStart r inner)
        (Minds.choose hmindsTake innerDecision) _ h
  have htake (l : Nat) (r' : Run) (hl : l < ops.length) (hr' : r.Stays c.net r') :
      Goes c (.climb again place back decision inner innerDecision ops :: rest) b r
        (take l r') := by
    rcases hop : ops[l]? with _ | ⟨form, level, guard, steps⟩
    · rw [List.getElem?_eq_none_iff] at hop
      omega
    simp only [take, Scope.climbOn, hop, Option.elim_some]
    split
    · next hlevel =>
      let r'' := (c.takeOperand form r').goTo guard
      have hstart : r''.frame = ⟨form, r.frame.start, [r.frame.closed c.source r.state.pos],
          []⟩ := by
        rw [← hr'.frame, ← hr'.pos]
        rfl
      have hsame : r''.state.pos = r.state.pos := hr'.pos
      have hclean : r''.Clean c.net := ⟨hr'.clean.silent, hr'.clean.ready, hr'.clean.memory⟩
      refine (h _ (List.mem_of_getElem? hop) n r'' hclean (hsame.trans hpos) hfuel).imp_right ?_
      rintro ⟨r₃, heq, hclean, hwent, hempty⟩
      rw [hstart, hsame] at hwent
      exact ⟨r₃, heq, hclean, .operand (List.mem_of_getElem? hop) hlevel hwent, fun h =>
        hempty (h.trans hsame.symm)⟩
    · exact .inl (.of_failed nofun hr'.clean.ready)
  have hturn (r' : Run) (hr' : r.Stays c.net r') :
      Goes c (.climb again place back decision inner innerDecision ops :: rest) b r (turn r') := by
    let left := r'.onState (State.log (.exit r'.frame.form))
    have hleft : left.Clean c.net := ⟨hr'.clean.silent, hr'.clean.ready, hr'.clean.memory⟩
    simp only [turn]
    split
    · next hone => exact htake 0 left (by omega) ⟨hleft, hr'.frame, hr'.pos⟩
    · refine .andThen (r := r) ?_ (Minds.choose hmindsTake innerDecision) fun r₁ hr₁ => ?_
      · refine (Scope.syncAtStart_goesOn hleft inner).imp_right ?_
        rintro ⟨r₁, heq, hr₁, hframe₁, hpos₁⟩
        exact ⟨r₁, heq, hr₁, hframe₁.trans hr'.frame, hpos₁.trans hr'.pos⟩
      · exact goes_choose hnet hr₁ hmindsTake fun l r₂ hl hr₂ => htake l r₂ (hcount ▸ hl) hr₂
  refine .andThen (Scope.sync_goesOn hr again place back)
    (Minds.chooseAmong (fun _ => hmindsTurn) (Minds.exec n c rest) decision 1) fun r₁ hr₁ => ?_
  refine goes_chooseAmong hr₁ (fun _ => hmindsTurn) (Minds.exec n c rest)
    (fun _ r₂ _ hr₂ => hturn r₂ hr₂) fun r₂ hr₂ => ?_
  exact leave hrest rfl hpos hfuel hr₂

end Exec

/-! ## Steps that stand for elements -/

/-- A scope at a position from which the rules can be called: there, those of less than a height,
and all of them later. -/
structure Scope.Ready (g : Gauge) (bound k i height : Nat) (c : Scope) : Prop where
  bound_le : bound ≤ k
  ordered : c.net.Ordered
  ends : c.source.Ends
  lt : i < c.source.size
  now : ∀ stack rule level, g.height rule < height →
    Suffices ⟨c.net, c.source, stack, rule, level⟩ k i (g.height rule) (g.nullable rule)
      (c.net.steps rule)
  later : ∀ j, i < j → j < c.source.size → ∀ stack rule level,
    Suffices ⟨c.net, c.source, stack, rule, level⟩ k j (g.height rule) (g.nullable rule)
      (c.net.steps rule)

theorem Scope.Ready.after {height : Nat} (h : c.Ready g bound k i height) (hij : i < j)
    (hj : j < c.source.size) (height' : Nat) : c.Ready g bound k j height' :=
  ⟨h.bound_le, h.ordered, h.ends, hj, fun stack rule level _ => h.later j hij hj stack rule level,
    fun j' hij' => h.later j' (Nat.lt_trans hij hij')⟩

section Elements

variable {g : Gauge} {bound k i h m n : Nat} {b : Bool} {c : Scope} {rest : List Step}

theorem TurnCoded.suffices {alts : List (List Element)} {body : List Step}
    (hbody : TurnCoded c.net.targetCount alts body)
    (hnet : c.net.Ordered) (halts : ∀ codes, AltsCoded c.net.targetCount alts codes →
      ∀ code ∈ codes, Suffices c k i m b (code ++ rest)) : Suffices c k i (m + 1) b
        (body ++ rest) := by
  cases hbody with
  | only hcode => exact (halts _ (.cons hcode .nil) _ List.mem_cons_self).mono (Nat.le_succ _) id
  | among hcodes hcount => exact .choose hnet hcount (halts _ hcodes)

/-- A turn of a loop that reads something: the next turn is at a later position, so in the end the
loop is left. -/
theorem suffices_turn {place back decision : Nat} {alts : List (List Element)} {body : List Step}
    (hbody : TurnCoded c.net.targetCount alts body) (hready : c.Ready g bound k i h)
    (hheight : n ≤ h) (hrest : ∀ j, i < j → j < c.source.size → Suffices c k j m b rest)
    (halts : ∀ codes, AltsCoded c.net.targetCount alts codes →
      ∀ j h', c.Ready g bound k j h' → n ≤ h' →
      (∀ l, j < l → l < c.source.size →
        Suffices c k l (max (n + 1) m + 1) b (.many true place back decision body :: rest)) →
      ∀ code ∈ codes,
        Suffices c k j n false (code ++ .many true place back decision body :: rest)) :
    Suffices c k i (n + 1) false (body ++ .many true place back decision body :: rest) := by
  have hloop : ∀ j < c.source.size, i < j →
      Suffices c k j (max (n + 1) m + 1) b (.many true place back decision body :: rest) := by
    refine forall_of_later fun j hj ih hij =>
      .many ?_ ((hrest j hij hj).mono (Nat.le_max_right _ _) id)
    have hturn := hbody.suffices hready.ordered fun codes hcodes =>
      halts codes hcodes j n (hready.after hij hj n)
      (Nat.le_refl _) fun l hjl hl => ih l hjl hl (Nat.lt_trans hij hjl)
    exact hturn.mono (Nat.le_max_left _ _) fun hb => by cases hb
  exact hbody.suffices hready.ordered fun codes hcodes => halts codes hcodes i h hready hheight
    fun j hij hj => hloop j hj hij

mutual

/-- Steps that stand for an element, followed by others: what follows is enough to know at later
positions, and at the same one only if the element can be empty. -/
theorem Element.Coded.suffices : ∀ (e : Element) {label : Option Label} {s : Step}
    {i h m n : Nat} {b : Bool}
    {rest : List Step}, e.Coded c.net.targetCount label s → c.Ready g bound k i h →
    e.height g n ≤ h → e.low g bound m = true →
    (∀ j, i < j → j < c.source.size → Suffices c k j m b rest) →
    (e.nullable g = true → Suffices c k i n b rest) →
    Suffices c k i (e.height g n) (e.nullable g && b) (s :: rest)
  | .token _, _, _, i, h, m, n, b, rest, .token, hready, _, hlow, hlater, hsame
  | .oneOf _, _, _, i, h, m, n, b, rest, .oneOf, hready, _, hlow, hlater, hsame =>
    .read hready.ends hready.lt (Nat.le_trans (of_decide_eq_true hlow) hready.bound_le) hlater hsame
  | .call r level, _, _, i, h, m, n, b, rest, .call, hready, hheight, hlow, hlater, hsame => by
    rw [Element.height] at hheight
    exact .call hready.ends hready.lt (Nat.le_trans (of_decide_eq_true hlow) hready.bound_le)
      (hready.now _ r level (by omega)) hlater hsame
  | .labelled _ e, _, _, _, _, _, _, _, _, .labelled hs, hready, hheight, hlow, hlater, hsame =>
    hs.suffices e hready hheight hlow hlater hsame
  | .choice alts, _, _, i, h, m, n, b, rest, .choice hcodes hcount, hready, hheight, hlow,
      hlater, hsame =>
    .choose hready.ordered hcount (hcodes.suffices alts hready (Nat.le_of_succ_le hheight) hlow
      hlater hsame)
  | .optional alts, _, _, i, h, m, n, b, rest, .optional hcodes, hready, hheight, hlow,
      hlater, hsame => by
    rw [Element.height] at hheight
    have halts := hcodes.suffices alts hready (by omega) hlow hlater fun _ => hsame rfl
    refine .optionally (fun alt halt => (halts alt halt).mono (Nat.le_max_left _ _) ?_)
      ((hsame rfl).mono (Nat.le_max_right _ _) id)
    exact fun hb => (Bool.and_eq_true_iff.mp hb).2
  | .many alts, _, _, i, h, m, n, b, rest, .many hbody, hready, hheight, hlow, hlater, hsame => by
    rw [Element.height] at hheight
    rw [Element.low, Bool.and_eq_true, Bool.not_eq_true'] at hlow
    refine .many ((suffices_turn hbody hready (by omega) hlater
      fun codes hcodes j h' hready' hle hnext => ?_).mono
      (Nat.le_max_left _ _) fun hb => by cases hb) ((hsame rfl).mono (Nat.le_max_right _ _) id)
    have hcode := hcodes.suffices alts hready' hle hlow.2 hnext fun hn =>
      absurd (hlow.1.symm.trans hn) Bool.false_ne_true
    rwa [hlow.1] at hcode
  | .some alts, _, _, i, h, m, n, b, rest, .some hbody, hready, hheight, hlow, hlater, hsame => by
    rw [Element.height] at hheight
    rw [Element.low, Bool.and_eq_true, Bool.not_eq_true'] at hlow
    refine .some ((suffices_turn hbody hready (by omega) hlater
      fun codes hcodes j h' hready' hle hnext => ?_).mono
      (Nat.le_refl _) fun hb => by cases hb)
    have hcode := hcodes.suffices alts hready' hle hlow.2 hnext fun hn =>
      absurd (hlow.1.symm.trans hn) Bool.false_ne_true
    rwa [hlow.1] at hcode

theorem SeqCoded.suffices : ∀ (es : List Element) {code : List Step} {i h m n : Nat} {b : Bool}
    {rest : List Step},
    SeqCoded c.net.targetCount es code → c.Ready g bound k i h → seqHeight g es n ≤ h →
    seqLow g bound es m = true →
    (∀ j, i < j → j < c.source.size → Suffices c k j m b rest) →
    (seqNullable g es = true → Suffices c k i n b rest) →
    Suffices c k i (seqHeight g es n) (seqNullable g es && b) (code ++ rest)
  | [], _, _, _, _, _, _, _, .nil, _, _, _, _, hsame => hsame rfl
  | e :: es, _ :: code, i, h, m, n, b, rest, .cons hs hcode, hready, hheight, hlow,
      hlater, hsame => by
    rw [seqHeight] at hheight
    rw [seqLow, Bool.and_eq_true] at hlow
    have hafter (j : Nat) (hij : i < j) (hj : j < c.source.size) :=
      hcode.suffices es (hready.after hij hj _) (Nat.le_refl _) hlow.2
        (fun l hjl => hlater l (Nat.lt_trans hij hjl))
        fun _ => hlater j hij hj
    have hhere (he : e.nullable g = true) : Suffices c k i (seqHeight g es n)
        (seqNullable g es && b) (code ++ rest) := by
      rw [if_pos he] at hheight
      exact hcode.suffices es hready (by omega) hlow.2 hlater fun hes =>
        hsame (by rw [seqNullable, he, hes]; rfl)
    refine (hs.suffices e hready (by omega) hlow.1 hafter hhere).mono
      (Nat.le_max_left _ _) fun hb => ?_
    rw [seqNullable, Bool.and_assoc]
    exact hb

theorem AltsCoded.suffices : ∀ (alts : List (List Element)) {codes : List (List Step)}
    {i h m n : Nat} {b : Bool}
    {rest : List Step}, AltsCoded c.net.targetCount alts codes → c.Ready g bound k i h →
    altsHeight g alts n ≤ h →
    altsLow g bound alts m = true → (∀ j, i < j → j < c.source.size → Suffices c k j m b rest) →
    (altsNullable g alts = true → Suffices c k i n b rest) →
    ∀ code ∈ codes, Suffices c k i (altsHeight g alts n) (altsNullable g alts && b) (code ++ rest)
  | [], _, _, _, _, _, _, _, .nil, _, _, _, _, _ => nofun
  | a :: as, _, i, h, m, n, b, rest, .cons hcode hcodes, hready, hheight, hlow, hlater, hsame => by
    rw [altsHeight] at hheight
    rw [altsLow, Bool.and_eq_true] at hlow
    rw [altsNullable, Bool.or_eq_true] at hsame
    refine List.forall_mem_cons.mpr ⟨?_, fun code hmem => ?_⟩
    · refine (hcode.suffices a hready (by omega) hlow.1 hlater fun ha => hsame (.inl ha)).mono
        (Nat.le_max_left _ _) fun hb => ?_
      rw [Bool.and_eq_true] at hb
      rw [altsNullable, hb.1, hb.2]
      rfl
    · refine (hcodes.suffices as hready (by omega) hlow.2 hlater (fun has => hsame (.inr has))
        code hmem).mono
        (Nat.le_max_right _ _) fun hb => ?_
      rw [Bool.and_eq_true] at hb
      rw [altsNullable, hb.1, hb.2, Bool.or_true]
      rfl

end

theorem suffices_climb {operators : List Operator} {ops : List (Form × Nat × Nat × List Step)}
    {again : Bool} {place back decision inner innerDecision : Nat} (hready : c.Ready g bound k i h)
    (hops : List.Forall₂ (Operator.Coded c.net.targetCount) operators ops)
    (hcount : c.net.targetCount innerDecision = ops.length)
    (hsolid : altsNullable g (operators.map Operator.parts) = false)
    (hlow : altsLow g bound (operators.map Operator.parts) (Production.loopHeight g operators) =
      true) :
    ∀ j, i < j → j < c.source.size → Suffices c k j (Production.loopHeight g operators) true
      [.climb again place back decision inner innerDecision ops] := by
  have hcodes : AltsCoded c.net.targetCount (operators.map Operator.parts)
      (ops.map fun op => op.2.2.2) :=
    .of_forall₂ hops fun o op hop => hop.2.2
  have hall : ∀ j < c.source.size, i < j → ∀ again,
      Suffices c k j (Production.loopHeight g operators) true
      [.climb again place back decision inner innerDecision ops] := by
    refine forall_of_later fun j hj ih hij again => .climb hready.ordered hcount (fun op hop => ?_)
      (Suffices.nil.mono (Nat.zero_le _) id)
    have hcode := hcodes.suffices (n := 0) _ (hready.after hij hj _) (Nat.le_refl _) hlow
      (fun l hjl hl => ih l hjl hl (Nat.lt_trans hij hjl) true)
        (fun hn => absurd (hsolid.symm.trans hn) Bool.false_ne_true)
      op.2.2.2 (List.mem_map_of_mem hop)
    exact hcode.mono (Nat.le_refl _) fun _ => rfl
  exact fun j hij hj => hall j hj hij again

/-- The steps of a right-hand side. -/
theorem Production.Coded.suffices {p : Production} {steps : List Step}
    (hsteps : p.Coded c.net.targetCount steps)
    (hready : c.Ready g bound k i (p.height g)) (hlow : p.low g bound = true) :
    Suffices c k i (p.height g) (p.nullable g) steps := by
  cases hsteps with
  | only hparts =>
    have hcode := (AltsCoded.cons hparts .nil).suffices _ hready (Nat.le_succ _) hlow
      (fun _ _ _ => .nil) (fun _ => .nil) steps
      List.mem_cons_self
    rw [List.append_nil, Bool.and_true] at hcode
    exact hcode.mono (Nat.le_succ _) id
  | among hcodes hcount =>
    have hcode := hcodes.suffices _ hready (Nat.le_succ _) hlow (fun _ _ _ => .nil) fun _ => .nil
    rw [Bool.and_true] at hcode
    exact .choose hready.ordered hcount hcode
  | @climbing primaries operators _ _ _ _ _ _ _ codes ops hprimaries hcount hops hinner =>
    simp only [Production.low, Bool.and_eq_true, Bool.not_eq_true'] at hlow
    obtain ⟨⟨hsolid, hlow⟩, hsolid', hlow'⟩ := hlow
    refine .choose hready.ordered hcount fun code hcode => ?_
    obtain ⟨p, hp, front, rfl, hfront⟩ := exists_of_forall₂ hprimaries hcode
    have hcodes : AltsCoded c.net.targetCount (primaries.map Primary.parts) (codes.map List.tail) :=
      .of_forall₂ hprimaries fun p code ⟨front, hcode, hfront⟩ => hcode ▸ hfront
    refine .become ((hcodes.suffices (n := 0) _ hready (Nat.le_add_right _ 2) hlow
      (suffices_climb hready hops hinner hsolid' hlow')
        (fun hn => absurd (hsolid.symm.trans hn) Bool.false_ne_true)
      front (List.mem_map_of_mem hcode)).mono (Nat.le_refl _) fun hn => ?_)
    rw [hsolid] at hn
    cases hn

end Elements

/-- **The steps of every rule suffice**, at every position: by the later positions, and by the rules
of less height. -/
theorem suffices_steps {grammar : RuleName → Production}
    (hcoded : ∀ r, (grammar r).Coded net.targetCount (net.steps r))
    (hfits : ∀ r, g.fits bound r (grammar r) = true) (hbound : bound ≤ k) (hordered : net.Ordered)
    (hends : source.Ends) :
    ∀ i < source.size, ∀ stack rule level,
      Suffices ⟨net, source, stack, rule, level⟩ k i (g.height rule) (g.nullable rule)
        (net.steps rule) := by
  refine forall_of_later fun i hi hlater stack rule level => ?_
  induction hheight : g.height rule using Nat.strongRecOn generalizing stack rule level with
  | _ height ih =>
    subst hheight
    have hrule := hfits rule
    simp only [Gauge.fits, Bool.and_eq_true, decide_eq_true_eq] at hrule
    obtain ⟨⟨hlow, hle⟩, hnullable⟩ := hrule
    have hready : Scope.Ready g bound k i ((grammar rule).height g) ⟨net, source, stack,
        rule, level⟩ :=
      ⟨hbound, hordered, hends, hi, fun stack' rule' level' hlt =>
        ih _ (Nat.lt_of_lt_of_le hlt hle) stack' rule' level' rfl, hlater⟩
    refine ((hcoded rule).suffices hready hlow).mono hle fun hn => ?_
    simpa [hn] using hnullable

/-- **A parse without complaints has taken the steps of its rule**, from the first token on. -/
theorem Engine.parseRule_went {rule : RuleName} {m : Nat} {b : Bool} (hm : m ≤ net.places.size)
    (hsteps : Suffices ⟨net, source, [], rule, 0⟩ (net.places.size + 2) 0 m b (net.steps rule))
    (h : ((Engine.ofNetwork net).parseRule rule source).complaints = []) :
    ∃ f j, Went ⟨net, source, [], rule, 0⟩ (net.steps rule)
      (Scope.opened ⟨net, source, [], rule, 0⟩ 0) 0 f j ∧
      ((Engine.ofNetwork net).parseRule rule source).tree = f.closed source j ∧
      ((Engine.ofNetwork net).parseRule rule source).next = source.token j := by
  let c : Scope := ⟨net, source, [], rule, 0⟩
  let fuel := (source.size + 2) * (net.places.size + 2)
  let first : State := ⟨0, 0, rule.start, false, none, [], [], [], .ofNetwork net⟩
  have hpos : (first.fetch source 0).pos = 0 := State.pos_fetch source 0 first
  let start : Run := c.begin (first.fetch source 0)
  have hstart : start.frame = c.opened 0 ∧ start.state.pos = 0 := by
    refine ⟨?_, hpos⟩
    simp only [start, Scope.begin, Scope.opened, hpos]
  let o := exec fuel c (net.steps rule) start
  have hsilent : (c.finish o).2.complaints = [] := by
    have hrev : (c.finish o).2.complaints.reverse = [] := h
    exact List.reverse_eq_nil_iff.mp hrev
  have hclean : start.Clean net := by
    refine ⟨?_, State.recovering_fetch source 0 first,
      (State.memory_fetch source 0 first).symm ▸ Memory.knows_ofNetwork net⟩
    by_contra hsaid
    refine absurd hsilent ?_
    rw [Scope.finish_eq]
    exact (c.reads_closing o).said ((exec_runs _ c _ start).said hsaid)
  have hfuel : (source.size - 0) * (net.places.size + 2) + m < fuel := by
    simp only [Nat.sub_zero, fuel, Nat.add_mul]
    omega
  rcases hsteps fuel start hclean hstart.2 hfuel with hfoul | ⟨r, heq, -, hwent, -⟩
  · exact absurd hsilent (Scope.finish_said hfoul)
  · rw [hstart.1, hstart.2] at hwent
    have htree : ((Engine.ofNetwork net).parseRule rule source).tree = (c.finish o).1 := rfl
    have hnext : ((Engine.ofNetwork net).parseRule rule source).next =
      source.token (c.finish o).2.pos := rfl
    refine ⟨r.frame, r.state.pos, hwent, ?_, ?_⟩
    · rw [htree, show o = .done r from heq]
      rfl
    · rw [hnext, show o = .done r from heq]
      rfl

end Coupling.Java
