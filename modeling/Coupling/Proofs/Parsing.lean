import Coupling.Java.Parsing.Parse

/-!
# What a parse can do

A parse follows the steps of its rules; which alternative it takes, what it skips and where it gives
up depends on the tokens and is hard to foresee. What it can do to the node it is in is little,
however: read leaves, and follow the steps in some way (`Runs`). Every parse is such a run
(`exec_runs`), so what holds of all of them holds of every tree that is made, of a text with or
without errors.

A node whose last token is unknown came to its end before the first token was read: nothing in it
stands in the text (`parse_ended`).
-/

namespace Coupling.Java

/-! ## Leaves that stand for nothing -/

/-- A leaf that stands for nothing in the text: a missing token or the end of the text. -/
def Leaf.blank : Leaf → Bool
  | .missing _ => true
  | .token t => decide (t.kind = .eof)
  | .skipped t => decide (t.kind = .eof)

/-- A tree of which nothing stands in the text. -/
def ParseTree.blank (t : ParseTree) : Bool := t.leaves.all Leaf.blank

theorem ParseTree.leavesOf_eq_flatMap (ts : List ParseTree) : leavesOf ts = ts.flatMap leaves := by
  induction ts with
  | nil => rfl
  | cons t ts ih => rw [leavesOf, ih, List.flatMap_cons]

variable {ts : List ParseTree} {t : ParseTree} {source : Source} {r : Run}

theorem mem_leavesOf {l : Leaf} : l ∈ ParseTree.leavesOf ts ↔ ∃ t ∈ ts, l ∈ t.leaves := by
  rw [ParseTree.leavesOf_eq_flatMap, List.mem_flatMap]

theorem ParseTree.blank_node {info : NodeInfo} {cs : List ParseTree} :
    (node info cs).blank = true ↔ ∀ c ∈ cs, c.blank = true := by
  simp only [blank, leaves, List.all_eq_true, mem_leavesOf]
  constructor
  · intro h c hc l hl
    exact h l ⟨c, hc, hl⟩
  · rintro h l ⟨c, hc, hl⟩
    exact h c hc l hl

/-- The token of the text that a leaf stands for. -/
def Leaf.taken? : Leaf → Option Token
  | .missing _ => none
  | .token t => if t.kind = .eof then none else some t
  | .skipped t => if t.kind = .eof then none else some t

/-- The tokens of the text that the leaves of a tree stand for, in order. -/
def ParseTree.taken (t : ParseTree) : List Token := t.leaves.filterMap Leaf.taken?

theorem ParseTree.blank_of_taken (h : t.taken = []) : t.blank = true := by
  rw [taken, List.filterMap_eq_nil_iff] at h
  refine List.all_eq_true.mpr fun l hl => ?_
  have hnone := h l hl
  cases l with
  | missing k => rfl
  | token t | skipped t => simpa [Leaf.taken?, Leaf.blank] using hnone

theorem ParseTree.taken_node (info : NodeInfo) (cs : List ParseTree) :
    (node info cs).taken = cs.flatMap taken := by
  unfold taken
  rw [leaves, leavesOf_eq_flatMap, List.filterMap_flatMap]

/-- The tokens of a source from one position up to another. -/
def Source.between (source : Source) (i j : Nat) : List Token :=
  (List.range' i (j - i)).map source.token

namespace Source

variable {source : Source}

@[simp] theorem between_self (i : Nat) : source.between i i = [] := by simp [between]

theorem between_succ (i : Nat) : source.between i (i + 1) = [source.token i] := by simp [between]

theorem between_append {i j k : Nat} (hij : i ≤ j) (hjk : j ≤ k) :
    source.between i j ++ source.between j k = source.between i k := by
  have hmid : i + (j - i) = j := Nat.add_sub_of_le hij
  have hsum : j - i + (k - j) = k - i := by omega
  have hrange := List.range'_append_1 (s := i) (m := j - i) (n := k - j)
  rw [hmid, hsum] at hrange
  rw [between, between, between, ← List.map_append, hrange]

end Source

/-! ## Reading -/

/-- One run comes from another by reading leaves, which stand for the tokens that the parse has
passed, and by complaining. -/
structure Run.Reads (source : Source) (r r' : Run) : Prop where
  said : r.state.complaints ≠ [] → r'.state.complaints ≠ []
  form : r'.frame.form = r.frame.form
  le : r.state.pos ≤ r'.state.pos
  leaves : ∃ new, r'.frame.children = new ++ r.frame.children ∧ (∀ t ∈ new, t.rule? = none) ∧
    new.reverse.flatMap ParseTree.taken = source.between r.state.pos r'.state.pos

namespace Run.Reads

variable {source : Source} {r r' r'' : Run}

theorem of_same (hsaid : r.state.complaints ≠ [] → r'.state.complaints ≠ [])
    (hform : r'.frame.form = r.frame.form)
    (hchildren : r'.frame.children = r.frame.children) (hpos : r'.state.pos = r.state.pos) :
    r.Reads source r' :=
  ⟨hsaid, hform, Nat.le_of_eq hpos.symm, [], hchildren, (fun _ ht => by cases ht),
    by rw [hpos, Source.between_self]; rfl⟩

theorem refl (r : Run) : r.Reads source r := of_same id rfl rfl rfl

theorem trans (h : r.Reads source r') (h' : r'.Reads source r'') : r.Reads source r'' := by
  obtain ⟨new, hnew, hleaves, htaken⟩ := h.leaves
  obtain ⟨new', hnew', hleaves', htaken'⟩ := h'.leaves
  refine ⟨fun hsaid => h'.said (h.said hsaid), h'.form.trans h.form, Nat.le_trans h.le h'.le,
    new' ++ new, ?_, fun t ht => ?_, ?_⟩
  · rw [hnew', hnew, List.append_assoc]
  · rcases List.mem_append.mp ht with ht | ht
    · exact hleaves' t ht
    · exact hleaves t ht
  · rw [List.reverse_append, List.flatMap_append, htaken, htaken', Source.between_append h.le h'.le]

theorem add {t : ParseTree} {s : State} (hsaid : r.state.complaints ≠ [] → s.complaints ≠ [])
    (hrule : t.rule? = none)
    (hle : r.state.pos ≤ s.pos) (htaken : t.taken = source.between r.state.pos s.pos) :
    r.Reads source ⟨r.frame.add t, s⟩ :=
  ⟨hsaid, rfl, hle, [t], rfl, (fun t' ht' => by rw [List.mem_singleton.mp ht']; exact hrule),
    by simpa using htaken⟩

theorem name (r : Run) (l : Option Label) : r.Reads source { r with frame := r.frame.name l } := by
  cases l <;> exact of_same id rfl rfl rfl

/-- As long as no token was read, the leaves stand for nothing. -/
theorem blank (h : r.Reads source r') (hpos : r'.state.pos = 0) :
    ∃ new, r'.frame.children = new ++ r.frame.children ∧ ∀ t ∈ new, t.rule? = none ∧
    t.blank = true := by
  obtain ⟨new, hnew, hleaves, htaken⟩ := h.leaves
  have hfirst : r.state.pos = 0 := Nat.le_zero.mp (hpos ▸ h.le)
  rw [hfirst, hpos, Source.between_self, List.flatMap_eq_nil_iff] at htaken
  exact ⟨new, hnew, fun t ht =>
    ⟨hleaves t ht, ParseTree.blank_of_taken (htaken t (List.mem_reverse.mpr ht))⟩⟩

end Run.Reads

open Run (Reads)

theorem State.pos_fetch (source : Source) (i : Nat) (s : State) :
    (s.fetch source i).pos = s.pos := by
  unfold State.fetch
  simp only
  split <;> rfl

theorem State.said_fetch (source : Source) (i : Nat) (s : State) (h : s.complaints ≠ []) :
    (s.fetch source i).complaints ≠ [] := by
  unfold State.fetch
  simp only
  split
  · exact fun hnil => h (List.append_eq_nil_iff.mp hnil).2
  · exact h

theorem Run.reads_onState (r : Run) {f : State → State}
    (hsaid : r.state.complaints ≠ [] → (f r.state).complaints ≠ [])
    (hf : (f r.state).pos = r.state.pos) :
    r.Reads source (r.onState f) :=
  .of_same hsaid rfl rfl hf

theorem Run.reads_fetch (r : Run) (i : Nat) : r.Reads source (r.onState (State.fetch source i)) :=
  r.reads_onState (State.said_fetch source i r.state) (State.pos_fetch source i r.state)

theorem Run.reads_goTo (r : Run) (place : Nat) : r.Reads source (r.goTo place) :=
  .of_same id rfl rfl rfl

/-- A token that is read is a leaf; only the end of the text can be read without getting on. -/
theorem Run.reads_consume (source : Source) (r : Run) : r.Reads source (r.consume source) := by
  have hread (s : State) (hsaid : r.state.complaints ≠ [] → s.complaints ≠ [])
      (hle : r.state.pos ≤ s.pos)
      (htaken : (ParseTree.token (source.token r.state.pos)).taken =
        source.between r.state.pos s.pos) :
      r.Reads source (if s.recovering
        then ⟨r.frame.add (.skipped (source.token r.state.pos)),
          s.log (.skipped (source.token r.state.pos))⟩
        else ⟨r.frame.add (.token (source.token r.state.pos)),
          s.log (.token (source.token r.state.pos))⟩) := by
    split
    · exact .add hsaid rfl hle htaken
    · exact .add hsaid rfl hle htaken
  unfold Run.consume
  simp only
  split
  · next heof => exact hread r.state id (Nat.le_refl _) (by simp [ParseTree.taken, ParseTree.leaves,
      Leaf.taken?, heof])
  · next hkind =>
    refine hread _ (fun hsaid => State.said_fetch _ _ _ hsaid) ?_ ?_
    · rw [State.pos_fetch]
      exact Nat.le_succ _
    · rw [State.pos_fetch, Source.between_succ]
      simp [ParseTree.taken, ParseTree.leaves, Leaf.taken?, hkind]

theorem Run.reads_consumeUntil (source : Source) (stop : KindSet) (n : Nat) (r : Run) :
    r.Reads source (r.consumeUntil source stop n) := by
  induction n generalizing r with
  | zero => exact .refl r
  | succ n ih =>
    rw [Run.consumeUntil]
    split
    · exact .refl r
    · exact (r.reads_consume source).trans (ih _)

/-- The run that a stretch of a parse led to. -/
def Outcome.run : Outcome → Run
  | .done r => r
  | .failed _ r => r

namespace Scope

variable (c : Scope) (r : Run)

theorem reads_complain (f : Fault) : r.Reads c.source (c.complain f r) := by
  unfold complain
  split
  · exact .refl r
  · exact r.reads_onState (fun _ => List.cons_ne_nil _ _) rfl

theorem reads_unwanted : r.Reads c.source (c.unwanted r) := c.reads_complain r _

theorem reads_skipOne? : r.Reads c.source (c.skipOne? r).2 := by
  have hfetch : r.Reads c.source (r.onState (State.fetch c.source (r.state.pos + 1))) :=
    r.reads_fetch _
  unfold skipOne?
  simp only
  split
  · refine hfetch.trans ((c.reads_unwanted _).trans ?_)
    exact (Run.reads_consume c.source _).trans (Run.reads_onState _ id rfl)
  · exact hfetch

theorem reads_bridge (next : Nat) (only : Option Kind) :
    r.Reads c.source (c.bridge next only r).run := by
  have hskip := c.reads_skipOne? r
  unfold bridge
  split
  · next r' hr =>
    rw [hr] at hskip
    exact hskip.trans (r'.reads_consume c.source)
  · next r' hr =>
    rw [hr] at hskip
    split
    · have hsaid := hskip.trans
        (c.reads_complain r' (.missing (c.expected r') (c.current r').shown))
      cases only with
      | none => exact hsaid
      | some k =>
        exact hsaid.trans (.add id rfl (Nat.le_refl _)
          (by simp [ParseTree.taken, ParseTree.leaves, Leaf.taken?]))
    · exact hskip

theorem reads_readToken (place next : Nat) (kinds : KindSet) (only : Option Kind) :
    r.Reads c.source (c.readToken place next kinds only r).run := by
  unfold readToken
  simp only
  split
  · exact (r.reads_goTo place).trans ((Run.reads_onState _ id rfl).trans
      (Run.reads_consume c.source _))
  · exact (r.reads_goTo place).trans (c.reads_bridge _ next only)

theorem reads_syncAtStart (place : Nat) : r.Reads c.source (c.syncAtStart place r).run := by
  have hskip := (r.reads_goTo place).trans (c.reads_skipOne? (r.goTo place))
  unfold syncAtStart
  simp only
  split
  · exact r.reads_goTo place
  · split
    · next r' hr =>
      rw [hr] at hskip
      exact hskip
    · next r' hr =>
      rw [hr] at hskip
      exact hskip

theorem reads_syncAtTurn (place : Nat) : r.Reads c.source (c.syncAtTurn place r).run := by
  unfold syncAtTurn
  simp only
  split
  · exact r.reads_goTo place
  · exact (r.reads_goTo place).trans ((c.reads_unwanted _).trans (Run.reads_consumeUntil _ _ _ _))

theorem reads_sync (again : Bool) (place back : Nat) :
    r.Reads c.source (if again then c.syncAtTurn back r else c.syncAtStart place r).run := by
  split
  · exact c.reads_syncAtTurn r back
  · exact c.reads_syncAtStart r place

theorem reads_decide (decision : Nat) : r.Reads c.source (c.decide decision r).2 := by
  unfold Scope.decide
  split
  · split <;> exact .refl r
  · simp only
    split
    · exact .of_same (fun hsaid => State.said_fetch _ _ _ hsaid) rfl rfl (State.pos_fetch _ _ _)
    · exact .of_same (fun hsaid => State.said_fetch _ _ _ hsaid) rfl rfl (State.pos_fetch _ _ _)

theorem reads_report (why : Failure) : r.Reads c.source (c.report why r) := by
  unfold report
  split
  · exact .refl r
  · cases why with
    | noViable first offending =>
      exact .of_same (fun _ => List.cons_ne_nil _ _) rfl rfl (State.pos_fetch _ _ _)
    | mismatch expected | tooLow => exact c.reads_complain r _
    | exhausted => exact .refl r

theorem reads_recover : r.Reads c.source (c.recover r) := by
  have hfirst : r.Reads c.source
      (if r.state.lastFault = some r.state.pos ∧ r.state.place ∈ r.state.faultPlaces
      then r.consume c.source else r) := by
    split
    · exact r.reads_consume c.source
    · exact .refl r
  unfold recover
  exact hfirst.trans ((Run.reads_onState _ id rfl).trans (Run.reads_consumeUntil _ _ _ _))

end Scope

/-! ## Runs -/

/-- The steps that may be taken instead of a step. -/
def Step.Turns : Step → List Step → Prop
  | .read _ _ _ _ _, steps => steps = []
  | .choose _ _ alts, steps => steps ∈ alts ∨ steps = []
  | .optionally _ _ alts, steps => steps ∈ alts ∨ steps = []
  | .many _ place back decision body, steps =>
    steps = body ++ [.many true place back decision body] ∨ steps = []
  | .some place back decision body, steps => steps = body ++ [.many true place back decision body]
  | .climb _ _ _ _ _ _ _, steps => steps = []
  | _, _ => False

/-- Closes the node of a called rule. -/
def Run.close (r : Run) (source : Source) (label : Option Label) (inner : Run) : Run :=
  ⟨(r.frame.add (inner.frame.tree (inner.state.previous source))).name label,
    inner.state.log (.exit inner.frame.form)⟩

/-- What steps can make of the node that a parse is in: they are taken in some way, and may be given
up at any time. -/
inductive Runs : Scope → List Step → Run → Run → Prop where
  | stop {c : Scope} {code : List Step} {r : Run} : Runs c code r r
  | reads {c : Scope} {code : List Step} {r r' r'' : Run} : r.Reads c.source r' →
    Runs c code r' r'' → Runs c code r r''
  | turn {c : Scope} {step : Step} {steps rest : List Step} {r r' : Run} :
      step.Turns steps → Runs c (steps ++ rest) r r' → Runs c (step :: rest) r r'
  | call {c : Scope} {place next : Nat} {rule : RuleName} {level : Nat} {label : Option Label}
      {rest : List Step}
      {r inner r' : Run} :
      Runs { c with stack := next :: c.stack, rule, level } (c.net.steps rule)
        (Scope.begin { c with stack := next :: c.stack, rule, level } r.state) inner →
      Runs c rest (r.close c.source label inner) r' →
      Runs c (.call place next rule level label :: rest) r r'
  | become {c : Scope} {form : Form} {rest : List Step} {r r' : Run} :
      Runs c rest { r with frame := { r.frame with form } } r' → Runs c (.become form :: rest) r r'
  | operand {c : Scope} {again : Bool} {place back decision inner innerDecision : Nat}
      {ops : List (Form × Nat × Nat × List Step)} {op : Form × Nat × Nat × List Step}
        {rest : List Step} {r r' : Run} :
      op ∈ ops →
      Runs c (op.2.2.2 ++ .climb true place back decision inner innerDecision ops :: rest)
        (c.takeOperand op.1 r) r' →
      Runs c (.climb again place back decision inner innerDecision ops :: rest) r r'

namespace Runs

variable {c : Scope} {code : List Step} {r r' r'' : Run}

/-- What was complained about is not taken back. -/
theorem said (h : Runs c code r r') (hr : r.state.complaints ≠ []) : r'.state.complaints ≠ [] := by
  induction h with
  | stop => exact hr
  | reads hreads _ ih => exact ih (hreads.said hr)
  | turn _ _ ih => exact ih hr
  | call _ _ ihinner ih => exact ih (ihinner hr)
  | become _ ih | operand _ _ ih => exact ih hr

/-- After the steps something may be read. -/
theorem andReads (h : Runs c code r r') (hreads : r'.Reads c.source r'') : Runs c code r r'' := by
  induction h with
  | stop => exact .reads hreads .stop
  | reads hfirst _ ih => exact .reads hfirst (ih hreads)
  | turn hsteps _ ih => exact .turn hsteps (ih hreads)
  | call hinner _ _ ih => exact .call hinner (ih hreads)
  | become _ ih => exact .become (ih hreads)
  | operand hop _ ih => exact .operand hop (ih hreads)

theorem andThen {o : Outcome} {f : Run → Outcome} (ho : r.Reads c.source o.run)
    (hf : ∀ r', Runs c code r' (f r').run) :
    Runs c code r (o.andThen f).run := by
  cases o with
  | done r' => exact .reads ho (hf r')
  | failed w r' => exact .reads ho .stop

theorem choose {decision : Nat} {go : Nat → Run → Outcome}
    (hgo : ∀ i r', Runs c code r' (go i r').run) :
    Runs c code r (c.choose decision r go).run := by
  have hdecide := c.reads_decide r decision
  unfold Scope.choose
  split
  · next i r' hr =>
    rw [hr] at hdecide
    exact .reads hdecide (hgo i r')
  · next w r' hr =>
    rw [hr] at hdecide
    exact .reads hdecide .stop

theorem chooseAmong {decision n : Nat} {go : Nat → Run → Outcome} {pass : Run → Outcome}
    (hgo : ∀ i r', Runs c code r' (go i r').run) (hpass : ∀ r', Runs c code r' (pass r').run) :
    Runs c code r (c.chooseAmong decision n r go pass).run := by
  have hdecide := c.reads_decide r decision
  unfold Scope.chooseAmong
  split
  · next i r' hr =>
    rw [hr] at hdecide
    split
    · exact .reads hdecide (hgo i r')
    · exact .reads hdecide (hpass r')
  · next w r' hr =>
    rw [hr] at hdecide
    split
    · exact .reads hdecide (hpass r')
    · exact .reads hdecide .stop

end Runs

/-- The run with which the node of a rule is closed. -/
def Scope.closing (c : Scope) : Outcome → Run
  | .done r => r
  | .failed w r => c.recover (c.report w r)

theorem Scope.reads_closing (c : Scope) (o : Outcome) : o.run.Reads c.source (c.closing o) := by
  cases o with
  | done r => exact .refl r
  | failed w r => exact (c.reads_report r w).trans (c.reads_recover _)

theorem Scope.finish_eq (c : Scope) (o : Outcome) : c.finish o =
    ((c.closing o).frame.tree ((c.closing o).state.previous c.source),
      (c.closing o).state.log (.exit (c.closing o).frame.form)) := by
  cases o <;> rfl

theorem turns_alt {alts : List (List Step)} (i : Nat) :
    (alts[i]?).getD [] ∈ alts ∨ (alts[i]?).getD [] = [] := by
  cases hi : alts[i]? with
  | none => exact .inr rfl
  | some alt => exact .inl (List.mem_of_getElem? hi)

/-- **Every parse is a run**: what steps make of a node is one of the things that they can make of
it. -/
theorem exec_runs (n : Nat) (c : Scope) (code : List Step) (r : Run) :
    Runs c code r (exec n c code r).run := by
  induction n generalizing c code r with
  | zero =>
    rw [exec]
    exact .stop
  | succ n ih =>
    cases code with
    | nil =>
      simp only [exec]
      exact .stop
    | cons step rest =>
      cases step with
      | read place next kinds only label =>
        rw [exec]
        exact .andThen (c.reads_readToken r place next kinds only) fun r' =>
          .turn rfl (.reads (.name r' label) (ih c rest _))
      | call place next rule level label =>
        rw [exec]
        simp only [Scope.finish_eq]
        exact .reads (r.reads_goTo place)
          (.call (.andReads (ih _ _ _) (Scope.reads_closing _ _)) (ih c rest _))
      | choose place decision alts =>
        rw [exec]
        exact .andThen (c.reads_syncAtStart r place) fun r' => .choose fun i r'' =>
          .turn (turns_alt i) (ih c _ r'')
      | optionally place decision alts =>
        rw [exec]
        exact .andThen (c.reads_syncAtStart r place) fun r' =>
          .chooseAmong (fun i r'' => .turn (turns_alt i) (ih c _ r'')) fun r'' =>
            .turn (.inr rfl) (ih c rest r'')
      | many again place back decision body =>
        rw [exec]
        refine .andThen (c.reads_sync r again place back) fun r' =>
          .chooseAmong (fun _ r'' => .turn (.inl rfl) ?_) fun r'' =>
            .turn (.inr rfl) (ih c rest r'')
        rw [List.append_assoc]
        exact ih c _ r''
      | some place back decision body =>
        rw [exec]
        refine .andThen (c.reads_syncAtStart r place) fun r' => .turn rfl ?_
        rw [List.append_assoc]
        exact ih c _ r'
      | become form =>
        rw [exec]
        exact .become (ih c rest _)
      | climb again place back decision inner innerDecision ops =>
        rw [exec]
        refine .andThen (c.reads_sync r again place back) fun r' =>
          .chooseAmong (fun _ r'' => ?_) fun r'' => .turn rfl (ih c rest r'')
        extract_lets left take
        have htake (i : Nat) (r₃ : Run) :
            Runs c (.climb again place back decision inner innerDecision ops :: rest) r₃
              (take i r₃).run := by
          simp only [take]
          split
          · exact .stop
          · next form level guard steps hop =>
            refine .operand (List.mem_of_getElem? hop) ?_
            split
            · exact .reads (Run.reads_goTo _ guard) (ih c _ _)
            · exact .reads (Run.reads_goTo _ guard) .stop
        have hleft : r''.Reads c.source left := r''.reads_onState id rfl
        split
        · exact .reads hleft (htake 0 left)
        · exact .reads hleft (.andThen (c.reads_syncAtStart left inner) fun r₃ => .choose htake)

/-! ## Nodes without a last token -/

mutual

/-- Whether nodes without a last token stand for nothing. -/
def ParseTree.ended : ParseTree → Bool
  | .node info cs => (info.stop.isSome || cs.all ParseTree.blank) && allEnded cs
  | _ => true

def allEnded : List ParseTree → Bool
  | [] => true
  | t :: ts => t.ended && allEnded ts

end

theorem allEnded_iff : allEnded ts = true ↔ ∀ t ∈ ts, t.ended = true := by
  induction ts with
  | nil => simp [allEnded]
  | cons t ts ih => simp [allEnded, ih]

theorem ParseTree.ended_leaf (h : t.rule? = none) : t.ended = true := by
  cases t with
  | node info cs => cases h
  | _ => rfl

/-- A run whose node holds nothing of the text until the first token is read. `before` is what must
have been so until then. -/
structure Run.Started (before : Prop) (r : Run) : Prop where
  ended : ∀ t ∈ r.frame.children, t.ended = true
  blank : r.state.pos = 0 → before ∧ ∀ t ∈ r.frame.children, t.blank = true

namespace Run.Started

variable {before : Prop} {r r' : Run}

/-- A node without parts. -/
theorem empty (hbefore : r.state.pos = 0 → before) (hnone : r.frame.children = []) :
    r.Started before := by
  refine ⟨fun t ht => ?_, fun hpos => ⟨hbefore hpos, fun t ht => ?_⟩⟩ <;>
    rw [hnone] at ht <;> cases ht

theorem reads {source : Source} (h : r.Started before) (hreads : r.Reads source r') :
    r'.Started before := by
  obtain ⟨new, hnew, hleaves, -⟩ := hreads.leaves
  refine ⟨fun t ht => ?_, fun hpos => ?_⟩
  · rw [hnew, List.mem_append] at ht
    rcases ht with ht | ht
    · exact ParseTree.ended_leaf (hleaves t ht)
    · exact h.ended t ht
  · obtain ⟨hbefore, hold⟩ := h.blank (Nat.le_zero.mp (hpos ▸ hreads.le))
    obtain ⟨new', hnew', hblank⟩ := hreads.blank hpos
    refine ⟨hbefore, fun t ht => ?_⟩
    rw [hnew', List.mem_append] at ht
    rcases ht with ht | ht
    · exact (hblank t ht).2
    · exact hold t ht

/-- The node that is made in a run. -/
theorem tree (h : r.Started before) (source : Source) :
    (r.frame.tree (r.state.previous source)).ended = true ∧
      (r.state.pos = 0 → (r.frame.tree (r.state.previous source)).blank = true) := by
  have hblank (hpos : r.state.pos = 0) : ∀ t ∈ r.frame.children.reverse, t.blank = true :=
    fun t ht => (h.blank hpos).2 t (List.mem_reverse.mp ht)
  refine ⟨?_, fun hpos => ParseTree.blank_node.mpr (hblank hpos)⟩
  rw [Frame.tree, ParseTree.ended, Bool.and_eq_true, Bool.or_eq_true, List.all_eq_true]
  refine ⟨?_, allEnded_iff.mpr fun t ht => h.ended t (List.mem_reverse.mp ht)⟩
  by_cases hpos : r.state.pos = 0
  · exact .inr (hblank hpos)
  · rw [State.previous, if_neg hpos]
    exact .inl rfl

theorem add {t : ParseTree} {s : State} (h : r.Started before) (ht : t.ended = true)
    (hblank : s.pos = 0 → t.blank = true)
    (hpos : s.pos = 0 → r.state.pos = 0) (label : Option Label) :
    Run.Started before ⟨(r.frame.add t).name label, s⟩ := by
  have hadded : Run.Started before ⟨r.frame.add t, s⟩ := by
    refine ⟨List.forall_mem_cons.mpr ⟨ht, h.ended⟩, fun hs => ?_⟩
    obtain ⟨hbefore, hold⟩ := h.blank (hpos hs)
    exact ⟨hbefore, List.forall_mem_cons.mpr ⟨hblank hs, hold⟩⟩
  cases label <;> exact ⟨hadded.ended, hadded.blank⟩

end Run.Started

theorem Runs.started {c : Scope} {code : List Step} {r' : Run} (h : Runs c code r r')
    {before : Prop} (hr : r.Started before) : r'.Started before := by
  induction h generalizing before with
  | stop => exact hr
  | reads hreads _ ih => exact ih (hr.reads hreads)
  | turn _ _ ih => exact ih hr
  | @call c place next rule level label rest r inner r' hinner hrest ihinner ih =>
    -- Until the called rule has read a token, its caller has read none.
    have hbegin : inner.Started (r.state.pos = 0) := ihinner (.empty (fun hpos => hpos) rfl)
    obtain ⟨hended, hblank⟩ := hbegin.tree c.source
    have hadded := hr.add (s := inner.state.log (.exit inner.frame.form)) hended hblank
      (fun hpos => (hbegin.blank hpos).1) label
    exact ih hadded
  | become _ ih => exact ih ⟨hr.ended, hr.blank⟩
  | @operand c _ _ _ _ _ _ _ op rest r r' _ _ ih =>
    obtain ⟨hended, hblank⟩ := hr.tree c.source
    refine ih ⟨fun t ht => ?_, fun hpos => ⟨(hr.blank hpos).1, fun t ht => ?_⟩⟩
    · rw [List.mem_singleton.mp ht]
      exact hended
    · rw [List.mem_singleton.mp ht]
      exact hblank hpos

theorem Scope.finish_ended (c : Scope) (n : Nat) (code : List Step) (hr : r.frame.children = []) :
    (c.finish (exec n c code r)).1.ended = true := by
  have hstart : r.Started True := .empty (fun _ => trivial) hr
  rw [Scope.finish_eq]
  exact ((((exec_runs n c code r).andReads (c.reads_closing _)).started hstart).tree c.source).1

theorem Engine.parseRule_ended (e : Engine) (rule : RuleName) (source : Source) :
    (e.parseRule rule source).tree.ended = true := by
  unfold Engine.parseRule
  exact Scope.finish_ended _ _ _ rfl

/-- **A node of a parse tree without a last token stands for nothing**: all its leaves are missing
tokens or the end of the text. -/
theorem parse_ended (text : String) : (parse text).tree.ended = true :=
  javaEngine.parseRule_ended .compilationUnit (.ofText text)

end Coupling.Java
