import Coupling.Proofs.Nesting
import Coupling.Proofs.Scripts

/-!
# Package and import declarations come first

A compilation unit begins with its package declaration and its imports, and there are none below.
The parser keeps to that whatever a text holds: a rule that was given up is not taken again, and
what is skipped are leaves. So in every parse tree no package or import declaration comes after
another declaration (`parse_regular`).

Hence what a text imports is requested before any name is noted, and a request for an import whose
name is a plain one is granted (`stop_of_import`).
-/

namespace Coupling.Project

open Java

/-! ## Trees below a compilation unit -/

/-- The rules of package and import declarations. -/
def isHead (r : RuleName) : Bool := r == .packageDeclaration || r == .importDeclaration

/-- The rules below which there are no package and import declarations. -/
def isInner (r : RuleName) : Bool := !isHead r && r != .compilationUnit

/-- What may stand below a rule: its own nodes, as operands, and package and import declarations
only below a compilation unit, which nothing calls. -/
def calledBelow (rule callee : RuleName) : Bool :=
  isInner callee || rule == callee || rule == .compilationUnit && isHead callee

theorem production_calledBelow (r : RuleName) :
    (production r).keeps (.under (calledBelow r) r) = true := by
  cases r <;> rfl

theorem mem_marksOf {b : Bool} {ts : List ParseTree} : b ∈ marksOf ts ↔ ∃ t ∈ ts, b ∈ marks t := by
  induction ts with
  | nil => simp [marksOf]
  | cons t ts ih => simp [marksOf, ih]

theorem marksOf_append (ts ts' : List ParseTree) :
    marksOf (ts ++ ts') = marksOf ts ++ marksOf ts' := by
  induction ts with
  | nil => rfl
  | cons t ts ih => rw [List.cons_append, marksOf, marksOf, ih, List.append_assoc]

theorem marks_leaf {t : ParseTree} (h : t.rule? = none) : marks t = [] := by
  cases t with
  | node info cs => cases h
  | _ => rfl

/-- The node of a rule below which there are no heads has none. -/
theorem not_mem_marks {info : NodeInfo} {cs : List ParseTree}
    (hrule : isInner info.form.ruleName = true)
    (hcs : ∀ c ∈ cs, true ∉ marks c) : true ∉ marks (.node info cs) := by
  have hnone : true ∉ marksOf cs := fun hmem => by
    obtain ⟨c, hc, hin⟩ := mem_marksOf.mp hmem
    exact hcs c hc hin
  rw [marks]
  split
  · next hrole =>
    unfold Role.ofForm at hrole
    split at hrole <;> simp_all [Form.ruleName, isInner, isHead]
  · next hrole =>
    unfold Role.ofForm at hrole
    split at hrole <;> simp_all [Form.ruleName, isInner, isHead]
  · exact hnone
  · simpa using hnone

theorem marks_head {info : NodeInfo} {cs : List ParseTree}
    (hrule : isHead info.form.ruleName = true) :
    marks (.node info cs) = [true] := by
  obtain ⟨form, start, stop, labels⟩ := info
  rw [marks]
  cases form with
  | expr e => cases hrule
  | rule r =>
    simp only [Form.ruleName, isHead, Bool.or_eq_true, beq_iff_eq] at hrule
    rcases hrule with rfl | rfl <;> rfl

mutual

/-- Below a rule that calls no heads, directly or not, there are none. -/
theorem not_mem_marks_of_nests : ∀ t : ParseTree, t.nests calledBelow = true →
    t.rule?.all isInner = true → true ∉ marks t
  | .token _, _, _ | .skipped _, _, _ | .missing _, _, _ => List.not_mem_nil
  | .node info cs, hnests, hrule => by
    rw [ParseTree.nests, Bool.and_eq_true, List.all_eq_true] at hnests
    have hinner : isInner info.form.ruleName = true := hrule
    refine not_mem_marks hinner (not_mem_marks_of_allNest cs hnests.2 fun c hc => ?_)
    have hc' := hnests.1 c hc
    cases hr : c.rule? with
    | none => rfl
    | some callee =>
      rw [hr] at hc'
      simp only [Option.all_some, calledBelow, Bool.or_eq_true, Bool.and_eq_true, beq_iff_eq]
        at hc' ⊢
      rcases hc' with (hcallee | hsame) | ⟨hunit, -⟩
      · exact hcallee
      · exact hsame ▸ hinner
      · rw [hunit] at hinner
        cases hinner

theorem not_mem_marks_of_allNest : ∀ ts : List ParseTree, Java.allNest calledBelow ts = true →
    (∀ t ∈ ts, t.rule?.all isInner = true) → ∀ t ∈ ts, true ∉ marks t
  | [], _, _ => nofun
  | t :: ts, hnests, hrules => by
    rw [Java.allNest, Bool.and_eq_true] at hnests
    obtain ⟨hrule, hrules⟩ := List.forall_mem_cons.mp hrules
    exact List.forall_mem_cons.mpr ⟨not_mem_marks_of_nests t hnests.1 hrule,
      not_mem_marks_of_allNest ts hnests.2 hrules⟩

end

end Coupling.Project

namespace Coupling.Java

open Project (isHead isInner calledBelow marks marksOf)

/-! ## A compilation unit -/

/-- The limits of steps of a plain rule that call only rules of a set. -/
def Limits.plain (rules : RuleName → Bool) : Limits := ⟨fun _ => true, rules, fun _ => false⟩

/-- Steps that call no head after another rule, whichever way they are taken. -/
inductive HeadsLead : List Step → Prop where
  | body {code : List Step} : (∀ s ∈ code, s.Keeps (.plain isInner)) → HeadsLead code
  | head {step : Step} {rest : List Step} : step.Keeps (.plain isHead) → HeadsLead rest →
    HeadsLead (step :: rest)
  | choose {place decision : Nat} {alts : List (List Step)} {rest : List Step} :
      (∀ alt ∈ alts, HeadsLead (alt ++ rest)) → HeadsLead rest →
      HeadsLead (.choose place decision alts :: rest)

/-- A node is made into another only by rules that are not plain. -/
theorem not_keeps_become {rules : RuleName → Bool} {form : Form} :
    ¬ (Step.become form).Keeps (.plain rules) := by
  intro h
  cases h with
  | become hform => cases hform

theorem not_keeps_climb {rules : RuleName → Bool} {again : Bool}
    {place back decision inner innerDecision : Nat}
    {ops : List (Form × Nat × Nat × List Step)} {op : Form × Nat × Nat × List Step}
    (hop : op ∈ ops) :
    ¬ (Step.climb again place back decision inner innerDecision ops).Keeps (.plain rules) := by
  intro h
  cases h with
  | climb hforms => cases hforms op hop

theorem HeadsLead.append {front rest : List Step} (hfront : ∀ s ∈ front, s.Keeps (.plain isHead))
    (hrest : HeadsLead rest) :
    HeadsLead (front ++ rest) := by
  induction front with
  | nil => exact hrest
  | cons s front ih =>
    obtain ⟨hs, hfront⟩ := List.forall_mem_cons.mp hfront
    exact .head hs (ih hfront)

theorem HeadsLead.turn {step : Step} {steps rest : List Step} (h : HeadsLead (step :: rest))
    (hturn : step.Turns steps) :
    HeadsLead (steps ++ rest) := by
  cases h with
  | body hbody => exact .body (keeps_turned hbody hturn)
  | head hstep hrest => exact .append (hstep.turn hturn) hrest
  | choose halts hrest =>
    rcases hturn with hmem | rfl
    · exact halts steps hmem
    · exact hrest

/-- The marks of the node that a parse is in. -/
def Run.marks (r : Run) : List Bool := marksOf r.frame.children.reverse

theorem Run.Reads.marks_eq {source : Source} {r r' : Run} (h : r.Reads source r') :
    r'.marks = r.marks := by
  obtain ⟨new, hnew, hleaves, -⟩ := h.leaves
  have hnone : marksOf new.reverse = [] := by
    refine List.eq_nil_iff_forall_not_mem.mpr fun b hb => ?_
    obtain ⟨t, ht, hin⟩ := Project.mem_marksOf.mp hb
    rw [Project.marks_leaf (hleaves t (List.mem_reverse.mp ht))] at hin
    cases hin
  rw [Run.marks, hnew, List.reverse_append, Project.marksOf_append, hnone, List.append_nil]
  rfl

theorem Run.marks_close (r : Run) (source : Source) (label : Option Label) (inner : Run) :
    (r.close source label inner).marks = r.marks ++
      Project.marks (inner.frame.tree (inner.state.previous source)) := by
  have hchildren : (r.close source label inner).frame.children =
      inner.frame.tree (inner.state.previous source) :: r.frame.children := by cases label <;> rfl
  rw [Run.marks, hchildren, List.reverse_cons, Project.marksOf_append, marksOf, marksOf,
    List.append_nil]
  rfl

namespace Runs

variable {c : Scope} {code : List Step} {r r' : Run}

/-- The node of a called rule nests, and belongs to the rule. -/
theorem nests_called {rule : RuleName} {s : State} {inner : Run}
    (h : Runs c (c.net.steps rule) (c.begin s) inner)
    (hnet : c.net.Fits calledBelow) (hrule : c.rule = rule) (stop : Option Token) :
    (inner.frame.tree stop).nests calledBelow = true ∧
    (inner.frame.tree stop).rule? = some rule := by
  subst hrule
  have hself (r : RuleName) : calledBelow r r = true := by simp [calledBelow]
  exact (h.nests hself hnet (hnet c.rule) ⟨rfl, List.forall_mem_nil _⟩).tree stop

/-- Steps that call no heads add none. -/
theorem sorted_of_body (h : Runs c code r r') (hnet : c.net.Fits calledBelow)
    (hcode : ∀ s ∈ code, s.Keeps (.plain isInner))
    (hr : r.marks.Pairwise fun a b => b = true → a = true) :
    r'.marks.Pairwise fun a b => b = true → a = true := by
  induction h with
  | stop => exact hr
  | reads hreads _ ih => exact ih hnet hcode (by rw [hreads.marks_eq]; exact hr)
  | turn hturn _ ih => exact ih hnet (keeps_turned hcode hturn) hr
  | @call c _ _ rule _ label _ r inner _ hruns _ _ ih =>
    obtain ⟨hstep, hrest⟩ := List.forall_mem_cons.mp hcode
    obtain ⟨hnests, hrule⟩ := hruns.nests_called hnet rfl (inner.state.previous c.source)
    have htree : true ∉ Project.marks (inner.frame.tree (inner.state.previous c.source)) := by
      cases hstep with
      | call hcallee => exact Project.not_mem_marks_of_nests _ hnests (by rw [hrule]; exact hcallee)
    refine ih hnet hrest ?_
    rw [Run.marks_close]
    refine List.pairwise_append.mpr ⟨hr, List.pairwise_of_forall_mem_list fun a _ b hb htrue => ?_,
      fun a _ b hb htrue => ?_⟩
    · exact absurd (htrue ▸ hb) htree
    · exact absurd (htrue ▸ hb) htree
  | become _ _ => exact absurd (hcode _ List.mem_cons_self) not_keeps_become
  | operand hop _ _ => exact absurd (hcode _ List.mem_cons_self) (not_keeps_climb hop)

/-- **Heads come first** where steps call no head after another rule. -/
theorem sorted (h : Runs c code r r') (hnet : c.net.Fits calledBelow) (hcode : HeadsLead code)
    (hr : false ∉ r.marks) : r'.marks.Pairwise fun a b => b = true → a = true := by
  have hheads {r : Run} (hr : false ∉ r.marks) : r.marks.Pairwise fun a b => b = true → a = true :=
    List.pairwise_of_forall_mem_list fun a ha b _ _ => by
      cases a with
      | false => exact absurd ha hr
      | true => rfl
  induction h with
  | stop => exact hheads hr
  | reads hreads _ ih => exact ih hnet hcode (by rw [hreads.marks_eq]; exact hr)
  | turn hturn _ ih => exact ih hnet (hcode.turn hturn) hr
  | @call c _ _ rule _ label _ r inner _ hruns hrest _ ih =>
    cases hcode with
    | body hbody => exact (Runs.call hruns hrest).sorted_of_body hnet hbody (hheads hr)
    | head hstep hlead =>
      cases hstep with
      | call hcallee =>
        obtain ⟨-, hrule⟩ := hruns.nests_called hnet rfl (inner.state.previous c.source)
        refine ih hnet hlead ?_
        rw [Run.marks_close, Frame.tree, Project.marks_head
          ((Option.some.inj hrule).symm ▸ hcallee)]
        simpa using hr
  | @become c form rest r r' hrest _ =>
    cases hcode with
    | body hbody => exact absurd (hbody _ List.mem_cons_self) not_keeps_become
    | head hstep _ => exact absurd hstep not_keeps_become
  | operand hop _ _ =>
    cases hcode with
    | body hbody => exact absurd (hbody _ List.mem_cons_self) (not_keeps_climb hop)
    | head hstep _ => exact absurd hstep (not_keeps_climb hop)

end Runs

/-! ## The steps of a compilation unit -/

/-- Whether a sequence calls no head after another rule. -/
def headsLead : List Element → Bool
  | [] => true
  | e :: es => e.keeps (.plain isHead) && headsLead es || seqKeeps (.plain isInner) (e :: es)

theorem SeqCoded.headsLead {count : Nat → Nat} {es : List Element} {code : List Step}
    (hcode : SeqCoded count es code) (h : headsLead es = true) : HeadsLead code := by
  induction es generalizing code with
  | nil =>
    cases hcode
    exact .body (List.forall_mem_nil _)
  | cons e es ih =>
    rw [Java.headsLead, Bool.or_eq_true, Bool.and_eq_true] at h
    rcases h with ⟨he, hes⟩ | h
    · cases hcode with
      | cons hs hrest => exact .head (hs.keeps e he) (ih hrest hes)
    · exact .body (hcode.keeps _ h)

theorem javaEngine_headsLead : HeadsLead (javaEngine.net.steps .compilationUnit) := by
  have hcoded : (Production.plain [_, _]).Coded _ _ :=
    Network.steps_coded production .compilationUnit
  rw [javaEngine_net]
  generalize (Network.ofGrammar production).steps .compilationUnit = steps at hcoded
  cases hcoded with
  | among hcodes _ =>
    refine .choose (fun code hcode => ?_) (.body (List.forall_mem_nil _))
    obtain ⟨alt, halt, hseq⟩ := hcodes.exists_alt hcode
    rw [List.append_nil]
    refine hseq.headsLead ?_
    simp only [List.mem_cons, List.not_mem_nil, or_false] at halt
    rcases halt with rfl | rfl <;> rfl

theorem javaEngine_calledBelow : javaEngine.net.Fits calledBelow := by
  rw [javaEngine_net]
  exact Network.ofGrammar_fits Project.production_calledBelow

theorem Scope.finish_headsFirst {c : Scope} (hnet : c.net.Fits calledBelow)
    (hrule : c.rule = .compilationUnit)
    (hcode : HeadsLead (c.net.steps c.rule)) (n : Nat) (s : State) :
    Project.HeadsFirst (c.finish (exec n c (c.net.steps c.rule) (c.begin s))).1 := by
  have hruns := (exec_runs n c (c.net.steps c.rule) (c.begin s)).andReads (c.reads_closing _)
  have hform := Option.some.inj ((hruns.nests_called hnet rfl none).2.trans (congrArg some hrule))
  have hsorted := hruns.sorted hnet hcode List.not_mem_nil
  rw [Scope.finish_eq]
  generalize c.closing (exec n c (c.net.steps c.rule) (c.begin s)) = r at hform hsorted
  have hrole : Project.Role.ofForm r.frame.form = .other := by
    cases hr : r.frame.form with
    | expr e => rfl
    | rule rule =>
      rw [hr] at hform
      cases hform
      rfl
  rw [Project.HeadsFirst, Frame.tree, Project.marks]
  simp only [hrole]
  exact hsorted

theorem Engine.parseRule_headsFirst {e : Engine} (hnet : e.net.Fits calledBelow)
    (hcode : HeadsLead (e.net.steps .compilationUnit)) (source : Source) :
    Project.HeadsFirst (e.parseRule .compilationUnit source).tree := by
  unfold Engine.parseRule
  exact Scope.finish_headsFirst hnet rfl hcode _ _

end Coupling.Java

namespace Coupling.Project

open Java (ParseTree NodeInfo allEnded)

/-- A tree as the parser makes them: head declarations come first, and a node without a last token
stands for nothing in the text. -/
structure Regular (t : ParseTree) : Prop where
  headsFirst : HeadsFirst t
  ended : t.ended = true

instance (t : ParseTree) : Decidable (Regular t) :=
  decidable_of_iff (HeadsFirst t ∧ t.ended = true) ⟨fun h => ⟨h.1, h.2⟩, fun h =>
    ⟨h.headsFirst, h.ended⟩⟩

/-- **Every parse tree is regular**, of a text with or without errors. -/
theorem parse_regular (text : String) : Regular (Java.parse text).tree where
  headsFirst := Java.Engine.parseRule_headsFirst Java.javaEngine_calledBelow
    Java.javaEngine_headsLead (.ofText text)
  ended := Java.parse_ended text

/-! ## Imports that came to an end -/

theorem text_of_blank {t : ParseTree} (h : t.blank = true) : t.text = "" ∨ '<' ∈ t.text.toList := by
  unfold ParseTree.text
  cases hleaves : t.leaves with
  | nil => exact .inl rfl
  | cons l ls =>
    refine .inr ?_
    have hl : l.blank = true := by
      rw [ParseTree.blank, hleaves, List.all_cons, Bool.and_eq_true] at h
      exact h.1
    have hfirst : '<' ∈ l.text.toList := by
      cases l with
      | missing k => simp [Java.Leaf.text]
      | token t | skipped t => simp [Java.Leaf.text, Java.Token.shown, of_decide_eq_true hl]
    rw [List.map_cons, String.join_cons, String.toList_append]
    exact List.mem_append_left _ hfirst

section Ended

variable {full : Table String}

mutual

/-- An import that is requested came to an end, unless its name says that something is missing. -/
theorem stop_of_import : ∀ (t : ParseTree) (w : Place), t.ended = true → ∀ name info,
    .import name info ∈ script full w t → info.stop = none → name = "" ∨ '<' ∈ name.toList
  | .token _, _, _, _, _, hmem, _ | .skipped _, _, _, _, _, hmem, _ | .missing _, _, _, _, _, hmem,
    _ => by cases hmem
  | .node node cs, w, hended, name, info, hmem, hstop => by
    rw [ParseTree.ended, Bool.and_eq_true, Bool.or_eq_true, List.all_eq_true] at hended
    by_cases hrole : Role.ofForm node.form = .import
    · rw [script] at hmem
      simp only [hrole] at hmem
      cases hq : (ParseTree.node node cs).first? .qualifiedName with
      | none =>
        rw [hq] at hmem
        cases List.mem_singleton.mp hmem
      | some q =>
        rw [hq] at hmem
        cases List.mem_singleton.mp (show _ ∈ [Request.import q.text node] from hmem)
        rcases hended.1 with hsome | hblank
        · rw [hstop] at hsome
          cases hsome
        · exact text_of_blank (hblank q (List.mem_of_find?_eq_some hq))
    · obtain ⟨w', hbelow⟩ := exists_mem_scriptAll hrole _ hmem rfl
      exact stop_of_importAll cs w' hended.2 name info hbelow hstop

theorem stop_of_importAll : ∀ (ts : List ParseTree) (w : Place), allEnded ts = true → ∀ name info,
    .import name info ∈ scriptAll full w ts → info.stop = none → name = "" ∨ '<' ∈ name.toList
  | [], _, _, _, _, hmem, _ => by cases hmem
  | t :: ts, w, hended, name, info, hmem, hstop => by
    rw [allEnded, Bool.and_eq_true] at hended
    rw [scriptAll, List.mem_append] at hmem
    rcases hmem with hmem | hmem
    · exact stop_of_import t w hended.1 name info hmem hstop
    · exact stop_of_importAll ts w hended.2 name info hmem hstop

end

end Ended

end Coupling.Project
