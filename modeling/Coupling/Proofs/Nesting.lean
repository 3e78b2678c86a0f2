import Coupling.Proofs.Coding
import Coupling.Proofs.Parsing

/-!
# Nesting of rules

Which rules the nodes right below a node can belong to. The parser makes nodes only by calling rules
and by taking a node as the first operand of another one of the same rule, and whatever it skips or
makes up while it recovers from an error is a leaf. So every tree it makes, of a text with or
without errors, nests as the right-hand sides of the grammar do (`parse_nests`).
-/

namespace Coupling.Java

/-! ## Trees that nest -/

mutual

/-- Every node is right below one that allows its rule there. -/
def ParseTree.nests (allowed : RuleName → RuleName → Bool) : ParseTree → Bool
  | .node info cs => cs.all (fun c => c.rule?.all (allowed info.form.ruleName)) &&
    allNest allowed cs
  | _ => true

def allNest (allowed : RuleName → RuleName → Bool) : List ParseTree → Bool
  | [] => true
  | t :: ts => t.nests allowed && allNest allowed ts

end

variable {allowed : RuleName → RuleName → Bool} {rule : RuleName}

theorem allNest_iff {ts : List ParseTree} : allNest allowed ts = true ↔
    ∀ t ∈ ts, t.nests allowed = true := by
  induction ts with
  | nil => simp [allNest]
  | cons t ts ih => simp [allNest, ih]

theorem ParseTree.nests_leaf {t : ParseTree} (h : t.rule? = none) : t.nests allowed = true := by
  cases t with
  | node info cs => cases h
  | _ => rfl

/-- A node in the making that belongs to a rule, and whose parts so far nest. -/
structure Frame.Nests (allowed : RuleName → RuleName → Bool) (rule : RuleName) (f : Frame) :
    Prop where
  form : f.form.ruleName = rule
  parts : ∀ t ∈ f.children, t.nests allowed = true ∧ t.rule?.all (allowed rule) = true

namespace Frame.Nests

variable {f : Frame}

/-- A node that is closed nests. -/
theorem tree (h : f.Nests allowed rule) (stop : Option Token) :
    (f.tree stop).nests allowed = true ∧ (f.tree stop).rule? = some rule := by
  refine ⟨?_, congrArg some h.form⟩
  rw [Frame.tree, ParseTree.nests, Bool.and_eq_true, List.all_eq_true, allNest_iff]
  constructor
  · intro t ht
    rw [h.form]
    exact (h.parts t (List.mem_reverse.mp ht)).2
  · intro t ht
    exact (h.parts t (List.mem_reverse.mp ht)).1

theorem add (h : f.Nests allowed rule) {inner : Frame} {callee : RuleName}
    (hinner : inner.Nests allowed callee)
    (hcallee : allowed rule callee = true) (stop : Option Token) (label : Option Label) :
    ((f.add (inner.tree stop)).name label).Nests allowed rule := by
  obtain ⟨htree, hrule⟩ := hinner.tree stop
  have hparts : ∀ t ∈ (f.add (inner.tree stop)).children, t.nests allowed = true ∧
      t.rule?.all (allowed rule) = true :=
    List.forall_mem_cons.mpr ⟨⟨htree, by rw [hrule]; exact hcallee⟩, h.parts⟩
  cases label with
  | none | some l => exact ⟨h.form, hparts⟩

theorem reads {source : Source} {r r' : Run} (h : r.frame.Nests allowed rule)
    (hreads : r.Reads source r') :
    r'.frame.Nests allowed rule := by
  obtain ⟨new, hnew, hleaves, -⟩ := hreads.leaves
  refine ⟨(congrArg Form.ruleName hreads.form).trans h.form, fun t ht => ?_⟩
  rw [hnew] at ht
  rcases List.mem_append.mp ht with ht | ht
  · exact ⟨ParseTree.nests_leaf (hleaves t ht), by rw [hleaves t ht]; rfl⟩
  · exact h.parts t ht

end Frame.Nests

/-! ## Every tree of the parser nests -/

theorem Step.Keeps.turn {l : Limits} {step : Step} {steps : List Step} (h : step.Keeps l)
    (hturn : step.Turns steps) :
    ∀ s ∈ steps, s.Keeps l := by
  have hnone : steps = [] → ∀ s ∈ steps, s.Keeps l := fun hnil s hs => by
    rw [hnil] at hs
    cases hs
  cases h with
  | read => exact hnone hturn
  | choose halts | optionally halts => exact hturn.elim (halts steps) hnone
  | many hbody =>
    refine hturn.elim (fun hsteps => ?_) hnone
    rw [hsteps]
    exact List.forall_mem_append.mpr ⟨hbody, List.forall_mem_singleton.mpr (.many hbody)⟩
  | some hbody =>
    rw [show steps = _ from hturn]
    exact List.forall_mem_append.mpr ⟨hbody, List.forall_mem_singleton.mpr (.many hbody)⟩
  | climb hforms hops => exact hnone hturn
  | call _ | become _ => exact hturn.elim

section

variable {l : Limits} {rest : List Step}

theorem keeps_turned {step : Step} {steps : List Step} (h : ∀ s ∈ step :: rest, s.Keeps l)
    (hturn : step.Turns steps) :
    ∀ s ∈ steps ++ rest, s.Keeps l := by
  obtain ⟨hstep, hrest⟩ := List.forall_mem_cons.mp h
  exact List.forall_mem_append.mpr ⟨hstep.turn hturn, hrest⟩

theorem keeps_operand {again : Bool} {place back decision inner innerDecision : Nat}
    {ops : List (Form × Nat × Nat × List Step)} {op : Form × Nat × Nat × List Step}
    (h : ∀ s ∈ .climb again place back decision inner innerDecision ops :: rest, s.Keeps l)
    (hop : op ∈ ops) :
    l.forms op.1 = true ∧
      ∀ s ∈ op.2.2.2 ++ .climb true place back decision inner innerDecision ops :: rest,
      s.Keeps l := by
  obtain ⟨hclimb, hrest⟩ := List.forall_mem_cons.mp h
  cases hclimb with
  | climb hforms hops =>
    exact ⟨hforms op hop,
      List.forall_mem_append.mpr ⟨hops op hop,
        List.forall_mem_cons.mpr ⟨.climb hforms hops, hrest⟩⟩⟩

end

/-- The limits of steps that call only rules of a set and make only nodes of one rule. -/
def Limits.under (rules : RuleName → Bool) (rule : RuleName) : Limits :=
  ⟨fun _ => true, rules, fun f => decide (f.ruleName = rule)⟩

/-- A network whose steps call only what is allowed below their rule. -/
def Network.Fits (allowed : RuleName → RuleName → Bool) (net : Network) : Prop :=
  ∀ rule, ∀ s ∈ net.steps rule, s.Keeps (.under (allowed rule) rule)

theorem Network.ofGrammar_fits {grammar : RuleName → Production}
    (hcalls : ∀ r, (grammar r).keeps (.under (allowed r) r) = true) :
    (Network.ofGrammar grammar).Fits allowed :=
  fun rule => (Network.steps_coded grammar rule).keeps (hcalls rule)

/-- Running steps that fit leaves a node whose parts nest. -/
theorem Runs.nests (hself : ∀ rule, allowed rule rule = true) {c : Scope} {code : List Step}
    {r r' : Run}
    (h : Runs c code r r') (hnet : c.net.Fits allowed)
    (hcode : ∀ s ∈ code, s.Keeps (.under (allowed c.rule) c.rule))
    (hr : r.frame.Nests allowed c.rule) : r'.frame.Nests allowed c.rule := by
  induction h with
  | stop => exact hr
  | reads hreads _ ih => exact ih hnet hcode (hr.reads hreads)
  | turn hturn _ ih => exact ih hnet (keeps_turned hcode hturn) hr
  | @call c _ _ callee _ label _ r inner _ _ _ ihinner ih =>
    obtain ⟨hstep, hrest⟩ := List.forall_mem_cons.mp hcode
    cases hstep with
    | call hcall =>
      have hinner : inner.frame.Nests allowed callee :=
        ihinner hnet (hnet callee) ⟨rfl, List.forall_mem_nil _⟩
      exact ih hnet hrest (hr.add hinner hcall _ label)
  | become _ ih =>
    obtain ⟨hstep, hrest⟩ := List.forall_mem_cons.mp hcode
    cases hstep with
    | become hform => exact ih hnet hrest ⟨of_decide_eq_true hform, hr.parts⟩
  | @operand c _ _ _ _ _ _ _ _ _ r _ hop _ ih =>
    obtain ⟨hform, hcode⟩ := keeps_operand hcode hop
    obtain ⟨htree, hrule⟩ := hr.tree (r.state.previous c.source)
    refine ih hnet hcode ⟨of_decide_eq_true hform, List.forall_mem_singleton.mpr ⟨htree, ?_⟩⟩
    rw [hrule]
    exact hself c.rule

/-- A tree that was parsed from a rule nests. -/
theorem Engine.parseRule_nests (hself : ∀ rule, allowed rule rule = true) {e : Engine}
    (hnet : e.net.Fits allowed)
    (rule : RuleName) (source : Source) : (e.parseRule rule source).tree.nests allowed = true := by
  unfold Engine.parseRule
  simp only [Scope.finish_eq]
  exact ((((exec_runs _ _ _ _).andReads (Scope.reads_closing _ _)).nests hself hnet (hnet rule)
    ⟨rfl, List.forall_mem_nil _⟩).tree _).1

theorem javaEngine_net : javaEngine.net = Network.ofGrammar production := rfl

/-- Every parse tree of a text nests as the right-hand sides of the grammar do. -/
theorem parse_nests (hself : ∀ rule, allowed rule rule = true)
    (hcalls : ∀ r, (production r).keeps (.under (allowed r) r) = true) (text : String) :
    (parse text).tree.nests allowed = true := by
  have hnet : javaEngine.net.Fits allowed := by
    rw [javaEngine_net]
    exact Network.ofGrammar_fits hcalls
  exact Engine.parseRule_nests hself hnet .compilationUnit (.ofText text)

end Coupling.Java
