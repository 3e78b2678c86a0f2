import Coupling.Proofs.NamedGraphs
import Coupling.Proofs.SpanNames
import Coupling.Trace.CallGraph

/-!
# Visits

The traces say which nodes are visited, from where, and how much each call weighs (`visits`). Making
a call graph of the traces is entering these visits one after the other into what the graph is by
its names (`Outline`). A run that comes to its end has entered them all (`visits_of_addTraces`), and
a run comes to its end if all that is asked of the traces can be answered and every visit can be
entered (`addTraces_of_visits`).
-/

namespace Coupling.Trace

open Data (Result)
open Steps

/-! ## What traces say -/

/-- The items of a value, none if it has none. -/
def itemsOf (j : Json) : List Json :=
  match Data.items j with
  | .ok items => items
  | .error _ => []

/-- The traces of a value, each with its spans. -/
def tracesOf (j : Json) : List (List Json) := (itemsOf j).map itemsOf

/-- Whether the span of a node has no parent. -/
def SpanNode.isRoot (n : SpanNode) : Bool := Data.same n.parentSpanId (.int (-1))

/-- What calls weigh after a node, if it sets it: an entry at the root of a trace does that weighs
more than nothing. -/
def SpanNode.sets (n : SpanNode) : Option Json :=
  if n.isRoot && n.kind = .api then
    match Data.isPositive n.weight with
    | .ok true => some n.weight
    | _ => none
  else none

/-- What calls weigh after a node if they weighed so much before it. -/
def passOn (weight : Json) (n : SpanNode) : Json := n.sets.getD weight

/-- The span that is looked up as the parent of a node. -/
def parentOf (spans : List Json) (n : SpanNode) : Option Json :=
  if n.isRoot then none else spans.find? (hasNumber n.parentSpanId)

section

variable [PatternReader]

/-- The node that a node was called from. -/
def callerOf (apis : Json) (spans : List Json) (n : SpanNode) : Option String :=
  (parentOf spans n).bind (nodeId apis)

/-- A node that a trace visits, with the node that called it and what the call weighs. -/
structure Visit where
  node : SpanNode
  call : Option (String × Json)

def Visit.caller (v : Visit) : Option String := v.call.map (·.1)

/-- The visits of some nodes of a trace, when calls weigh so much before them. -/
def visitsFrom (apis : Json) (spans : List Json) : Json → List SpanNode → List Visit
  | _, [] => []
  | weight, n :: ns => ⟨n, (callerOf apis spans n).map (·, weight)⟩ ::
    visitsFrom apis spans (passOn weight n) ns

/-- The visits of a trace; calls weigh one at its start. -/
def visitsOf (find : TableFinder) (apis : Json) (spans : List Json) : List Visit :=
  visitsFrom apis spans (.int 1) (spans.flatMap (emitted find apis))

/-- The visits of some traces. -/
def visits (find : TableFinder) (apis : Json) (traces : List (List Json)) : List Visit :=
  traces.flatMap (visitsOf find apis)

end

/-! ## Entering visits -/

/-- An attribute, which must be there, with something added to it. -/
def raised (attributes : Attributes) (key : String) (more : Json) : Result Json := do
  Data.add (← Data.member (.obj attributes) key) more

/-- What a node carries after a call. -/
def callAttributes (n : SpanNode) (time : Json) : Option Attributes → Result Attributes
  | none => .ok [("execution_time", time), ("count", .int 1), ("type", .str n.kind.name),
    ("weight", n.weight)]
  | some attributes => do
    let total ← raised attributes "execution_time" time
    let count ← raised attributes "count" (.int 1)
    return Json.put (Json.put attributes "execution_time" total) "count" count

/-- What an edge weighs after a call. -/
def callWeight (weight : Json) : Option Attributes → Result Json
  | none => .ok weight
  | some attributes => raised attributes "weight" weight

/-- Enters the call of a visit whose node has been described. -/
def enterCall (name : String) : Option (String × Json) → Outline → Result Outline
  | none, w => .ok w
  | some (caller, weight), w => w.join caller name <$> callWeight weight (w.edges caller name)

/-- Enters a visit. -/
def enter (w : Outline) (v : Visit) : Result Outline := do
  let time ← Data.subtract v.node.endTime v.node.startTime
  let attributes ← callAttributes v.node time (w.nodes v.node.name)
  enterCall v.node.name v.call (w.describe v.node.name attributes)

/-! ## What a step does to the outline -/

/-- How a step ended, with the outline of the graph it made. -/
def outlined {α : Type} : Result α × CallGraph → Result (α × Outline)
  | (.ok a, c) => .ok (a, c.graph.outline)
  | (.error e, _) => .error e

/-- A step does to the graph what a function does to its outline. -/
def Does {α : Type} (x : Build α) (f : Outline → Result (α × Outline)) : Prop :=
  ∀ c, outlined (x.run.run c) = f c.graph.outline

/-- A step enters visits. -/
def Enters {α : Type} (x : Build α) (vs : List Visit) (a : α) : Prop :=
  Does x fun w => (a, ·) <$> vs.foldlM enter w

variable {α β : Type}
  {x : Build α} {vs : List Visit} {a : α} {k : α → Build β} {n : SpanNode} {traces : Json}
  {c c' : CallGraph}

theorem Enters.run (h : Enters x vs a) (c : CallGraph) :
    outlined (x.run.run c) = (a, ·) <$> vs.foldlM enter c.graph.outline := h c

/-- What follows on a step needs to be known for the results it can have. -/
theorem does_bind {f : Outline → Result (α × Outline)} {l : α → Outline → Result (β × Outline)}
    (hx : Does x f)
    (hk : ∀ w a w', f w = .ok (a, w') → Does (k a) (l a)) :
    Does (x >>= k) fun w => f w >>= fun r => l r.1 r.2 := by
  intro c
  have hxc := hx c
  show outlined ((x >>= k).run.run c) = f c.graph.outline >>= fun r => l r.1 r.2
  rw [run_bind, ← hxc]
  rcases hr : x.run.run c with ⟨_ | a, c'⟩
  · rfl
  · rw [hr] at hxc
    exact hk _ a _ hxc.symm c'

theorem does_pure (a : α) : Does (pure a) fun w => .ok (a, w) := fun _ => rfl

theorem does_liftExcept (x : Result α) : Does (liftExcept x) fun w => (·, w) <$> x := by
  intro c
  rw [run_liftExcept]
  cases x <;> rfl

theorem enters_pure (a : α) : Enters (pure a) [] a := fun _ => rfl

theorem enters_bind {ws : List Visit} {b : β} (hx : Enters x vs a) (hk : Enters (k a) ws b) :
    Enters (x >>= k) (vs ++ ws) b := by
  have hboth := does_bind hx (l := fun _ w => (b, ·) <$> ws.foldlM enter w) fun w a' w' hrun => by
    cases hfold : vs.foldlM enter w with
    | error e =>
      rw [hfold] at hrun
      cases hrun
    | ok w₁ =>
      rw [hfold] at hrun
      cases hrun
      exact hk
  intro c
  refine (hboth c).trans ?_
  show ((a, ·) <$> vs.foldlM enter c.graph.outline >>= fun r => (b, ·) <$> ws.foldlM enter r.2) =
    (b, ·) <$> (vs ++ ws).foldlM enter c.graph.outline
  rw [List.foldlM_append]
  cases vs.foldlM enter c.graph.outline <;> rfl

/-- A read that succeeds leaves the rest to be done. -/
theorem enters_liftExcept {x : Result α} (hx : x = .ok a) {b : β} (hk : Enters (k a) vs b) :
    Enters (liftExcept x >>= k) vs b := by
  subst hx
  exact enters_bind (enters_pure a) hk

/-! ## The parts of a visit -/

theorem outline_putNode {g : Digraph} {name : String} (hnew : g.attributesOf name = none)
    (attributes : Attributes) :
    ∃ g', g.putNode (.str name) attributes = .ok g' ∧
      g'.outline = g.outline.describe name (Digraph.putAll [] attributes) := by
  have hbrought : (g.bring name).outline = g.outline.describe name [] := by
    rw [Digraph.bring, if_neg (by rw [Digraph.hasNode_iff, hnew]; exact Bool.false_ne_true)]
    exact Digraph.outline_append hnew []
  have hbare : (g.bring name).attributesOf name = some [] := by
    rw [← Digraph.outline_nodes, hbrought]
    exact if_pos rfl
  refine ⟨_, by rw [Digraph.putNode, Digraph.withNode_eq]; rfl, ?_⟩
  rw [Digraph.outline_changeNode hbare fun old => Digraph.putAll old attributes, hbrought,
    Outline.describe_describe]

theorem does_addCall (n : SpanNode) (time : Json) :
    Does (Build.addCall n time) fun w =>
      (fun attributes => ((), w.describe n.name attributes)) <$>
        callAttributes n time (w.nodes n.name) := by
  intro c
  rw [Build.addCall, run_bind, run_get]
  cases hfind : c.graph.find? (.str n.name) with
  | none =>
    have hnew : c.graph.attributesOf n.name = none := by rw [Digraph.attributesOf, hfind]; rfl
    obtain ⟨g', hput, houtline⟩ :=
      outline_putNode hnew [("execution_time", time), ("count", .int 1), ("type", .str n.kind.name),
        ("weight", n.weight)]
    simp only [hfind, hput, run_bind, run_liftExcept, run_modify, Digraph.outline_nodes, hnew]
    exact congrArg (fun w => Except.ok ((), w)) houtline
  | some node =>
    have hold : c.graph.attributesOf n.name = some node.attributes := by
      rw [Digraph.attributesOf, hfind]; rfl
    have hraised (key : String) (more : Json) :
        (do Data.add (← Data.member (.obj node.attributes) key) more) =
          raised node.attributes key more := rfl
    simp only [hfind, run_bind, run_liftExcept, run_modify, Digraph.outline_nodes, hold, hraised,
      callAttributes]
    cases raised node.attributes "execution_time" time with
    | error e => rfl
    | ok total =>
      -- The time is entered before the count is read. If the count cannot be read, the graph is
      -- given up anyway.
      cases raised node.attributes "count" (.int 1) with
      | error e => rfl
      | ok count =>
        refine congrArg (fun w => Except.ok ((), w)) ?_
        have htimed := Digraph.outline_changeNode hold (Json.put · "execution_time" total)
        have hmid : (c.graph.changeNode (.str n.name) fun node => { node with
            attributes := Json.put node.attributes "execution_time" total }).attributesOf n.name =
              some (Json.put node.attributes "execution_time" total) := by
          rw [← Digraph.outline_nodes, htimed]
          exact if_pos rfl
        rw [Digraph.outline_changeNode hmid (Json.put · "count" count), htimed,
          Outline.describe_describe]

theorem findEdge_eq (g : Digraph) (source target : String) :
    g.findEdge (.str source) (.str target) = .ok (g.attributesBetween source target) := by
  unfold Digraph.findEdge
  cases hnode : g.hasNode (.str source) with
  | true => simp [Data.key, Data.isKey, bind, Except.bind, hnode, pure, Except.pure,
    Digraph.edge?_eq]
  | false =>
    have hnone : g.find? (.str source) = none := by
      rw [← Option.not_isSome_iff_eq_none]
      exact Bool.eq_false_iff.mp hnode
    simp [Data.key, Data.isKey, bind, Except.bind, hnode, pure, Except.pure,
      Digraph.attributesBetween, hnone]

/-- Sets what an edge weighs, which is brought in with its ends one after the other. -/
def setWeight (g : Digraph) (source target : String) (weight : Json) : Build Unit := do
  let g ← liftExcept (g.withNode (.str source))
  modify fun c => { c with graph := g }
  let g ← liftExcept (g.putEdge (.str source) (.str target) "weight" weight)
  modify fun c => { c with graph := g }

theorem addEdge_eq (source target : String) (weight : Json) :
    Build.addEdge (.str source) (.str target) weight = (do
      let c ← get
      let sum ← liftExcept (callWeight weight (c.graph.attributesBetween source target))
      setWeight c.graph source target sum) := by
  unfold Build.addEdge
  refine congrArg (get >>= ·) (funext fun c => ?_)
  show (liftExcept (c.graph.findEdge (.str source) (.str target)) >>= _ : Build Unit) = _
  rw [findEdge_eq]
  cases c.graph.attributesBetween source target <;> rfl

theorem does_addEdge (source target : String) (weight : Json) :
    Does (Build.addEdge (.str source) (.str target) weight) fun w =>
      (fun sum => ((), w.join source target sum)) <$>
        callWeight weight (w.edges source target) := by
  intro c
  rw [addEdge_eq, run_bind, run_get]
  simp only [run_bind, run_liftExcept, Digraph.outline_edges]
  cases callWeight weight (c.graph.attributesBetween source target) with
  | error e => rfl
  | ok sum =>
    simp only [setWeight, run_bind, run_liftExcept, run_modify, Digraph.withNode_eq,
      Digraph.putEdge_eq]
    exact congrArg (fun w => Except.ok ((), w)) (Digraph.outline_join source target sum)

theorem itemsOf_eq {j : Json} {xs : List Json} (h : Data.items j = .ok xs) :
    itemsOf j = xs := by rw [itemsOf, h]

theorem findSpan_eq_ok {number : Json} {spans : List Json} {r : Option Json}
    (h : Build.findSpan number spans = .ok r) : r = spans.find? (hasNumber number) := by
  induction spans with
  | nil =>
    cases h
    rfl
  | cons span spans ih =>
    obtain ⟨id, hid, h⟩ := except_bind_eq_ok.mp h
    have hnumber : hasNumber number span = Data.same id number := by rw [hasNumber, hasField, hid]
    rw [List.find?_cons, hnumber]
    cases hsame : Data.same id number with
    | true =>
      rw [hsame] at h
      cases h
      rfl
    | false =>
      rw [hsame] at h
      exact ih h

theorem passOn_of_not_root (h : n.isRoot = false) (weight : Json) : passOn weight n = weight := by
  rw [passOn, SpanNode.sets, h]
  rfl

theorem passOn_of_root {b : Bool} (hroot : n.isRoot = true) (hkind : n.kind = .api)
    (h : Data.isPositive n.weight = .ok b) (weight : Json) :
    passOn weight n = if b then n.weight else weight := by
  rw [passOn, SpanNode.sets, hroot, hkind, h]
  cases b <;> rfl

theorem passOn_of_kind (h : n.kind ≠ .api) (weight : Json) : passOn weight n = weight := by
  rw [passOn, SpanNode.sets, decide_eq_false h, Bool.and_false]
  rfl

/-! ## No node is there twice -/

/-- The graph has no node twice and no edge twice. -/
def IsNamed (c : CallGraph) : Prop := c.graph.Named

theorem keeps_putGraph {g : Digraph} (h : g.Named) :
    Keeps IsNamed (modify fun c => { c with graph := g } : Build Unit) := fun _ _ => h

theorem keeps_addCall (n : SpanNode) (time : Json) : Keeps IsNamed (Build.addCall n time) := by
  refine keeps_get_bind fun c h => ?_
  cases hfind : c.graph.find? (.str n.name) with
  | none =>
    simp only [hfind]
    refine keeps_liftExcept_bind fun g hg => keeps_putGraph ?_
    rw [Digraph.putNode, Digraph.withNode_eq] at hg
    cases hg
    exact Digraph.Named.setAttributes (Digraph.Named.bring h n.name) n.name (Digraph.putAll · _)
  | some node =>
    simp only [hfind]
    refine keeps_liftExcept_bind fun total _ => ?_
    have htimed := Digraph.Named.setAttributes h n.name (Json.put · "execution_time" total)
    refine keeps_bind (keeps_putGraph htimed) fun _ => keeps_liftExcept_bind fun count _ => ?_
    exact keeps_putGraph (Digraph.Named.setAttributes htimed n.name (Json.put · "count" count))

theorem keeps_addEdge (source target : String) (weight : Json) :
    Keeps IsNamed (Build.addEdge (.str source) (.str target) weight) := by
  rw [addEdge_eq]
  refine keeps_get_bind fun c h => keeps_liftExcept_bind fun sum _ =>
    keeps_liftExcept_bind fun g hg => ?_
  cases (Digraph.withNode_eq source).symm.trans hg
  refine keeps_bind (keeps_putGraph (Digraph.Named.bring h source)) fun _ =>
    keeps_liftExcept_bind fun g hg => ?_
  cases (Digraph.putEdge_eq source target sum).symm.trans hg
  exact keeps_putGraph (Digraph.Named.join h source target sum)

/-! ## Legible traces -/

variable [PatternReader]

/-- What is asked of the surroundings of a node can be answered: whether it sets what calls weigh,
and who called it. -/
structure NodeLegible (apis : Json) (spans : List Json) (n : SpanNode) : Prop where
  weight : n.isRoot = true → n.kind = .api → ∃ b, Data.isPositive n.weight = .ok b
  parent : n.isRoot = false → ∃ r, Build.findSpan n.parentSpanId spans = .ok r ∧
    ∀ span, r = some span → ∃ name, parentName apis span = .ok (.str name)

/-- All that is asked of a trace can be answered. -/
structure Legible (find : TableFinder) (apis : Json) (spans : List Json) : Prop where
  read : ∀ span ∈ spans, ∃ r, spanNodes find apis span = .ok r
  nodes : ∀ span ∈ spans, ∀ n ∈ emitted find apis span, NodeLegible apis spans n

/-- The traces can be run through, and all that is asked of them can be answered. -/
structure TracesLegible (find : TableFinder) (apis traces : Json) : Prop where
  items : ∃ ts, Data.items traces = .ok ts
  traces : ∀ t ∈ itemsOf traces, (∃ spans, Data.items t = .ok spans) ∧ Legible find apis (itemsOf t)

/-! ## Steps that enter visits -/

variable {find : TableFinder} {apis : Json} {spans : List Json}

theorem callerOf_of_root (h : n.isRoot = true) : callerOf apis spans n = none := by
  rw [callerOf, parentOf, if_pos h]
  rfl

/-- What is left to do for a node when its call has been counted. -/
def addLink (apis : Json) (spans : List Json) (weight : Json) (n : SpanNode) : Build Json := do
  if !Data.same n.parentSpanId (.int (-1)) then
    match ← liftExcept (Build.findSpan n.parentSpanId spans) with
    | some parent => do
      let source ← liftExcept (parentName apis parent)
      Build.addEdge source (.str n.name) weight
      return weight
    | none => return weight
  else if n.kind = .api then
    modify fun c => { c with apis := c.apis ++ [n] }
    if ← liftExcept (Data.isPositive n.weight) then return n.weight else return weight
  else return weight

theorem addNode_eq (weight : Json) (n : SpanNode) :
    Build.addNode apis spans weight n = (do
      let time ← liftExcept (Data.subtract n.endTime n.startTime)
      Build.addCall n time
      addLink apis spans weight n) := rfl

theorem does_addLink (h : NodeLegible apis spans n) (weight : Json) :
    Does (addLink apis spans weight n) fun w =>
      (passOn weight n, ·) <$> enterCall n.name ((callerOf apis spans n).map (·, weight)) w := by
  intro c
  unfold addLink
  cases hroot : n.isRoot with
  | false =>
    obtain ⟨r, hfound, hname⟩ := h.parent hroot
    have hcaller : callerOf apis spans n = r.bind (nodeId apis) := by
      rw [callerOf, parentOf, hroot, findSpan_eq_ok hfound]
      rfl
    rw [SpanNode.isRoot] at hroot
    rw [passOn_of_not_root hroot, hcaller, if_pos (by rw [hroot]; rfl), hfound]
    cases r with
    | none => rfl
    | some parent =>
      obtain ⟨source, hsource⟩ := hname parent rfl
      have hid : nodeId apis parent = some source := by rw [nodeId, hsource]
      rw [Option.bind_some, hid]
      show outlined ((liftExcept (parentName apis parent) >>= fun source =>
        Build.addEdge source (.str n.name) weight >>= fun _ => pure weight : Build Json).run.run
          c) = _
      rw [hsource]
      refine (does_bind (does_addEdge source n.name weight)
        (fun _ _ _ _ => does_pure weight) c).trans ?_
      show (_ <$> callWeight weight (c.graph.outline.edges source n.name) >>= _) =
        (weight, ·) <$> (c.graph.outline.join source n.name <$>
          callWeight weight (c.graph.outline.edges source n.name))
      cases callWeight weight (c.graph.outline.edges source n.name) <;> rfl
  | true =>
    rw [callerOf_of_root hroot]
    rw [if_neg (by rw [← SpanNode.isRoot, hroot]; simp)]
    by_cases hkind : n.kind = .api
    · obtain ⟨b, hb⟩ := h.weight hroot hkind
      rw [if_pos hkind, passOn_of_root hroot hkind hb, hb]
      cases b <;> rfl
    · rw [if_neg hkind, passOn_of_kind hkind]
      rfl

theorem enters_addNode (h : NodeLegible apis spans n) (weight : Json) :
    Enters (Build.addNode apis spans weight n) [⟨n, (callerOf apis spans n).map (·, weight)⟩]
      (passOn weight n) := by
  rw [addNode_eq]
  intro c
  refine (does_bind (does_liftExcept _) (fun _ time _ _ => does_bind (does_addCall n time)
      fun _ _ _ _ =>
    does_addLink h weight) c).trans ?_
  show _ = (passOn weight n, ·) <$> (enter c.graph.outline ⟨n, _⟩ >>= fun w => pure w)
  rw [bind_pure, enter]
  cases Data.subtract n.endTime n.startTime with
  | error e => rfl
  | ok time =>
    show (_ <$> callAttributes n time (c.graph.outline.nodes n.name) >>= _) =
      (passOn weight n, ·) <$> (callAttributes n time (c.graph.outline.nodes n.name) >>= _)
    cases callAttributes n time (c.graph.outline.nodes n.name) <;> rfl

theorem visitsFrom_append (weight : Json) (ns ms : List SpanNode) :
    visitsFrom apis spans weight (ns ++ ms) =
      visitsFrom apis spans weight ns ++ visitsFrom apis spans (ns.foldl passOn weight) ms := by
  induction ns generalizing weight with
  | nil => rfl
  | cons n ns ih => exact congrArg (_ :: ·) (ih (passOn weight n))

/-- Which nodes are visited, and from where, does not depend on what calls weigh. -/
theorem map_visitsFrom (weight : Json) (ns : List SpanNode) :
    (visitsFrom apis spans weight ns).map (fun v => (v.node, v.caller)) =
      ns.map fun n => (n, callerOf apis spans n) := by
  induction ns generalizing weight with
  | nil => rfl
  | cons n ns ih =>
    rw [visitsFrom, List.map_cons, List.map_cons, ih (passOn weight n)]
    cases h : callerOf apis spans n <;> simp [Visit.caller]

/-- A node is visited just if a span emits it. -/
theorem exists_visit_iff {traces : List (List Json)} {caller : Option String} :
    (∃ v ∈ visits find apis traces, v.node = n ∧ v.caller = caller) ↔
      ∃ spans ∈ traces, ∃ span ∈ spans, n ∈ emitted find apis span ∧
      callerOf apis spans n = caller := by
  have hmem (spans : List Json) : (∃ v ∈ visitsOf find apis spans, v.node = n ∧ v.caller = caller) ↔
      n ∈ spans.flatMap (emitted find apis) ∧ callerOf apis spans n = caller := by
    calc (∃ v ∈ visitsOf find apis spans, v.node = n ∧ v.caller = caller)
      _ ↔ (n, caller) ∈ (visitsOf find apis spans).map fun v => (v.node, v.caller) := by
        simp only [List.mem_map, Prod.mk.injEq]
      _ ↔ n ∈ spans.flatMap (emitted find apis) ∧ callerOf apis spans n = caller := by
        rw [visitsOf, map_visitsFrom, List.mem_map]
        constructor
        · rintro ⟨m, hm, heq⟩
          cases heq
          exact ⟨hm, rfl⟩
        · rintro ⟨hm, rfl⟩
          exact ⟨n, hm, rfl⟩
  constructor
  · rintro ⟨v, hv, hnode⟩
    obtain ⟨spans, hspans, hv⟩ := List.mem_flatMap.mp hv
    obtain ⟨hn, hcaller⟩ := (hmem spans).mp ⟨v, hv, hnode⟩
    obtain ⟨span, hspan, hn⟩ := List.mem_flatMap.mp hn
    exact ⟨spans, hspans, span, hspan, hn, hcaller⟩
  · rintro ⟨spans, hspans, span, hspan, hn, hcaller⟩
    obtain ⟨v, hv, hnode⟩ := (hmem spans).mpr ⟨List.mem_flatMap.mpr ⟨span, hspan, hn⟩, hcaller⟩
    exact ⟨v, List.mem_flatMap.mpr ⟨spans, hspans, hv⟩, hnode⟩

theorem enters_addNodes {ns : List SpanNode} (h : ∀ n ∈ ns, NodeLegible apis spans n)
    (weight : Json) :
    Enters (ns.foldlM (Build.addNode apis spans) weight) (visitsFrom apis spans weight ns)
      (ns.foldl passOn weight) := by
  induction ns generalizing weight with
  | nil => exact enters_pure weight
  | cons n ns ih =>
    obtain ⟨hn, hns⟩ := List.forall_mem_cons.mp h
    rw [List.foldlM_cons]
    exact enters_bind (enters_addNode hn weight) (ih hns (passOn weight n))

theorem enters_addSpan {span : Json} (hread : ∃ r, spanNodes find apis span = .ok r)
    (h : ∀ n ∈ emitted find apis span, NodeLegible apis spans n) (weight : Json) :
    Enters (Build.addSpan find apis spans weight span)
      (visitsFrom apis spans weight (emitted find apis span))
      ((emitted find apis span).foldl passOn weight) := by
  obtain ⟨r, hr⟩ := hread
  rw [emitted_eq hr] at h ⊢
  refine enters_liftExcept hr ?_
  cases r with
  | none => exact enters_pure weight
  | some ns => exact enters_addNodes h weight

/-- The spans are run through while the parents are looked up among all of them. -/
theorem enters_addSpans {rest : List Json}
    (hread : ∀ span ∈ rest, ∃ r, spanNodes find apis span = .ok r)
    (h : ∀ span ∈ rest, ∀ n ∈ emitted find apis span, NodeLegible apis spans n) (weight : Json) :
    Enters (rest.foldlM (Build.addSpan find apis spans) weight)
      (visitsFrom apis spans weight (rest.flatMap (emitted find apis)))
      ((rest.flatMap (emitted find apis)).foldl passOn weight) := by
  induction rest generalizing weight with
  | nil => exact enters_pure weight
  | cons span rest ih =>
    obtain ⟨hspan, hrest⟩ := List.forall_mem_cons.mp hread
    obtain ⟨hn, hns⟩ := List.forall_mem_cons.mp h
    rw [List.foldlM_cons, List.flatMap_cons, visitsFrom_append, List.foldl_append]
    exact enters_bind (enters_addSpan hspan hn weight) (ih hrest hns _)

theorem enters_addTrace {trace : Json} (hitems : Data.items trace = .ok spans)
    (h : Legible find apis spans) :
    Enters (Build.addTrace find apis trace) (visitsOf find apis spans) () := by
  refine enters_liftExcept hitems ?_
  have hspans := enters_addSpans h.read h.nodes (.int 1)
  rw [visitsOf, ← List.append_nil (visitsFrom _ _ _ _)]
  exact enters_bind hspans (enters_pure ())

/-- Making the graph of legible traces is entering their visits. -/
theorem enters_addTraces (h : TracesLegible find apis traces) :
    Enters (Build.addTraces find apis traces) (visits find apis (tracesOf traces)) () := by
  obtain ⟨ts, hts⟩ := h.items
  refine enters_liftExcept hts ?_
  have hlegible := h.traces
  rw [tracesOf, itemsOf_eq hts] at *
  clear hts h
  induction ts with
  | nil => exact enters_pure ()
  | cons t ts ih =>
    obtain ⟨⟨⟨spans, hitems⟩, hspans⟩, hrest⟩ := List.forall_mem_cons.mp hlegible
    rw [itemsOf_eq hitems] at hspans
    rw [List.map_cons, visits, List.flatMap_cons, itemsOf_eq hitems]
    exact enters_bind (enters_addTrace hitems hspans) (ih hrest)

/-! ## Runs that come to their end -/

theorem spanNodes_of_addSpan {span weight weight' : Json}
    (h : (Build.addSpan find apis spans weight span).run.run c = (.ok weight', c')) :
    ∃ r, spanNodes find apis span = .ok r ∧ ∀ n ∈ emitted find apis span, ∃ w₁ c₁ w₂ c₂,
      (Build.addNode apis spans w₁ n).run.run c₁ = (.ok w₂, c₂) := by
  obtain ⟨r, c₁, hr, hrest⟩ := bind_eq_ok.mp h
  have hspan := (liftExcept_eq_ok.mp hr).1
  refine ⟨r, hspan, fun n hn => ?_⟩
  rw [emitted_eq hspan] at hn
  cases r with
  | none => cases hn
  | some ns => exact of_mem_foldlM hrest hn

/-- A node that was added could be asked about, if the spans of its trace can be read. -/
theorem nodeLegible_of_addNode (hread : ∀ span ∈ spans, ∃ r, spanNodes find apis span = .ok r)
    {weight weight' : Json}
    (h : (Build.addNode apis spans weight n).run.run c = (.ok weight', c')) :
    NodeLegible apis spans n := by
  rw [addNode_eq] at h
  obtain ⟨_, _, -, h⟩ := bind_eq_ok.mp h
  obtain ⟨_, c₁, -, h⟩ := bind_eq_ok.mp h
  unfold addLink at h
  refine ⟨fun hroot hkind => ?_, fun hroot => ?_⟩
  · rw [if_neg (by rw [← SpanNode.isRoot, hroot]; simp), if_pos hkind] at h
    obtain ⟨_, _, -, h⟩ := bind_eq_ok.mp h
    obtain ⟨b, _, hb, -⟩ := bind_eq_ok.mp h
    exact ⟨b, (liftExcept_eq_ok.mp hb).1⟩
  · rw [if_pos (by rw [← SpanNode.isRoot, hroot]; rfl)] at h
    obtain ⟨r, _, hr, h⟩ := bind_eq_ok.mp h
    have hfound := (liftExcept_eq_ok.mp hr).1
    refine ⟨r, hfound, ?_⟩
    rintro parent rfl
    obtain ⟨j, _, hj, -⟩ := bind_eq_ok.mp h
    have hname := (liftExcept_eq_ok.mp hj).1
    obtain ⟨r, hr⟩ := hread parent (List.mem_of_find?_eq_some (findSpan_eq_ok hfound).symm)
    obtain ⟨name, rfl⟩ := parentName_text hr hname
    exact ⟨name, hname⟩

/-- Traces whose graph was made are legible. -/
theorem legible_of_addTraces (h : (Build.addTraces find apis traces).run.run c = (.ok (), c')) :
    TracesLegible find apis traces := by
  obtain ⟨ts, c₁, hts, h⟩ := bind_eq_ok.mp h
  have hitems := (liftExcept_eq_ok.mp hts).1
  refine ⟨⟨ts, hitems⟩, fun t ht => ?_⟩
  rw [itemsOf_eq hitems] at ht
  obtain ⟨c₁, c₂, htrace⟩ := of_mem_forM h ht
  obtain ⟨spans, _, hspans, hrun⟩ := bind_eq_ok.mp htrace
  have hspans' := (liftExcept_eq_ok.mp hspans).1
  rw [itemsOf_eq hspans']
  obtain ⟨_, _, hfold, -⟩ := bind_eq_ok.mp hrun
  have hread : ∀ span ∈ spans, ∃ r, spanNodes find apis span = .ok r := by
    intro span hmem
    obtain ⟨_, _, _, _, hadd⟩ := of_mem_foldlM hfold hmem
    obtain ⟨r, hr, -⟩ := spanNodes_of_addSpan hadd
    exact ⟨r, hr⟩
  refine ⟨⟨spans, hspans'⟩, hread, fun span hmem n hn => ?_⟩
  obtain ⟨_, _, _, _, hadd⟩ := of_mem_foldlM hfold hmem
  obtain ⟨-, -, hnodes⟩ := spanNodes_of_addSpan hadd
  obtain ⟨_, _, _, _, hnode⟩ := hnodes n hn
  exact nodeLegible_of_addNode hread hnode

/-- A run that came to its end entered all visits of the traces. -/
theorem visits_of_addTraces (h : (Build.addTraces find apis traces).run.run c = (.ok (), c')) :
    (visits find apis (tracesOf traces)).foldlM enter c.graph.outline = .ok c'.graph.outline := by
  have henters := (enters_addTraces (legible_of_addTraces h)).run c
  rw [h] at henters
  cases hfold : (visits find apis (tracesOf traces)).foldlM enter c.graph.outline with
  | error e =>
    rw [hfold] at henters
    cases henters
  | ok w =>
    rw [hfold] at henters
    cases henters
    rfl

/-- A run comes to its end if the traces are legible and their visits can be entered. -/
theorem addTraces_of_visits (h : TracesLegible find apis traces) {w : Outline}
    (hvisits : (visits find apis (tracesOf traces)).foldlM enter c.graph.outline = .ok w) :
    ∃ c', (Build.addTraces find apis traces).run.run c = (.ok (), c') ∧ c'.graph.outline = w := by
  have henters := (enters_addTraces h).run c
  rcases hrun : (Build.addTraces find apis traces).run.run c with ⟨e | ⟨⟩, c'⟩
  · rw [hrun, hvisits] at henters
    cases henters
  · rw [hrun, hvisits] at henters
    cases henters
    exact ⟨c', rfl, rfl⟩

theorem keeps_addNode (h : NodeLegible apis spans n) (weight : Json) :
    Keeps IsNamed (Build.addNode apis spans weight n) := by
  rw [addNode_eq]
  refine keeps_liftExcept_bind fun time _ => keeps_bind (keeps_addCall n time) fun _ => ?_
  unfold addLink
  split
  · next hroot =>
    obtain ⟨r, hfound, hname⟩ := h.parent (by simpa [SpanNode.isRoot] using hroot)
    refine keeps_liftExcept_bind fun r' hr' => ?_
    cases hfound.symm.trans hr'
    cases r with
    | none => exact keeps_pure weight
    | some parent =>
      obtain ⟨source, hsource⟩ := hname parent rfl
      refine keeps_liftExcept_bind fun j hj => ?_
      cases hsource.symm.trans hj
      exact keeps_bind (keeps_addEdge source n.name weight) fun _ => keeps_pure weight
  · split
    · refine keeps_bind (keeps_modify fun _ hc => hc) fun _ => keeps_liftExcept_bind fun b _ => ?_
      cases b <;> exact keeps_pure _
    · exact keeps_pure weight

/-- Making the graph of legible traces brings no node in twice. -/
theorem keeps_addTraces (h : TracesLegible find apis traces) :
    Keeps IsNamed (Build.addTraces find apis traces) := by
  refine keeps_liftExcept_bind fun ts hts => keeps_forM_of_mem fun t ht => ?_
  obtain ⟨-, hlegible⟩ := h.traces t (by rw [itemsOf_eq hts]; exact ht)
  refine keeps_liftExcept_bind fun spans hspans => ?_
  rw [itemsOf_eq hspans] at hlegible
  refine keeps_bind (keeps_foldlM (fun span hspan weight => ?_) _) fun _ => keeps_pure ()
  refine keeps_liftExcept_bind fun r hr => ?_
  have hnodes := hlegible.nodes span hspan
  rw [emitted_eq hr] at hnodes
  cases r with
  | none => exact keeps_pure weight
  | some ns => exact keeps_foldlM (fun n hn weight => keeps_addNode (hnodes n hn) weight) weight

end Coupling.Trace
