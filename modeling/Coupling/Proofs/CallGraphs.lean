import Coupling.Proofs.Numbers
import Coupling.Proofs.Visits

/-!
# Call graphs add up

A call graph is what the visits of its traces add up to (`Aggregates`): a node that was visited
carries the number of its visits, the time they took together, and what the first of them said of
it; a node that only calls carries nothing; an edge is there for each pair of nodes of which the
first called the second, and it weighs as much as these calls together. The sums are taken one by
one in the order of the visits. If all values are whole numbers, the order does not matter.
-/

namespace Coupling.Trace

open Data (Result)
open Steps

/-! ## What visits add up to -/

/-- The nodes with a name that were visited. -/
def called (vs : List Visit) (name : String) : List SpanNode :=
  (vs.map (·.node)).filter (·.name = name)

/-- How long the span of a node took. -/
def SpanNode.duration (n : SpanNode) : Result Json := Data.subtract n.endTime n.startTime

/-- How long the spans of some nodes took together. -/
def spent (ns : List SpanNode) : Result Json := ns.mapM SpanNode.duration >>= Data.total

/-- What a visit says of a call from one node to another. -/
def Visit.crossing (source target : String) (v : Visit) : Option Json :=
  match v.call with
  | some (caller, weight) => if caller = source ∧ v.node.name = target then some weight else none
  | none => none

/-- What each call from one node to another weighs. -/
def crossings (vs : List Visit) (source target : String) : List Json :=
  vs.filterMap (Visit.crossing source target)

/-- Whether a node called another. -/
def isCaller (vs : List Visit) (name : String) : Bool := vs.any (·.caller == some name)

/-- What a node carries that was visited so many times. -/
def description (first : SpanNode) (time : Json) (count : Nat) : Attributes :=
  [("execution_time", time), ("count", .int count), ("type", .str first.kind.name),
    ("weight", first.weight)]

/-- A graph is by its names what visits add up to. -/
structure Aggregates (vs : List Visit) (w : Outline) : Prop where
  described : ∀ name first rest, called vs name = first :: rest →
    ∃ time, spent (called vs name) = .ok time ∧
    w.nodes name = some (description first time (called vs name).length)
  bare : ∀ name, called vs name = [] → w.nodes name = if isCaller vs name then some [] else none
  joined : ∀ source target, crossings vs source target ≠ [] → ∃ weight,
    Data.total (crossings vs source target) = .ok weight ∧
    w.edges source target = some [("weight", weight)]
  apart : ∀ source target, crossings vs source target = [] → w.edges source target = none

theorem aggregates_nil : Aggregates [] .empty where
  described _ _ _ h := nomatch h
  bare _ _ := rfl
  joined _ _ h := absurd rfl h
  apart _ _ _ := rfl

variable {name source target : String} {ns : List SpanNode} {n : SpanNode} {time : Json} {v : Visit}
  {traces : List (List Json)}

theorem Aggregates.exists_description {vs : List Visit} {w : Outline} (h : Aggregates vs w)
    (hname : called vs name ≠ []) : ∃ first time, spent (called vs name) = .ok time ∧
      w.nodes name = some (description first time (called vs name).length) := by
  obtain ⟨first, rest, hfirst⟩ := List.exists_cons_of_ne_nil hname
  obtain ⟨time, htime, hnode⟩ := h.described name first rest hfirst
  exact ⟨first, time, htime, hnode⟩

/-! ## One more visit -/

theorem called_concat (vs : List Visit) (v : Visit) (name : String) :
    called (vs ++ [v]) name = called vs name ++ if v.node.name = name then [v.node] else [] := by
  rw [called, called, List.map_append, List.filter_append]
  congr 1
  by_cases h : v.node.name = name <;> simp [h]

theorem isCaller_concat (vs : List Visit) (v : Visit) (name : String) :
    isCaller (vs ++ [v]) name = (isCaller vs name || v.caller == some name) := by
  rw [isCaller, isCaller, List.any_append, List.any_cons, List.any_nil, Bool.or_false]

theorem crossings_concat (vs : List Visit) (v : Visit) (source target : String) :
    crossings (vs ++ [v]) source target = crossings vs source target ++
      (v.crossing source target).toList := by
  rw [crossings, crossings, List.filterMap_append]
  congr 1

theorem spent_concat (hns : ns ≠ []) {more : Json} (htime : spent ns = .ok time)
    (hmore : n.duration = .ok more) :
    spent (ns ++ [n]) = Data.add time more := by
  obtain ⟨times, htimes, htotal⟩ := except_bind_eq_ok.mp htime
  have hne : times ≠ [] := by
    rintro rfl
    cases ns with
    | nil => exact hns rfl
    | cons n ns =>
      rw [List.mapM_cons] at htimes
      obtain ⟨_, -, htimes⟩ := except_bind_eq_ok.mp htimes
      obtain ⟨_, -, htimes⟩ := except_bind_eq_ok.mp htimes
      cases htimes
  have hall : (ns ++ [n]).mapM SpanNode.duration = .ok (times ++ [more]) := by
    rw [List.mapM_append, htimes, List.mapM_cons, hmore]
    rfl
  rw [spent, hall]
  show Data.total (times ++ [more]) = _
  rw [Data.total_concat hne, htotal]
  rfl

theorem spent_singleton (h : n.duration = .ok time) : spent [n] = .ok time := by
  rw [spent, List.mapM_cons, h]
  rfl

/-- A call to a node that was visited adds to its time and is counted. -/
theorem callAttributes_description (n first : SpanNode) (time more : Json) (count : Nat) :
    callAttributes n more (some (description first time count)) =
      Data.add time more >>= fun sum => .ok (description first sum (count + 1)) := by
  rfl

/-- What the node of a visit carries after it. -/
theorem Aggregates.call {vs : List Visit} {w : Outline} (h : Aggregates vs w)
    (htime : v.node.duration = .ok time)
    {attributes : Attributes}
    (hcall : callAttributes v.node time (w.nodes v.node.name) = .ok attributes) :
    ∃ first rest sum, called (vs ++ [v]) v.node.name = first :: rest ∧
      spent (first :: rest) = .ok sum ∧
      attributes = description first sum (first :: rest).length := by
  rw [called_concat, if_pos rfl]
  cases hcalled : called vs v.node.name with
  | nil =>
    rw [h.bare _ hcalled] at hcall
    split at hcall
    · cases hcall
    · cases hcall
      exact ⟨v.node, [], time, rfl, spent_singleton htime, rfl⟩
  | cons first rest =>
    obtain ⟨sum, hsum, hnode⟩ := h.described _ _ _ hcalled
    rw [hcalled] at hsum hnode
    rw [hnode, callAttributes_description] at hcall
    obtain ⟨sum', hadd, hcall⟩ := except_bind_eq_ok.mp hcall
    cases hcall
    refine ⟨first, rest ++ [v.node], sum', rfl, ?_, ?_⟩
    · exact (spent_concat (List.cons_ne_nil _ _) hsum htime).trans hadd
    · simp

theorem enterCall_eq_ok {caller : String} {weight : Json} {w w' : Outline}
    (h : enterCall name (some (caller, weight)) w = .ok w') :
    ∃ sum, callWeight weight (w.edges caller name) = .ok sum ∧ w' = w.join caller name sum := by
  change w.join caller name <$> callWeight weight (w.edges caller name) = .ok w' at h
  cases hsum : callWeight weight (w.edges caller name) with
  | error e =>
    rw [hsum] at h
    cases h
  | ok sum =>
    rw [hsum] at h
    cases h
    exact ⟨sum, rfl, rfl⟩

/-- A call brings in the caller, if it is not there. -/
theorem enterCall_nodes {call : Option (String × Json)} {w w' : Outline}
    (h : enterCall name call w = .ok w') (hname : (w.nodes name).isSome) (x : String) :
    w'.nodes x = if call.map (·.1) = some x then some ((w.nodes x).getD []) else w.nodes x := by
  rcases call with _ | ⟨caller, weight⟩
  · cases h
    rfl
  · obtain ⟨sum, -, rfl⟩ := enterCall_eq_ok h
    show (if x = caller ∨ x = name then some ((w.nodes x).getD []) else w.nodes x) =
      if some caller = some x then some ((w.nodes x).getD []) else w.nodes x
    by_cases hcaller : x = caller
    · rw [if_pos (.inl hcaller), if_pos (congrArg some hcaller.symm)]
    · rw [if_neg (show some caller ≠ some x from fun h => hcaller (Option.some_inj.mp h).symm)]
      split
      · next hx =>
        obtain ⟨attributes, hattributes⟩ := Option.isSome_iff_exists.mp hname
        rw [hx.resolve_left hcaller, hattributes, Option.getD_some]
      · rfl

theorem crossing_eq_some {weight : Json} (h : v.crossing source target = some weight) :
    v.call = some (source, weight) ∧ v.node.name = target := by
  unfold Visit.crossing at h
  split at h
  · next caller weight' hcall =>
    split at h
    · next hends =>
      cases h
      rw [hcall, hends.1]
      exact ⟨rfl, hends.2⟩
    · cases h
  · cases h

/-- A call along another edge leaves an edge as it is. -/
theorem enterCall_edges_of_none {w w' : Outline} (h : enterCall v.node.name v.call w = .ok w')
    (hcross : v.crossing source target = none) :
    w'.edges source target = w.edges source target := by
  unfold Visit.crossing at hcross
  rcases hcall : v.call with _ | ⟨caller, weight⟩
  · rw [hcall] at h
    cases h
    rfl
  · rw [hcall] at h hcross
    obtain ⟨sum, -, rfl⟩ := enterCall_eq_ok h
    have hends : ¬(source = caller ∧ target = v.node.name) := by
      rintro ⟨rfl, rfl⟩
      simp at hcross
    exact if_neg hends

/-- A call adds to what the edge along which it went weighs. -/
theorem Aggregates.cross {vs : List Visit} {w w₁ w' : Outline} (h : Aggregates vs w)
    (hedges : w₁.edges = w.edges)
    (hcall : enterCall v.node.name v.call w₁ = .ok w') (source target : String) :
    (crossings (vs ++ [v]) source target ≠ [] → ∃ weight,
      Data.total (crossings (vs ++ [v]) source target) = .ok weight ∧
        w'.edges source target = some [("weight", weight)]) ∧
    (crossings (vs ++ [v]) source target = [] → w'.edges source target = none) := by
  rw [crossings_concat]
  cases hcross : v.crossing source target with
  | none =>
    rw [Option.toList_none, List.append_nil, enterCall_edges_of_none hcall hcross, hedges]
    exact ⟨h.joined source target, h.apart source target⟩
  | some weight =>
    obtain ⟨hvia, rfl⟩ := crossing_eq_some hcross
    rw [hvia] at hcall
    obtain ⟨sum, hsum, rfl⟩ := enterCall_eq_ok hcall
    rw [hedges] at hsum
    have hedge : (w₁.join source v.node.name sum).edges source v.node.name =
        some (Json.put ((w.edges source v.node.name).getD []) "weight" sum) := by
      rw [← hedges]
      exact if_pos ⟨rfl, rfl⟩
    rw [Option.toList_some, hedge]
    refine ⟨fun _ => ?_, fun hnil => absurd (List.append_eq_nil_iff.mp hnil).2
      (List.cons_ne_nil _ _)⟩
    by_cases hnew : crossings vs source v.node.name = []
    · rw [h.apart _ _ hnew] at hsum ⊢
      cases hsum
      rw [hnew]
      exact ⟨weight, rfl, rfl⟩
    · obtain ⟨old, hold, hweight⟩ := h.joined _ _ hnew
      rw [hweight] at hsum ⊢
      rw [Data.total_concat hnew, hold]
      exact ⟨sum, hsum, rfl⟩

/-- One more visit. -/
theorem Aggregates.step {vs : List Visit} {w w' : Outline} (h : Aggregates vs w)
    (henter : enter w v = .ok w') :
    Aggregates (vs ++ [v]) w' := by
  obtain ⟨time, htime, henter⟩ := except_bind_eq_ok.mp henter
  obtain ⟨attributes, hattributes, hcall⟩ := except_bind_eq_ok.mp henter
  obtain ⟨first, rest, sum, hcalled, hspent, rfl⟩ := h.call htime hattributes
  have hmid : (w.describe v.node.name (description first sum (first :: rest).length)).nodes
      v.node.name =
      some (description first sum (first :: rest).length) := if_pos rfl
  have hedges : (w.describe v.node.name (description first sum (first :: rest).length)).edges =
    w.edges := rfl
  have hnodes := enterCall_nodes hcall (by rw [hmid]; rfl)
  have hown : w'.nodes v.node.name = some (description first sum (first :: rest).length) := by
    rw [hnodes, hmid]
    split <;> rfl
  have hother {x : String} (hx : x ≠ v.node.name) :
      w'.nodes x = if v.caller = some x then some ((w.nodes x).getD []) else w.nodes x := by
    rw [hnodes]
    simp only [Outline.describe, if_neg hx]
    rfl
  have hold {x : String} (hx : x ≠ v.node.name) : called (vs ++ [v]) x = called vs x := by
    rw [called_concat, if_neg (Ne.symm hx), List.append_nil]
  refine ⟨fun x first' rest' hx => ?_, fun x hx => ?_, fun source target => ?_,
    fun source target => ?_⟩
  · by_cases hname : x = v.node.name
    · subst hname
      cases hcalled.symm.trans hx
      rw [hx]
      exact ⟨sum, hspent, hown⟩
    · rw [hold hname] at hx ⊢
      obtain ⟨time, htime, hnode⟩ := h.described _ _ _ hx
      refine ⟨time, htime, ?_⟩
      rw [hother hname, hnode]
      split <;> rfl
  · have hname : x ≠ v.node.name := by
      rintro rfl
      rw [hcalled] at hx
      cases hx
    rw [hold hname] at hx
    rw [hother hname, isCaller_concat, h.bare x hx]
    by_cases hcaller : v.caller = some x
    · cases hcalls : isCaller vs x <;> simp [hcaller]
    · simp [hcaller]
  · exact (h.cross hedges hcall source target).1
  · exact (h.cross hedges hcall source target).2

/-- What was entered is what the visits add up to. -/
theorem Aggregates.run {vs ws : List Visit} {w w' : Outline} (h : Aggregates vs w)
    (hrun : ws.foldlM enter w = .ok w') : Aggregates (vs ++ ws) w' := by
  induction ws generalizing vs w with
  | nil =>
    cases hrun
    rwa [List.append_nil]
  | cons v ws ih =>
    rw [List.foldlM_cons] at hrun
    obtain ⟨w₁, henter, hrun⟩ := except_bind_eq_ok.mp hrun
    rw [List.append_cons]
    exact ih (h.step henter) hrun

/-! ## Whole numbers -/

/-- The times of a span are whole numbers. -/
def SpanNode.Timed (n : SpanNode) : Prop := Data.IsWhole n.startTime ∧ Data.IsWhole n.endTime

/-- The times of a visit and what its call weighs are whole numbers. -/
def Visit.IsWhole (v : Visit) : Prop := v.node.Timed ∧ ∀ call ∈ v.call, Data.IsWhole call.2

instance (n : SpanNode) : Decidable n.Timed := inferInstanceAs (Decidable (_ ∧ _))

instance (v : Visit) : Decidable v.IsWhole := inferInstanceAs (Decidable (_ ∧ _))

/-- The time that the spans of some nodes took together, as a whole number. -/
def lasted (ns : List SpanNode) : Int :=
  Data.wholeSum (ns.map fun n => .int (Data.wholeOf n.endTime - Data.wholeOf n.startTime))

theorem SpanNode.Timed.duration_eq (h : n.Timed) :
    n.duration = .ok (.int (Data.wholeOf n.endTime - Data.wholeOf n.startTime)) :=
    Data.subtract_whole h.2 h.1

theorem mapM_duration (h : ∀ n ∈ ns, n.Timed) : ns.mapM SpanNode.duration =
    .ok (ns.map fun n => .int (Data.wholeOf n.endTime - Data.wholeOf n.startTime)) := by
  induction ns with
  | nil => rfl
  | cons n ns ih =>
    obtain ⟨hn, hns⟩ := List.forall_mem_cons.mp h
    rw [List.mapM_cons, hn.duration_eq, ih hns]
    rfl

/-- Times that are whole numbers are added up exactly. -/
theorem spent_timed (h : ∀ n ∈ ns, n.Timed) : spent ns = .ok (.int (lasted ns)) := by
  rw [spent, mapM_duration h]
  match ns with
  | [] => rfl
  | [n] =>
    show Except.ok _ = _
    simp [lasted, Data.wholeSum]
  | n :: m :: ns =>
    exact Data.foldlM_add_whole (Data.isWhole_int _) (fun j hj => by
      obtain ⟨k, -, rfl⟩ := List.mem_map.mp hj
      exact Data.isWhole_int _) (List.cons_ne_nil _ _)

theorem lasted_perm {ns' : List SpanNode} (h : ns.Perm ns') : lasted ns = lasted ns' :=
  Data.wholeSum_perm (h.map _)

theorem called_perm {vs vs' : List Visit} (h : (vs.map (·.node)).Perm (vs'.map (·.node)))
    (name : String) :
    (called vs name).Perm (called vs' name) := h.filter _

theorem timed_called {vs : List Visit} (h : ∀ v ∈ vs, v.node.Timed) (name : String) :
    ∀ n ∈ called vs name, n.Timed := by
  intro n hn
  obtain ⟨v, hv, rfl⟩ := List.mem_map.mp (List.mem_filter.mp hn).1
  exact h v hv

theorem isWhole_crossings {vs : List Visit} (h : ∀ v ∈ vs, v.IsWhole) (source target : String) :
    ∀ weight ∈ crossings vs source target, Data.IsWhole weight := by
  intro weight hweight
  obtain ⟨v, hv, hcross⟩ := List.mem_filterMap.mp hweight
  exact (h v hv).2 _ (crossing_eq_some hcross).1

/-! ## The order of the visits -/

/-- The count and the time that a node carries. -/
def figures (attributes : Attributes) : Option Json × Option Json :=
  (Json.get? (.obj attributes) "count", Json.get? (.obj attributes) "execution_time")

/-- Two graphs have the same nodes with the same counts and times, and the same edges with the same
weights. -/
structure Agree (w w' : Outline) : Prop where
  nodes : ∀ name, (w.nodes name).map figures = (w'.nodes name).map figures
  edges : ∀ source target, w.edges source target = w'.edges source target

variable {vs vs' : List Visit} {w w' : Outline}

/-- A node that was visited has counts and times that do not depend on the order of the visits. -/
theorem Aggregates.figures_eq (h : Aggregates vs w) (h' : Aggregates vs' w')
    (hperm : (vs.map (·.node)).Perm (vs'.map (·.node))) (hwhole : ∀ v ∈ vs, v.node.Timed)
    (hname : called vs name ≠ []) :
    (w.nodes name).map figures = (w'.nodes name).map figures := by
  have hcalled := called_perm hperm name
  have hname' : called vs' name ≠ [] := fun hnil => hname (List.perm_nil.mp (hnil ▸ hcalled))
  have htimed := timed_called hwhole name
  have htimed' : ∀ n ∈ called vs' name, n.Timed := fun n hn => htimed n (hcalled.mem_iff.mpr hn)
  obtain ⟨first, time, htime, hnode⟩ := h.exists_description hname
  obtain ⟨first', time', htime', hnode'⟩ := h'.exists_description hname'
  rw [spent_timed htimed] at htime
  rw [spent_timed htimed', ← lasted_perm hcalled] at htime'
  cases htime
  cases htime'
  rw [hnode, hnode', hcalled.length_eq]
  rfl

/-- A graph has the nodes that were visited and those that called. -/
theorem Aggregates.isSome_nodes (h : Aggregates vs w) :
    (w.nodes name).isSome ↔ called vs name ≠ [] ∨ isCaller vs name = true := by
  by_cases hname : called vs name = []
  · rw [h.bare _ hname]
    cases isCaller vs name <;> simp [hname]
  · obtain ⟨first, time, -, hnode⟩ := h.exists_description hname
    simp [hnode, hname]

/-- A graph has the edges along which there were calls. -/
theorem Aggregates.isSome_edges (h : Aggregates vs w) :
    (w.edges source target).isSome ↔ crossings vs source target ≠ [] := by
  by_cases hcross : crossings vs source target = []
  · simp [h.apart _ _ hcross, hcross]
  · obtain ⟨weight, -, hedge⟩ := h.joined _ _ hcross
    simp [hedge, hcross]

/-- If all values are whole numbers, the order of the visits does not matter. -/
theorem Aggregates.agree (h : Aggregates vs w) (h' : Aggregates vs' w') (hperm : vs.Perm vs')
    (hwhole : ∀ v ∈ vs, v.IsWhole) : Agree w w' := by
  have hnodes := hperm.map (·.node)
  refine ⟨fun name => ?_, fun source target => ?_⟩
  · by_cases hname : called vs name = []
    · have hname' : called vs' name = [] :=
        List.perm_nil.mp ((called_perm hnodes name).symm.trans (.of_eq hname))
      have hcaller : isCaller vs name = isCaller vs' name := hperm.any_eq
      rw [h.bare _ hname, h'.bare _ hname', hcaller]
    · exact h.figures_eq h' hnodes (fun v hv => (hwhole v hv).1) hname
  · have hcross : (crossings vs source target).Perm (crossings vs' source target) :=
      hperm.filterMap _
    by_cases hnil : crossings vs source target = []
    · rw [h.apart _ _ hnil, h'.apart _ _ (List.perm_nil.mp (hcross.symm.trans (.of_eq hnil)))]
    · obtain ⟨weight, hweight, hedge⟩ := h.joined _ _ hnil
      obtain ⟨weight', hweight', hedge'⟩ := h'.joined _ _ fun hnil' =>
        hnil (List.perm_nil.mp (hnil' ▸ hcross))
      rw [Data.total_perm hcross (isWhole_crossings hwhole source target), hweight'] at hweight
      cases hweight
      rw [hedge, hedge']

theorem called_ne_nil_iff_exists : called vs name ≠ [] ↔ ∃ v ∈ vs, v.node.name = name := by
  rw [called, ne_eq, List.filter_eq_nil_iff]
  simp

theorem isCaller_iff_exists : isCaller vs name = true ↔ ∃ v ∈ vs, v.caller = some name := by
  simp [isCaller]

theorem crossings_ne_nil_iff_exists :
    crossings vs source target ≠ [] ↔ ∃ v ∈ vs, v.node.name = target ∧ v.caller = some source := by
  constructor
  · intro h
    obtain ⟨weight, hweight⟩ := List.exists_mem_of_ne_nil _ h
    obtain ⟨v, hv, hcross⟩ := List.mem_filterMap.mp hweight
    obtain ⟨hcall, hname⟩ := crossing_eq_some hcross
    exact ⟨v, hv, hname, by rw [Visit.caller, hcall]; rfl⟩
  · rintro ⟨v, hv, hname, hcaller⟩
    obtain ⟨⟨caller, weight⟩, hcall, rfl⟩ := Option.map_eq_some_iff.mp hcaller
    refine List.ne_nil_of_mem (List.mem_filterMap.mpr ⟨v, hv, ?_⟩) (a := weight)
    rw [Visit.crossing, hcall]
    exact if_pos ⟨rfl, hname⟩

/-! ## The graph of some traces -/

variable {find : TableFinder} {apis : Json}

section

variable [PatternReader]

/-- A span of some traces emits a node with a name. -/
def Emits (find : TableFinder) (apis : Json) (traces : List (List Json)) (name : String) : Prop :=
  ∃ spans ∈ traces, ∃ span ∈ spans, ∃ n ∈ emitted find apis span, n.name = name

/-- A span of some traces emits a node with a name, and another one is found as its parent. -/
def Calls (find : TableFinder) (apis : Json) (traces : List (List Json)) (source target : String) :
    Prop :=
  ∃ spans ∈ traces, ∃ span ∈ spans, ∃ n ∈ emitted find apis span, n.name = target ∧
  callerOf apis spans n = some source

theorem called_ne_nil_iff : called (visits find apis traces) name ≠ [] ↔
    Emits find apis traces name := by
  rw [called_ne_nil_iff_exists]
  constructor
  · rintro ⟨v, hv, hname⟩
    obtain ⟨spans, hspans, span, hspan, hn, -⟩ := exists_visit_iff.mp ⟨v, hv, rfl, rfl⟩
    exact ⟨spans, hspans, span, hspan, v.node, hn, hname⟩
  · rintro ⟨spans, hspans, span, hspan, n, hn, hname⟩
    obtain ⟨v, hv, rfl, -⟩ := exists_visit_iff.mpr ⟨spans, hspans, span, hspan, hn, rfl⟩
    exact ⟨v, hv, hname⟩

theorem crossings_ne_nil_iff :
    crossings (visits find apis traces) source target ≠ [] ↔
    Calls find apis traces source target := by
  rw [crossings_ne_nil_iff_exists]
  constructor
  · rintro ⟨v, hv, hname, hcaller⟩
    obtain ⟨spans, hspans, span, hspan, hn, hcaller⟩ := exists_visit_iff.mp ⟨v, hv, rfl, hcaller⟩
    exact ⟨spans, hspans, span, hspan, v.node, hn, hname, hcaller⟩
  · rintro ⟨spans, hspans, span, hspan, n, hn, hname, hcaller⟩
    obtain ⟨v, hv, rfl, hcaller'⟩ := exists_visit_iff.mpr ⟨spans, hspans, span, hspan, hn, hcaller⟩
    exact ⟨v, hv, hname, hcaller'⟩

variable {traces : Json} {c c' : CallGraph} (hstart : c.graph = .empty)
  (hrun : (Build.addTraces find apis traces).run.run c = (.ok (), c'))
include hstart hrun

/-- A graph that was made of traces from nothing is what their visits add up to. -/
theorem aggregates_of_addTraces :
    Aggregates (visits find apis (tracesOf traces)) c'.graph.outline := by
  have hvisits := visits_of_addTraces hrun
  rw [hstart, Digraph.outline_empty] at hvisits
  exact aggregates_nil.run hvisits

theorem named_of_addTraces : c'.graph.Named := by
  refine (keeps_addTraces (legible_of_addTraces hrun)).of_run ?_ hrun
  rw [IsNamed, hstart]
  exact Digraph.named_empty

end

/-- A node carries something just if it was visited. -/
theorem Aggregates.carries_iff (h : Aggregates vs w) :
    (∃ attributes, w.nodes name = some attributes ∧ attributes ≠ []) ↔ called vs name ≠ [] := by
  constructor
  · rintro ⟨attributes, hnode, hne⟩ hnil
    rw [h.bare _ hnil] at hnode
    split at hnode
    · cases hnode
      exact hne rfl
    · cases hnode
  · intro hname
    obtain ⟨first, time, -, hnode⟩ := h.exists_description hname
    exact ⟨_, hnode, List.cons_ne_nil _ _⟩

/-- Traces as one value. -/
def tracesRecord (traces : List (List Json)) : Json := .arr (traces.map .arr)

theorem tracesOf_tracesRecord (traces : List (List Json)) :
    tracesOf (tracesRecord traces) = traces := by
  rw [tracesOf, tracesRecord]
  show (traces.map Json.arr).map itemsOf = traces
  rw [List.map_map]
  exact List.map_id _

/-- A span with the fields that are read of it. -/
def spanRecord (number parent : Int) (type layer endpoint : String) (start stop : Json)
    (tags : List (String × Json)) :
    Json :=
  .obj [("traceId", .str "t"), ("segmentId", .str "s"), ("spanId", .int number),
    ("parentSpanId", .int parent), ("startTime", start), ("endTime", stop),
    ("endpointName", .str endpoint), ("type", .str type), ("layer", .str layer),
    ("tags", .arr (tags.map fun t => .obj [("key", .str t.1), ("value", t.2)]))]

/-- A finder that finds one table in every statement. -/
def oneTable : TableFinder := fun _ => .ok ["users"]

/-- An entry that weighs something and calls two services, of which one asks a database. -/
def loginSpans (weight : Int) : List Json :=
  [spanRecord 0 (-1) "Entry" "Http" "/login" (.int 0) (.int 9) [("weight", .int weight)],
    spanRecord 1 0 "Local" "Unknown" "check" (.int 1) (.int 6) [],
    spanRecord 2 1 "Exit" "Database" "Mysql/query" (.int 2) (.int 5)
      [("db.type", .str "sql"), ("db.instance", .str "main"),
        ("db.statement", .str "select 1 from users")],
    spanRecord 3 0 "Local" "Unknown" "audit" (.int 6) (.int 8) []]

/-- The graph that is made of traces, from nothing, holds exactly what their spans add up to. No
node and no edge is there twice. The nodes that carry something are those that spans emit, with the
number of these spans, the time they took, and the kind and the weight of the first; the edges are
those from the parents that are found, with what the calls weigh. The sums are taken in the order of
the spans. If times and weights are whole numbers, the sums are exact, and the same traces in
another order give the same nodes with the same counts and times and the same edges with the same
weights. -/
theorem call_graph_exact [PatternReader] {traces : Json} {c c' : CallGraph}
    (hstart : c.graph = .empty)
    (hrun : (Build.addTraces find apis traces).run.run c = (.ok (), c')) :
    let vs := visits find apis (tracesOf traces)
    c'.graph.Named ∧ Aggregates vs c'.graph.outline ∧
    (∀ name, (∃ attributes, c'.graph.attributesOf name = some attributes ∧ attributes ≠ []) ↔
      Emits find apis (tracesOf traces) name) ∧
    (∀ source target, (c'.graph.attributesBetween source target).isSome ↔
      Calls find apis (tracesOf traces) source target) ∧
    ((∀ v ∈ vs, v.IsWhole) →
      (∀ name, spent (called vs name) = .ok (.int (lasted (called vs name)))) ∧
      (∀ source target, ∃ weight, Data.total (crossings vs source target) = .ok weight ∧
        Data.wholeOf weight = Data.wholeSum (crossings vs source target)) ∧
      ∀ traces' d d', (itemsOf traces).Perm (itemsOf traces') → d.graph = .empty →
        (Build.addTraces find apis traces').run.run d = (.ok (), d') →
        Agree c'.graph.outline d'.graph.outline) := by
  intro vs
  have h : Aggregates vs c'.graph.outline := aggregates_of_addTraces hstart hrun
  refine ⟨named_of_addTraces hstart hrun, h, fun name => ?_, fun source target => ?_, fun hwhole =>
    ⟨?_, ?_, ?_⟩⟩
  · exact h.carries_iff.trans called_ne_nil_iff
  · exact h.isSome_edges.trans crossings_ne_nil_iff
  · intro name
    exact spent_timed (timed_called (fun v hv => (hwhole v hv).1) name)
  · intro source target
    obtain ⟨weight, hweight, -, hexact⟩ := Data.total_whole (isWhole_crossings hwhole source target)
    exact ⟨weight, hweight, hexact⟩
  · intro traces' d d' hperm hd hrun'
    exact h.agree (aggregates_of_addTraces hd hrun') ((hperm.map itemsOf).flatMap_right _) hwhole

/-- Two logins, one of which weighs nothing, in both orders. -/
theorem logins_exact :
    let r :=
    (Build.addTraces oneTable (.arr []) (tracesRecord [loginSpans 3, loginSpans 0])).run.run {}
    let r' :=
      (Build.addTraces oneTable (.arr []) (tracesRecord [loginSpans 0, loginSpans 3])).run.run {}
    r = (.ok (), r.2) ∧ Aggregates (visits oneTable (.arr [])
      (tracesOf (tracesRecord [loginSpans 3, loginSpans 0])))
      r.2.graph.outline ∧ Agree r.2.graph.outline r'.2.graph.outline := by
  intro r r'
  have hrun : r = (.ok (), r.2) := eq_ok_of_toBool (by decide +kernel)
  obtain ⟨-, haggregates, -, -, hwhole⟩ := call_graph_exact rfl hrun
  refine ⟨hrun, haggregates, (hwhole (by decide +kernel)).2.2
    (tracesRecord [loginSpans 0, loginSpans 3]) {} r'.2 ?_ rfl ?_⟩
  · exact List.Perm.swap _ _ _
  · exact eq_ok_of_toBool (by decide +kernel)

/-- A trace of one span that takes some time. -/
def job (time : Float) : List Json :=
  [spanRecord 0 (-1) "Local" "Unknown" "job" (.float 0) (.float time) []]

/-- The time that the job took in all, if the graph of some traces could be made. -/
def jobTime (traces : List (List Json)) : Option Json :=
  match (Build.addTraces oneTable (.arr []) (tracesRecord traces)).run.run {} with
  | (.ok _, c) => do Json.get? (.obj (← c.graph.attributesOf "job")) "execution_time"
  | (.error _, _) => none

/-- Times that are not whole numbers are rounded when they are added, and so the sum depends on the
order. -/
theorem sum_of_times_rounded :
    (jobTime [job 9007199254740992, job 1, job 1]).any (Data.same · (.float 9007199254740992)) =
      true ∧
    (jobTime [job 1, job 1, job 9007199254740992]).any (Data.same · (.float 9007199254740994)) =
      true := by
  decide +kernel

end Coupling.Trace
