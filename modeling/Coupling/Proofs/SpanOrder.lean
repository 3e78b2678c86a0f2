import Mathlib.Data.List.Forall2
import Coupling.Proofs.SoundSpans

/-!
# The order of spans

The graph of sound traces can be made if no node is visited for the first time after it has called
(`Orderly`). Then the nodes that spans emit have the same counts and times whatever the order of the
spans in each trace. The other nodes and the edges are the same if it does not depend on the order
which parent is found (`Unambiguous`). What the edges weigh is the same if no call is moved past an
entry that sets what calls weigh (`Reordered`).
-/

namespace Coupling.Trace

open Data (Result)
open Steps

/-! ## Visits that can be entered -/

/-- No node is visited for the first time after it has called. -/
def Orderly (vs : List Visit) : Prop :=
  ∀ i : Fin vs.length, isCaller (vs.take i) vs[i].node.name = true →
  called (vs.take i) vs[i].node.name ≠ []

instance (vs : List Visit) : Decidable (Orderly vs) :=
  inferInstanceAs (Decidable (∀ _ : Fin vs.length, _ → _))

theorem Orderly.at {before after : List Visit} {v : Visit} (h : Orderly (before ++ v :: after)) :
    isCaller before v.node.name = true → called before v.node.name ≠ [] := by
  have hi := h ⟨before.length, by simp⟩
  simpa using hi

variable {vs vs' : List Visit} {w : Outline} {ns : List SpanNode}

/-- A visit can be entered unless its node has called but was not visited. -/
theorem Aggregates.exists_enter (h : Aggregates vs w) {v : Visit} (hwhole : ∀ v ∈ vs, v.IsWhole)
    (hv : v.IsWhole)
    (hfirst : isCaller vs v.node.name = true → called vs v.node.name ≠ []) :
    ∃ w', enter w v = .ok w' := by
  refine exists_bind_of_ok hv.1.duration_eq ?_
  refine exists_except_bind ?_ fun attributes _ => ?_
  · by_cases hname : called vs v.node.name = []
    · rw [h.bare _ hname, if_neg fun hcaller => hfirst hcaller hname]
      exact ⟨_, rfl⟩
    · obtain ⟨first, sum, hsum, hnode⟩ := h.exists_description hname
      rw [spent_timed (timed_called (fun v hv => (hwhole v hv).1) v.node.name)] at hsum
      cases hsum
      rw [hnode, callAttributes_description, Data.add_whole (Data.isWhole_int _)
        (Data.isWhole_int _)]
      exact ⟨_, rfl⟩
  · rcases hcall : v.call with _ | ⟨caller, weight⟩
    · exact ⟨_, rfl⟩
    · obtain ⟨sum, hsum⟩ : ∃ sum, callWeight weight (w.edges caller v.node.name) = .ok sum := by
        by_cases hnew : crossings vs caller v.node.name = []
        · rw [h.apart _ _ hnew]
          exact ⟨weight, rfl⟩
        · obtain ⟨old, hold, hedge⟩ := h.joined _ _ hnew
          obtain ⟨old', hold', hwold, -⟩ :=
            Data.total_whole (isWhole_crossings hwhole caller v.node.name)
          cases hold.symm.trans hold'
          rw [hedge]
          exact ⟨_, Data.add_whole hwold (hv.2 _ hcall)⟩
      refine ⟨(w.describe v.node.name attributes).join caller v.node.name sum, ?_⟩
      show _ <$> callWeight weight (w.edges caller v.node.name) = _
      rw [hsum]
      rfl

/-- Orderly visits can be entered one after the other. -/
theorem Aggregates.exists_run {ws : List Visit} (h : Aggregates vs w)
    (hwhole : ∀ v ∈ vs ++ ws, v.IsWhole)
    (horder : Orderly (vs ++ ws)) : ∃ w', ws.foldlM enter w = .ok w' := by
  induction ws generalizing vs w with
  | nil => exact ⟨w, rfl⟩
  | cons v ws ih =>
    obtain ⟨w₁, hw₁⟩ := h.exists_enter (fun u hu => hwhole u (List.mem_append_left _ hu))
      (hwhole v (List.mem_append_right _ List.mem_cons_self)) horder.at
    rw [List.append_cons] at hwhole horder
    obtain ⟨w', hw'⟩ := ih (h.step hw₁) hwhole horder
    refine ⟨w', ?_⟩
    rw [List.foldlM_cons, hw₁]
    exact hw'

variable {find : TableFinder} {entries : List Json} {traces traces' : List (List Json)}
  {apis : Json}
  {spans spans' : List Json}

section

variable [PatternReader]

/-- The graph of sound traces can be made if their visits are orderly. -/
theorem exists_addTraces (hentries : ∀ entry ∈ entries, SoundEntry entry)
    (h : ∀ spans ∈ traces, ∀ span ∈ spans, SoundSpan find span)
    (horder : Orderly (visits find (.arr entries) traces)) :
    ∃ c, (Build.addTraces find (.arr entries) (tracesRecord traces)).run.run {} = (.ok (), c) ∧
      Aggregates (visits find (.arr entries) traces) c.graph.outline := by
  obtain ⟨w, hw⟩ := aggregates_nil.exists_run (isWhole_of_sound hentries h) horder
  have hvisits : (visits find (.arr entries) (tracesOf (tracesRecord traces))).foldlM enter
      ({} : CallGraph).graph.outline = .ok w := by
    rw [tracesOf_tracesRecord]
    exact hw
  obtain ⟨c, hrun, -⟩ := addTraces_of_visits (tracesLegible_of_sound hentries h) hvisits
  refine ⟨c, hrun, ?_⟩
  have haggregates := aggregates_of_addTraces rfl hrun
  rwa [tracesOf_tracesRecord] at haggregates

/-! ## Which nodes, from where -/

/-- Spans that can be found as the parent of one node are one node themselves. -/
def Unambiguous (find : TableFinder) (apis : Json) (spans : List Json) : Prop :=
  ∀ span ∈ spans, ∀ n ∈ emitted find apis span, ∀ p ∈ spans, ∀ q ∈ spans,
    hasNumber n.parentSpanId p = true → hasNumber n.parentSpanId q = true →
    nodeId apis p = nodeId apis q

instance (find : TableFinder) (apis : Json) (spans : List Json) :
    Decidable (Unambiguous find apis spans) :=
  inferInstanceAs (Decidable (∀ span ∈ spans, ∀ n ∈ emitted find apis span, ∀ p ∈ spans,
    ∀ q ∈ spans, _ → _ → _))

theorem callerOf_perm (h : spans.Perm spans') {n : SpanNode}
    (hone : ∀ p ∈ spans, ∀ q ∈ spans, hasNumber n.parentSpanId p = true →
      hasNumber n.parentSpanId q = true →
      nodeId apis p = nodeId apis q) : callerOf apis spans n = callerOf apis spans' n := by
  unfold callerOf parentOf
  split
  · rfl
  · cases hp : spans.find? (hasNumber n.parentSpanId) with
    | none =>
      have hnone : spans'.find? (hasNumber n.parentSpanId) = none :=
        List.find?_eq_none.mpr fun q hq => List.find?_eq_none.mp hp q (h.mem_iff.mpr hq)
      rw [hnone]
    | some p =>
      cases hq : spans'.find? (hasNumber n.parentSpanId) with
      | none => exact absurd (List.find?_some hp) (List.find?_eq_none.mp hq p
        (h.mem_iff.mp (List.mem_of_find?_eq_some hp)))
      | some q =>
        exact hone p (List.mem_of_find?_eq_some hp) q (h.mem_iff.mpr (List.mem_of_find?_eq_some hq))
          (List.find?_some hp) (List.find?_some hq)

omit [PatternReader] in
/-- What is made of each trace by itself has the same items if what is made of each reordered trace
has. -/
theorem flatMap_perm {α : Type} {R : List Json → List Json → Prop} {f : List Json → List α}
    (h : List.Forall₂ R traces traces') (hf : ∀ spans ∈ traces, ∀ spans', R spans spans' →
      (f spans).Perm (f spans')) :
    (traces.flatMap f).Perm (traces'.flatMap f) := by
  induction h with
  | nil => exact .refl _
  | cons hR _ ih =>
    obtain ⟨hspans, hrest⟩ := List.forall_mem_cons.mp hf
    rw [List.flatMap_cons, List.flatMap_cons]
    exact (hspans _ hR).append (ih hrest)

theorem map_visits : (visits find apis traces).map (fun v => (v.node, v.caller)) =
    traces.flatMap fun spans =>
    (spans.flatMap (emitted find apis)).map fun n => (n, callerOf apis spans n) := by
  rw [visits, List.map_flatMap]
  exact List.flatMap_congr fun spans _ => map_visitsFrom (.int 1) _

theorem map_node_visits : (visits find apis traces).map (·.node) =
    traces.flatMap fun spans => spans.flatMap (emitted find apis) := by
  calc (visits find apis traces).map (·.node)
    _ = ((visits find apis traces).map fun v => (v.node, v.caller)).map Prod.fst := by
      rw [List.map_map]; rfl
    _ = traces.flatMap fun spans => spans.flatMap (emitted find apis) := by
      rw [map_visits, List.map_flatMap]
      refine List.flatMap_congr fun spans _ => ?_
      rw [List.map_map]
      exact List.map_id _

/-- The nodes that are visited do not depend on the order of the spans. -/
theorem map_node_perm (h : List.Forall₂ List.Perm traces traces') :
    ((visits find apis traces).map (·.node)).Perm ((visits find apis traces').map (·.node)) := by
  rw [map_node_visits, map_node_visits]
  exact flatMap_perm h fun spans _ spans' hperm => hperm.flatMap_right _

theorem callerOf_emitted_perm (h : spans.Perm spans') (hone : Unambiguous find apis spans)
    {n : SpanNode}
    (hn : n ∈ spans.flatMap (emitted find apis)) :
    callerOf apis spans n = callerOf apis spans' n := by
  obtain ⟨span, hspan, hn⟩ := List.mem_flatMap.mp hn
  exact callerOf_perm h (hone span hspan n hn)

/-- Nor does it where they are called from, if the parents are unambiguous. -/
theorem map_caller_perm (h : List.Forall₂ List.Perm traces traces')
    (hone : ∀ spans ∈ traces, Unambiguous find apis spans) :
    ((visits find apis traces).map fun v => (v.node, v.caller)).Perm
      ((visits find apis traces').map fun v => (v.node, v.caller)) := by
  rw [map_visits, map_visits]
  refine flatMap_perm h fun spans hspans spans' hperm => ?_
  have hcaller : (spans.flatMap (emitted find apis)).map (fun n => (n, callerOf apis spans n)) =
      (spans.flatMap (emitted find apis)).map fun n => (n, callerOf apis spans' n) :=
    List.map_congr_left fun n hn => by rw [callerOf_emitted_perm hperm (hone spans hspans) hn]
  rw [hcaller]
  exact (hperm.flatMap_right _).map _

/-! ## What calls weigh -/

/-- Two spans can change places without a change in what calls weigh: no call of one is moved past
the other if that sets what calls weigh, and if both do, they set the same. -/
structure Independent (ns ms : List SpanNode) : Prop where
  left : (∀ n ∈ ns, n.sets = none) ∨ ∀ m ∈ ms, m.isRoot = true
  right : (∀ m ∈ ms, m.sets = none) ∨ ∀ n ∈ ns, n.isRoot = true
  both : ∀ n ∈ ns, ∀ m ∈ ms, ∀ weight weight', n.sets = some weight → m.sets = some weight' →
    weight = weight'

/-- One order of spans comes from the other by swaps of neighbours that can change places. -/
inductive Reordered (find : TableFinder) (apis : Json) : List Json → List Json → Prop
  | nil : Reordered find apis [] []
  | cons {spans spans' : List Json} (span : Json) : Reordered find apis spans spans' →
      Reordered find apis (span :: spans) (span :: spans')
  | swap (p q : Json) (spans : List Json) : Independent (emitted find apis p)
      (emitted find apis q) →
      Reordered find apis (p :: q :: spans) (q :: p :: spans)
  | trans {spans spans' spans'' : List Json} : Reordered find apis spans spans' →
      Reordered find apis spans' spans'' →
      Reordered find apis spans spans''

theorem Reordered.perm (h : Reordered find apis spans spans') : spans.Perm spans' := by
  induction h with
  | nil => exact .refl _
  | cons span _ ih => exact ih.cons span
  | swap p q spans _ => exact .swap q p spans
  | trans _ _ ih₁ ih₂ => exact ih₁.trans ih₂

omit [PatternReader] in
/-- What calls weigh after some nodes is what the last of them set that set it. -/
theorem foldl_passOn (ns : List SpanNode) (weight : Json) :
    ns.foldl passOn weight = ((ns.filterMap SpanNode.sets).getLast?).getD weight := by
  induction ns generalizing weight with
  | nil => rfl
  | cons n ns ih =>
    rw [List.foldl_cons, ih, List.filterMap_cons, passOn]
    cases n.sets with
    | none => rfl
    | some w =>
      rw [List.getLast?_cons]
      rfl

/-- The visits of nodes without parents do not depend on what calls weigh. -/
theorem visitsFrom_of_roots (h : ∀ n ∈ ns, n.isRoot = true) (weight weight' : Json) :
    visitsFrom apis spans weight ns = visitsFrom apis spans weight' ns := by
  induction ns generalizing weight weight' with
  | nil => rfl
  | cons n ns ih =>
    obtain ⟨hn, hns⟩ := List.forall_mem_cons.mp h
    rw [visitsFrom, visitsFrom, callerOf_of_root hn, ih hns _ (passOn weight' n)]
    rfl

omit [PatternReader] in
theorem foldl_passOn_of_none (h : ∀ n ∈ ns, n.sets = none) (weight : Json) :
    ns.foldl passOn weight = weight := by
  rw [foldl_passOn, List.filterMap_eq_nil_iff.mpr h]
  rfl

/-- Nodes that are moved before others keep their visits. -/
theorem Independent.visitsFrom_eq {ms : List SpanNode}
    (h : (∀ n ∈ ns, n.sets = none) ∨ ∀ m ∈ ms, m.isRoot = true)
    (weight : Json) : visitsFrom apis spans (ns.foldl passOn weight) ms =
      visitsFrom apis spans weight ms := by
  rcases h with h | h
  · rw [foldl_passOn_of_none h]
  · exact visitsFrom_of_roots h _ _

omit [PatternReader] in
/-- What calls weigh after both does not depend on their order. -/
theorem Independent.foldl_eq {ms : List SpanNode} (h : Independent ns ms) (weight : Json) :
    ms.foldl passOn (ns.foldl passOn weight) = ns.foldl passOn (ms.foldl passOn weight) := by
  simp only [foldl_passOn]
  cases hn : (ns.filterMap SpanNode.sets).getLast? with
  | none => rfl
  | some w =>
    cases hm : (ms.filterMap SpanNode.sets).getLast? with
    | none => rfl
    | some w' =>
      obtain ⟨n, hn, hw⟩ := List.mem_filterMap.mp (List.mem_of_getLast? hn)
      obtain ⟨m, hm, hw'⟩ := List.mem_filterMap.mp (List.mem_of_getLast? hm)
      exact (h.both n hn m hm w w' hw hw').symm

/-- Spans that change places keep the visits of a trace. -/
theorem Reordered.visitsFrom_perm {rest rest' : List Json} (h : Reordered find apis rest rest')
    (weight : Json) :
    (visitsFrom apis spans weight (rest.flatMap (emitted find apis))).Perm
      (visitsFrom apis spans weight (rest'.flatMap (emitted find apis))) := by
  induction h generalizing weight with
  | nil => exact .refl _
  | cons span _ ih =>
    rw [List.flatMap_cons, List.flatMap_cons, visitsFrom_append, visitsFrom_append]
    exact (ih _).append_left _
  | swap p q rest hpq =>
    simp only [List.flatMap_cons, visitsFrom_append]
    rw [Independent.visitsFrom_eq hpq.left, Independent.visitsFrom_eq hpq.right, hpq.foldl_eq,
      ← List.append_assoc, ← List.append_assoc]
    exact List.perm_append_comm.append_right _
  | trans _ _ ih₁ ih₂ => exact (ih₁ weight).trans (ih₂ weight)

theorem visitsFrom_congr (h : ∀ n ∈ ns, callerOf apis spans n = callerOf apis spans' n)
    (weight : Json) :
    visitsFrom apis spans weight ns = visitsFrom apis spans' weight ns := by
  induction ns generalizing weight with
  | nil => rfl
  | cons n ns ih =>
    obtain ⟨hn, hns⟩ := List.forall_mem_cons.mp h
    rw [visitsFrom, visitsFrom, hn, ih hns]

/-- The visits do not depend on an order of the spans in which no call is moved past an entry. -/
theorem visits_reordered (h : List.Forall₂ (Reordered find apis) traces traces')
    (hone : ∀ spans ∈ traces, Unambiguous find apis spans) :
    (visits find apis traces).Perm (visits find apis traces') := by
  refine flatMap_perm h fun spans hspans spans' hreordered => ?_
  refine (hreordered.visitsFrom_perm (.int 1)).trans
    (.of_eq (visitsFrom_congr (fun n hn => ?_) (.int 1)))
  refine callerOf_emitted_perm hreordered.perm (hone spans hspans) ?_
  exact (hreordered.perm.flatMap_right _).mem_iff.mpr hn

end

/-! ## Reordered traces -/

theorem exists_visit_perm (h : (vs.map fun v => (v.node, v.caller)).Perm
    (vs'.map fun v => (v.node, v.caller)))
    {P : SpanNode → Option String → Prop} : (∃ v ∈ vs, P v.node v.caller) ↔
    ∃ v ∈ vs', P v.node v.caller := by
  have hmap (vs : List Visit) : (∃ v ∈ vs, P v.node v.caller) ↔
      ∃ p ∈ vs.map fun v => (v.node, v.caller), P p.1 p.2 := by simp
  rw [hmap, hmap]
  exact exists_congr fun p => and_congr_left fun _ => h.mem_iff

section

variable {w' : Outline} (h : Aggregates vs w) (h' : Aggregates vs' w')
  (hperm : (vs.map fun v => (v.node, v.caller)).Perm (vs'.map fun v => (v.node, v.caller)))
include h h' hperm

/-- Visits of the same nodes from the same nodes make the same nodes. -/
theorem Aggregates.same_nodes (name : String) : (w.nodes name).isSome ↔ (w'.nodes name).isSome := by
  rw [h.isSome_nodes, h'.isSome_nodes, called_ne_nil_iff_exists, called_ne_nil_iff_exists,
    isCaller_iff_exists, isCaller_iff_exists]
  exact or_congr (exists_visit_perm hperm (P := fun n _ => n.name = name))
    (exists_visit_perm hperm (P := fun _ caller => caller = some name))

/-- Visits of the same nodes from the same nodes make the same edges. -/
theorem Aggregates.same_edges (source target : String) :
    (w.edges source target).isSome ↔ (w'.edges source target).isSome := by
  rw [h.isSome_edges, h'.isSome_edges, crossings_ne_nil_iff_exists, crossings_ne_nil_iff_exists]
  exact exists_visit_perm hperm (P := fun n caller => n.name = target ∧ caller = some source)

end

theorem sound_of_perm (h : List.Forall₂ List.Perm traces traces')
    (hspans : ∀ spans ∈ traces, ∀ span ∈ spans, SoundSpan find span) :
    ∀ spans ∈ traces', ∀ span ∈ spans, SoundSpan find span := by
  induction h with
  | nil => exact nofun
  | cons hperm _ ih =>
    obtain ⟨hfirst, hrest⟩ := List.forall_mem_cons.mp hspans
    exact List.forall_mem_cons.mpr ⟨fun span hspan => hfirst span (hperm.mem_iff.mpr hspan),
      ih hrest⟩

/-! ## Reordered logins -/

theorem sound_spanRecord {number parent start stop : Int} {type layer endpoint : String}
    {tags : List (String × Json)}
    (hweight : ∀ tag ∈ tags, tag.1 = "weight" → ∃ n, Data.toWhole tag.2 = .ok n)
    (hdatabase : layer = "Database" → ∀ table,
      tagTable (tags.map fun t => .obj [("key", .str t.1), ("value", t.2)]) = .ok table →
      SoundStatement find table) :
    SoundSpan find
      (spanRecord number parent type layer endpoint (.int start) (.int stop) tags) := by
  refine ⟨⟨_, rfl⟩, fun key hkey => ?_, fun key hkey => ?_, _, rfl, fun tag htag => ?_,
    fun hlayer => ?_⟩
  · simp only [List.mem_cons, List.not_mem_nil, or_false] at hkey
    rcases hkey with rfl | rfl | rfl | rfl | rfl | rfl <;> exact ⟨_, rfl⟩
  · simp only [List.mem_cons, List.not_mem_nil, or_false] at hkey
    rcases hkey with rfl | rfl <;> exact ⟨_, rfl, Data.isWhole_int _⟩
  · obtain ⟨⟨key, value⟩, ht, rfl⟩ := List.mem_map.mp htag
    refine ⟨⟨_, rfl, rfl⟩, ⟨value, rfl⟩, fun hkey value' hvalue => ?_⟩
    cases hkey
    cases hvalue
    exact hweight ("weight", value) ht rfl
  · cases hlayer
    exact hdatabase rfl

theorem sound_loginSpans : ∀ span ∈ loginSpans 0, SoundSpan oneTable span := by
  have hplain {number parent start stop : Int} {endpoint : String} : SoundSpan oneTable
      (spanRecord number parent "Local" "Unknown" endpoint (.int start) (.int stop) []) :=
    sound_spanRecord nofun fun h => absurd h (by decide)
  refine List.forall_mem_cons.mpr ⟨?_, List.forall_mem_cons.mpr ⟨hplain,
    List.forall_mem_cons.mpr ⟨?_, List.forall_mem_cons.mpr ⟨hplain, nofun⟩⟩⟩⟩
  · refine sound_spanRecord (fun tag htag _ => ?_) fun h => absurd h (by decide)
    cases List.mem_singleton.mp htag
    exact ⟨0, rfl⟩
  · refine sound_spanRecord (fun tag htag hweight => ?_) fun _ table htable => ?_
    · simp only [List.mem_cons, List.not_mem_nil, or_false] at htag
      rcases htag with rfl | rfl | rfl <;> exact absurd hweight (by decide)
    · cases htable
      exact ⟨⟨_, rfl, fun _ => ⟨_, rfl, _, rfl⟩⟩, ⟨_, rfl⟩, ⟨_, rfl⟩⟩

/-- A configuration in which every page weighs three. -/
def pages : Json := .obj [("name", .str "/\x7bstr\x7d"), ("weight", .int 3)]

theorem sound_pages : ∀ entry ∈ [pages], SoundEntry entry := by
  refine List.forall_mem_singleton.mpr ⟨⟨_, rfl, ?_⟩, Data.isWhole_int 3⟩
  exact exists_of_toBool (by decide +kernel)

/-- The spans of a login with the second service before the first. -/
def loginSpansReordered : List Json :=
  match loginSpans 0 with
  | [entry, check, query, audit] => [entry, audit, check, query]
  | spans => spans

theorem reordered_login : Reordered oneTable (.arr [pages]) (loginSpans 0) loginSpansReordered := by
  have hapart {p q : Json}
      (h : ∀ n ∈ emitted oneTable (.arr [pages]) p ++ emitted oneTable (.arr [pages]) q,
        n.sets = none) : Independent (emitted oneTable (.arr [pages]) p)
          (emitted oneTable (.arr [pages]) q) := by
    obtain ⟨hp, hq⟩ := List.forall_mem_append.mp h
    refine ⟨.inl hp, .inl hq, fun n hn _ _ weight _ hset => ?_⟩
    rw [hp n hn] at hset
    cases hset
  refine .cons _ (.trans (.cons _ (.swap _ _ _ (hapart ?_))) (.swap _ _ _ (hapart ?_)))
  · decide +kernel
  · decide +kernel

/-! ## Two orders -/

/-- Sound traces whose spans are put into another order. If in both orders no node is visited for
the first time after it has called, both graphs can be made, and the nodes that spans emit have the
same counts and times in both. If the parents are unambiguous, both graphs have the same nodes and
the same edges. If moreover no call is moved past an entry that sets what calls weigh, the edges
weigh the same. -/
theorem span_order_irrelevant [PatternReader] (hentries : ∀ entry ∈ entries, SoundEntry entry)
    (hspans : ∀ spans ∈ traces, ∀ span ∈ spans, SoundSpan find span)
    (hperm : List.Forall₂ List.Perm traces traces')
    (horder : Orderly (visits find (.arr entries) traces))
    (horder' : Orderly (visits find (.arr entries) traces')) :
    ∃ c c', (Build.addTraces find (.arr entries) (tracesRecord traces)).run.run {} = (.ok (), c) ∧
      (Build.addTraces find (.arr entries) (tracesRecord traces')).run.run {} = (.ok (), c') ∧
      (∀ name, Emits find (.arr entries) traces name →
        (c.graph.attributesOf name).map figures = (c'.graph.attributesOf name).map figures) ∧
      ((∀ spans ∈ traces, Unambiguous find (.arr entries) spans) →
        (∀ name, (c.graph.attributesOf name).isSome ↔ (c'.graph.attributesOf name).isSome) ∧
        (∀ source target,
          (c.graph.attributesBetween source target).isSome ↔
          (c'.graph.attributesBetween source target).isSome) ∧
        (List.Forall₂ (Reordered find (.arr entries)) traces traces' →
          Agree c.graph.outline c'.graph.outline)) := by
  obtain ⟨c, hrun, h⟩ := exists_addTraces hentries hspans horder
  obtain ⟨c', hrun', h'⟩ := exists_addTraces hentries (sound_of_perm hperm hspans) horder'
  have hwhole := isWhole_of_sound hentries hspans
  refine ⟨c, c', hrun, hrun', fun name hname => ?_, fun hone =>
    ⟨fun name => ?_, fun source target => ?_, fun hR => ?_⟩⟩
  · exact h.figures_eq h' (map_node_perm hperm) (fun v hv => (hwhole v hv).1)
      (called_ne_nil_iff.mpr hname)
  · exact h.same_nodes h' (map_caller_perm hperm hone) name
  · exact h.same_edges h' (map_caller_perm hperm hone) source target
  · exact h.agree h' (visits_reordered hR hone) hwhole

/-- A login and the same with the second service before the first. -/
theorem login_order_irrelevant :
    ∃ c c', (Build.addTraces oneTable (.arr [pages]) (tracesRecord [loginSpans 0])).run.run {} =
      (.ok (), c) ∧
      (Build.addTraces oneTable (.arr [pages]) (tracesRecord [loginSpansReordered])).run.run {} =
        (.ok (), c') ∧
      Agree c.graph.outline c'.graph.outline := by
  have hreordered : List.Forall₂ (Reordered oneTable (.arr [pages])) [loginSpans 0]
      [loginSpansReordered] :=
    .cons reordered_login .nil
  obtain ⟨c, c', hrun, hrun', -, hagree⟩ := span_order_irrelevant sound_pages
    (List.forall_mem_singleton.mpr sound_loginSpans) (hreordered.imp fun _ _ h => h.perm)
      (by decide +kernel)
    (by decide +kernel)
  exact ⟨c, c', hrun, hrun', (hagree (by decide +kernel)).2.2 hreordered⟩

/-- What the edge from one node to another weighs, if the graph of a trace could be made. -/
def weightBetween (spans : List Json) (source target : String) : Option Json :=
  match (Build.addTraces oneTable (.arr []) (tracesRecord [spans])).run.run {} with
  | (.ok _, c) => do Json.get? (.obj (← c.graph.attributesBetween source target)) "weight"
  | (.error _, _) => none

/-- A job. -/
def jobSpan (number parent : Int) (endpoint : String) : Json :=
  spanRecord number parent "Local" "Unknown" endpoint (.int 0) (.int 1) []

/-- A call weighs what the entry before it says, and of two spans with one number the first is the
parent. So the order of the spans matters to what an edge weighs, and to which edges there are. -/
theorem span_order_matters :
    let entry := spanRecord 2 (-1) "Entry" "Http" "/login" (.int 0) (.int 9) [("weight", .int 5)]
    (weightBetween [jobSpan 0 (-1) "a", jobSpan 1 0 "b", entry] "a" "b").any
      (Data.same · (.int 1)) = true ∧
    (weightBetween [jobSpan 0 (-1) "a", entry, jobSpan 1 0 "b"] "a" "b").any
      (Data.same · (.int 5)) = true ∧
    (weightBetween [jobSpan 0 (-1) "a", jobSpan 0 (-1) "c", jobSpan 1 0 "b"] "a" "b").isSome =
      true ∧
    (weightBetween [jobSpan 0 (-1) "c", jobSpan 0 (-1) "a", jobSpan 1 0 "b"] "c" "b").isSome =
      true ∧
    (weightBetween [jobSpan 0 (-1) "c", jobSpan 0 (-1) "a", jobSpan 1 0 "b"] "a" "b").isSome =
      false := by
  decide +kernel

end Coupling.Trace
