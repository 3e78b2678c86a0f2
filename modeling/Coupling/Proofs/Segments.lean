import Mathlib.Data.List.Nodup
import Coupling.Proofs.SpanOrder

/-!
# Segments

A trace may be made of several segments, each of which numbers its spans on its own. A span names
its parent by a number and means the span with that number in its own segment (`ownParentOf`). What
is looked up is the first span of the whole trace with that number (`parentOf`). The two are the
same unless the span that is found lies in another segment (`isForeign`).
-/

namespace Coupling.Trace

open Data (Result)
open Steps

/-! ## Labels -/

/-- The segment of a span, if it is a text. -/
def segmentOf (span : Json) : Option String :=
  match Data.member span "segmentId" with
  | .ok (.str segment) => some segment
  | _ => none

/-- A whole number in a field of a span. -/
def wholeIn (key : String) (span : Json) : Option Int :=
  match Data.member span key with
  | .ok (.int n) => some n
  | _ => none

/-- The spans of a trace say which segment they are in, which number they have there and which
number their parent has, and no two spans of a segment have the same number. -/
structure Labelled (spans : List Json) : Prop where
  segments : ∀ span ∈ spans, (segmentOf span).isSome
  numbers : ∀ span ∈ spans, (wholeIn "spanId" span).isSome
  parents : ∀ span ∈ spans, (wholeIn "parentSpanId" span).isSome
  distinct : (spans.map fun span => (segmentOf span, wholeIn "spanId" span)).Nodup

instance (spans : List Json) : Decidable (Labelled spans) :=
  decidable_of_iff ((∀ span ∈ spans, (segmentOf span).isSome) ∧
      (∀ span ∈ spans, (wholeIn "spanId" span).isSome) ∧
      (∀ span ∈ spans, (wholeIn "parentSpanId" span).isSome) ∧
      (spans.map fun span => (segmentOf span, wholeIn "spanId" span)).Nodup)
    ⟨fun ⟨hsegments, hnumbers, hparents, hdistinct⟩ => ⟨hsegments, hnumbers, hparents, hdistinct⟩,
      fun h => ⟨h.segments, h.numbers, h.parents, h.distinct⟩⟩

variable {find : TableFinder} {apis span : Json} {n : SpanNode}

theorem segmentOf_eq_some {segment : String} :
    segmentOf span = some segment ↔ Data.member span "segmentId" = .ok (.str segment) := by
  unfold segmentOf
  split
  · next s h => simp [h]
  · next h => exact iff_of_false nofun (h segment)

theorem wholeIn_eq_some {key : String} {k : Int} :
    wholeIn key span = some k ↔ Data.member span key = .ok (.int k) := by
  unfold wholeIn
  split
  · next m h => simp [h]
  · next h => exact iff_of_false nofun (h k)

/-- A node says of its span which segment it is in and which number its parent has. -/
theorem labels_of_emitted [PatternReader] (h : n ∈ emitted find apis span) :
    Data.member span "segmentId" = .ok n.segmentId ∧
    Data.member span "parentSpanId" = .ok n.parentSpanId := by
  unfold emitted at h
  split at h
  · next nodes hnodes =>
    obtain ⟨q, -, hnodes⟩ := except_bind_eq_ok.mp hnodes
    cases q with
    | none => cases hnodes
    | some q =>
      obtain ⟨traceId, -, hnodes⟩ := except_bind_eq_ok.mp hnodes
      obtain ⟨segmentId, hsegment, hnodes⟩ := except_bind_eq_ok.mp hnodes
      obtain ⟨spanId, -, hnodes⟩ := except_bind_eq_ok.mp hnodes
      obtain ⟨parent, hparent, hnodes⟩ := except_bind_eq_ok.mp hnodes
      obtain ⟨start, -, hnodes⟩ := except_bind_eq_ok.mp hnodes
      obtain ⟨stop, -, hnodes⟩ := except_bind_eq_ok.mp hnodes
      cases hnodes
      obtain ⟨name, -, rfl⟩ := List.mem_map.mp h
      exact ⟨hsegment, hparent⟩
  · cases h

/-! ## The parent in the own segment -/

/-- Whether a span lies in the segment of a node and has the number of its parent. -/
def isOwnParent (n : SpanNode) (p : Json) : Bool :=
  hasField p "segmentId" n.segmentId && hasNumber n.parentSpanId p

/-- The parent of a node in its own segment. -/
def ownParentOf (spans : List Json) (n : SpanNode) : Option Json :=
  if n.isRoot then none else spans.find? (isOwnParent n)

/-- Whether the span that is looked up as the parent of a node lies in another segment. -/
def isForeign (spans : List Json) (n : SpanNode) : Bool :=
  (parentOf spans n).any fun p => !hasField p "segmentId" n.segmentId

variable {spans : List Json} {traces : List (List Json)} {p : Json}

theorem isOwnParent_iff : isOwnParent n p = true ↔
    hasField p "segmentId" n.segmentId = true ∧ hasNumber n.parentSpanId p = true :=
    Bool.and_eq_true_iff

/-- The span that is looked up is the parent in the own segment unless it lies in another one. -/
theorem parentOf_eq_ownParentOf_iff : parentOf spans n = ownParentOf spans n ↔
    isForeign spans n = false := by
  unfold isForeign parentOf ownParentOf
  split
  · exact iff_of_true rfl rfl
  · cases hfound : spans.find? (hasNumber n.parentSpanId) with
    | none =>
      refine iff_of_true (List.find?_eq_none.mpr fun p hp hown => ?_).symm rfl
      exact List.find?_eq_none.mp hfound p hp (isOwnParent_iff.mp hown).2
    | some p =>
      rw [Option.any_some, Bool.not_eq_eq_eq_not, Bool.not_false]
      constructor
      · intro hown
        exact (isOwnParent_iff.mp (List.find?_some hown.symm)).1
      · intro hsegment
        obtain ⟨hnumber, before, after, hspans, hbefore⟩ := List.find?_eq_some_iff_append.mp hfound
        refine (List.find?_eq_some_iff_append.mpr
          ⟨isOwnParent_iff.mpr ⟨hsegment, hnumber⟩, before, after, hspans, fun q hq => ?_⟩).symm
        have hother := hbefore q hq
        rw [Bool.not_eq_true'] at hother ⊢
        rw [isOwnParent, hother, Bool.and_false]

theorem hasField_str {key s : String} : hasField p key (.str s) = true ↔
    Data.member p key = .ok (.str s) := by
  unfold hasField
  split
  · next j h => rw [Data.same_str, h, Except.ok.injEq]
  · next e h => simp [h]

theorem hasField_int {key : String} {k m : Int} (h : Data.member p key = .ok (.int m)) :
    hasField p key (.int k) = true ↔ m = k := by
  rw [hasField_eq h]
  exact beq_iff_eq

section

variable [PatternReader] (hspans : Labelled spans) (hspan : span ∈ spans)
  (hn : n ∈ emitted find apis span)
include hspans hspan hn

/-- The own parents of a node are those that the labels of its span say. -/
theorem isOwnParent_iff_labels (hp : p ∈ spans) : isOwnParent n p = true ↔
      segmentOf p = segmentOf span ∧ wholeIn "spanId" p = wholeIn "parentSpanId" span := by
  obtain ⟨segment, hsegment⟩ := Option.isSome_iff_exists.mp (hspans.segments span hspan)
  obtain ⟨parent, hparent⟩ := Option.isSome_iff_exists.mp (hspans.parents span hspan)
  obtain ⟨number, hnumber⟩ := Option.isSome_iff_exists.mp (hspans.numbers p hp)
  obtain ⟨hnsegment, hnparent⟩ := labels_of_emitted hn
  have hsegment' : n.segmentId = .str segment :=
    Except.ok.inj (hnsegment.symm.trans (segmentOf_eq_some.mp hsegment))
  have hparent' : n.parentSpanId = .int parent :=
    Except.ok.inj (hnparent.symm.trans (wholeIn_eq_some.mp hparent))
  rw [isOwnParent_iff, hasNumber, hsegment', hparent', hsegment, hparent, hnumber, hasField_str,
    segmentOf_eq_some, hasField_int (wholeIn_eq_some.mp hnumber), Option.some_inj]

/-- A node has one own parent at most. -/
theorem ownParentOf_eq_some_iff (hroot : n.isRoot = false) : ownParentOf spans n = some p ↔
      p ∈ spans ∧ segmentOf p = segmentOf span ∧
      wholeIn "spanId" p = wholeIn "parentSpanId" span := by
  rw [ownParentOf, hroot, if_neg Bool.false_ne_true]
  constructor
  · intro hfound
    have hp := List.mem_of_find?_eq_some hfound
    exact ⟨hp, (isOwnParent_iff_labels hspans hspan hn hp).mp (List.find?_some hfound)⟩
  · rintro ⟨hp, hsegment, hnumber⟩
    have hown := (isOwnParent_iff_labels hspans hspan hn hp).mpr ⟨hsegment, hnumber⟩
    obtain ⟨q, hq⟩ := Option.isSome_iff_exists.mp (List.find?_isSome.mpr ⟨p, hp, hown⟩)
    have hmem := List.mem_of_find?_eq_some hq
    obtain ⟨hsegment', hnumber'⟩ := (isOwnParent_iff_labels hspans hspan hn hmem).mp
      (List.find?_some hq)
    rw [hq, List.inj_on_of_nodup_map hspans.distinct hmem hp]
    rw [hsegment, hnumber, hsegment', hnumber']

end

/-! ## Calls inside segments -/

/-- The visits of some nodes, called from where a function says, when calls weigh so much before
them. -/
def visitsVia (caller : SpanNode → Option String) : Json → List SpanNode → List Visit
  | _, [] => []
  | weight, n :: ns => ⟨n, (caller n).map (·, weight)⟩ :: visitsVia caller (passOn weight n) ns

section

variable [PatternReader]

/-- The visits of some traces, each called from the parent in its own segment. -/
def ownVisits (find : TableFinder) (apis : Json) (traces : List (List Json)) : List Visit :=
  traces.flatMap fun spans =>
    visitsVia (fun n => (ownParentOf spans n).bind (nodeId apis)) (.int 1)
      (spans.flatMap (emitted find apis))

/-- No span that is looked up as a parent lies in another segment. -/
def NoneForeign (find : TableFinder) (apis : Json) (traces : List (List Json)) : Prop :=
  ∀ spans ∈ traces, ∀ span ∈ spans, ∀ n ∈ emitted find apis span, isForeign spans n = false

instance : Decidable (NoneForeign find apis traces) :=
  inferInstanceAs (Decidable (∀ spans ∈ traces, ∀ span ∈ spans, ∀ n ∈ emitted find apis span, _))

theorem visitsFrom_eq_visitsVia {caller : SpanNode → Option String} {ns : List SpanNode}
    (h : ∀ n ∈ ns, callerOf apis spans n = caller n) (weight : Json) :
    visitsFrom apis spans weight ns = visitsVia caller weight ns := by
  induction ns generalizing weight with
  | nil => rfl
  | cons n ns ih =>
    obtain ⟨hn, hns⟩ := List.forall_mem_cons.mp h
    rw [visitsFrom, visitsVia, hn, ih hns]

theorem visits_eq_ownVisits (h : NoneForeign find apis traces) :
    visits find apis traces = ownVisits find apis traces := by
  refine List.flatMap_congr fun spans hspans => visitsFrom_eq_visitsVia (fun n hn => ?_) (.int 1)
  obtain ⟨span, hspan, hn⟩ := List.mem_flatMap.mp hn
  rw [callerOf, parentOf_eq_ownParentOf_iff.mpr (h spans hspans span hspan n hn)]

variable {entries : List Json}

/-- Sound traces of labelled spans. The node of a span with a parent is entered as called from the
first span of the trace that has the number of the parent, and as called from nowhere if there is
none. The parent that the span means is the one with that number in its own segment, of which there
is one at most. It is the one that is found just if the one that is found does not lie in another
segment. If none does, making the graph is entering the calls inside the segments, and the edges
weigh what these calls weigh together. -/
theorem calls_from_first_number (hentries : ∀ entry ∈ entries, SoundEntry entry)
    (hspans : ∀ spans ∈ traces, ∀ span ∈ spans, SoundSpan find span)
    (hlabelled : ∀ spans ∈ traces, Labelled spans) :
    (∀ spans ∈ traces, ∀ span ∈ spans, ∀ n ∈ emitted find (.arr entries) span, n.isRoot = false →
      (∀ weight, Enters (Build.addNode (.arr entries) spans weight n)
        [⟨n, ((spans.find? (hasNumber n.parentSpanId)).bind (nodeId (.arr entries))).map
          (·, weight)⟩] weight) ∧
      (∀ p, ownParentOf spans n = some p ↔
        p ∈ spans ∧ segmentOf p = segmentOf span ∧
        wholeIn "spanId" p = wholeIn "parentSpanId" span) ∧
      (spans.find? (hasNumber n.parentSpanId) = ownParentOf spans n ↔ isForeign spans n = false)) ∧
    (NoneForeign find (.arr entries) traces →
      Enters (Build.addTraces find (.arr entries) (tracesRecord traces))
        (ownVisits find (.arr entries) traces) () ∧
      ∀ c, (Build.addTraces find (.arr entries) (tracesRecord traces)).run.run {} = (.ok (), c) →
        Aggregates (ownVisits find (.arr entries) traces) c.graph.outline) := by
  refine ⟨fun spans hmem span hspan n hn hroot => ?_, fun hnone => ?_⟩
  · have hparent : parentOf spans n = spans.find? (hasNumber n.parentSpanId) := by
      rw [parentOf, hroot, if_neg Bool.false_ne_true]
    rw [← hparent]
    refine ⟨fun weight => ?_, fun p => ?_, parentOf_eq_ownParentOf_iff⟩
    · have henters := enters_addNode
        ((legible_of_sound hentries (hspans spans hmem)).nodes span hspan n hn) weight
      rwa [passOn_of_not_root hroot] at henters
    · exact ownParentOf_eq_some_iff (hlabelled spans hmem) hspan hn hroot
  · have hvisits := visits_eq_ownVisits hnone
    refine ⟨?_, fun c hrun => ?_⟩
    · have henters := enters_addTraces (tracesLegible_of_sound hentries hspans)
      rwa [tracesOf_tracesRecord, hvisits] at henters
    · have haggregates := aggregates_of_addTraces rfl hrun
      rwa [tracesOf_tracesRecord, hvisits] at haggregates

/-! ## Two segments -/

end

/-- A job in a segment. -/
def segmentJob (segment : String) (number parent : Int) (endpoint : String) : Json :=
  .obj [("traceId", .str "t"), ("segmentId", .str segment), ("spanId", .int number),
    ("parentSpanId", .int parent), ("startTime", .int 0), ("endTime", .int 1),
    ("endpointName", .str endpoint), ("type", .str "Local"), ("layer", .str "Unknown"),
    ("tags", .arr [])]

theorem sound_segmentJob (find : TableFinder) (segment : String) (number parent : Int)
    (endpoint : String) :
    SoundSpan find (segmentJob segment number parent endpoint) := by
  refine ⟨⟨_, rfl⟩, fun key hkey => ?_, fun key hkey => ?_, [], rfl, nofun, fun hlayer => ?_⟩
  · simp only [List.mem_cons, List.not_mem_nil, or_false] at hkey
    rcases hkey with rfl | rfl | rfl | rfl | rfl | rfl <;> exact ⟨_, rfl⟩
  · simp only [List.mem_cons, List.not_mem_nil, or_false] at hkey
    rcases hkey with rfl | rfl <;> exact ⟨_, rfl, Data.isWhole_int _⟩
  · exact absurd (Json.str.inj (Except.ok.inj hlayer)) (by decide)

/-- A job that calls another, and a job by itself with the same number in a second segment. -/
def apartJobs : List Json :=
  [segmentJob "a" 0 (-1) "read", segmentJob "a" 1 0 "parse", segmentJob "b" 0 (-1) "clean"]

/-- The calls of the two segments stay inside them. -/
theorem apart_jobs_calls :
    Labelled apartJobs ∧ NoneForeign oneTable (.arr []) [apartJobs] ∧
    (∃ n ∈ emitted oneTable (.arr []) (segmentJob "a" 1 0 "parse"),
      ownParentOf apartJobs n = some (segmentJob "a" 0 (-1) "read")) ∧
    Enters (Build.addTraces oneTable (.arr []) (tracesRecord [apartJobs]))
      (ownVisits oneTable (.arr []) [apartJobs]) () := by
  have hlabelled : Labelled apartJobs := by decide +kernel
  have hnone : NoneForeign oneTable (.arr []) [apartJobs] := by decide +kernel
  have hentries : ∀ entry ∈ ([] : List Json), SoundEntry entry := nofun
  have hsound : ∀ spans ∈ [apartJobs], ∀ span ∈ spans, SoundSpan oneTable span := by
    simp [apartJobs, sound_segmentJob]
  obtain ⟨hnodes, hrun⟩ := calls_from_first_number hentries hsound
    (List.forall_mem_singleton.mpr hlabelled)
  refine ⟨hlabelled, hnone, ⟨_, List.mem_cons_self, ?_⟩, (hrun hnone).1⟩
  obtain ⟨-, hparent, -⟩ := hnodes apartJobs List.mem_cons_self (segmentJob "a" 1 0 "parse")
    (List.mem_cons_of_mem _ List.mem_cons_self) _ List.mem_cons_self (by decide)
  exact (hparent _).mpr ⟨List.mem_cons_self, by decide, by decide⟩

/-- Two jobs in two segments, of which the second calls another. -/
def mixedJobs : List Json :=
  [segmentJob "a" 0 (-1) "read", segmentJob "b" 0 (-1) "write", segmentJob "b" 1 0 "flush"]

/-- A job, and another one of a second segment whose parent is not there. -/
def lostJobs : List Json := [segmentJob "a" 0 (-1) "read", segmentJob "b" 1 0 "flush"]

/-- A call is drawn from the first span with the number of the parent, though that lies in another
segment: in place of the one in the own segment, and where the own segment has none. -/
theorem calls_leave_segments :
    Labelled mixedJobs ∧ Labelled lostJobs ∧
    (∀ n ∈ emitted oneTable (.arr []) (segmentJob "b" 1 0 "flush"),
      (ownParentOf mixedJobs n).bind (nodeId (.arr [])) = some "write" ∧
      (ownParentOf lostJobs n).isNone = true) ∧
    (weightBetween mixedJobs "read" "flush").isSome = true ∧
    (weightBetween mixedJobs "write" "flush").isNone = true ∧
    (weightBetween lostJobs "read" "flush").isSome = true := by
  decide +kernel

end Coupling.Trace
