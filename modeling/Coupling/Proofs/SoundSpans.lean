import Coupling.Proofs.CallGraphs

/-!
# Sound spans

A span is sound if it has all fields that are read of it, with whole numbers for its times and its
weight, and, if it is a database span, a statement whose tables can be found. A configuration is
sound if its entries are named by templates that can be read and weigh whole numbers. All that is
asked of sound traces can be answered (`tracesLegible_of_sound`), and the times and weights of their
visits are whole numbers (`isWhole_of_sound`).
-/

namespace Coupling.Trace

open Data (Result)
open Steps

/-! ## What is sound -/

/-- A tag has a key, which can be one, and a value; a weight can be read as a whole number. -/
structure SoundTag (tag : Json) : Prop where
  key : ∃ key, Data.member tag "key" = .ok key ∧ Data.isKey key = true
  value : ∃ value, Data.member tag "value" = .ok value
  weight : Data.member tag "key" = .ok (.str "weight") →
    ∀ value, Data.member tag "value" = .ok value →
    ∃ n, Data.toWhole value = .ok n

/-- The tags of a database span have a statement, which says nothing or is a text whose tables are
found, and say where the tables are. -/
structure SoundStatement (find : TableFinder) (tags : Table Json) : Prop where
  statement : ∃ statement, tags.get? "db.statement" = some statement ∧
    (Data.isNothing statement = false →
    ∃ sql, statement = .str sql ∧ ∃ tables, find (String.ofList (sql.toList.filter (· != '\n'))) =
      .ok tables)
  type : ∃ type, tags.get? "db.type" = some type
  place : ∃ place, tags.get? "db.instance" = some place

/-- A span has the fields that are read of it. -/
structure SoundSpan (find : TableFinder) (span : Json) : Prop where
  endpoint : ∃ name, Data.member span "endpointName" = .ok (.str name)
  fields : ∀ key ∈ ["type", "layer", "traceId", "segmentId", "spanId", "parentSpanId"],
    ∃ value, Data.member span key = .ok value
  times : ∀ key ∈ ["startTime", "endTime"], ∃ time, Data.member span key = .ok time ∧
    Data.IsWhole time
  tags : ∃ tags, Data.member span "tags" = .ok (.arr tags) ∧ (∀ tag ∈ tags, SoundTag tag) ∧
    (Data.member span "layer" = .ok (.str "Database") → ∀ table, tagTable tags = .ok table →
      SoundStatement find table)

/-- An entry of a configuration is named by a template that can be read, and weighs a whole
number. -/
structure SoundEntry [PatternReader] (entry : Json) : Prop where
  name : ∃ name, Data.member entry "name" = .ok (.str name) ∧
    ∃ matched, PatternReader.read (templateText name) = .ok matched
  weight : Data.IsWhole (entry.getD "weight" (.int 0))

/-! ## Sound spans can be read -/

theorem exists_tagWeight {tags : List Json} (h : ∀ tag ∈ tags, SoundTag tag) :
    ∃ n, tagWeight tags = .ok n := by
  refine exists_foldlM (fun tag htag w => ?_) 0
  obtain ⟨key, hkey, -⟩ := (h tag htag).key
  obtain ⟨value, hvalue⟩ := (h tag htag).value
  simp only [hkey, hvalue, bind, Except.bind]
  cases hweight : Data.same key (.str "weight") with
  | false => exact ⟨w, rfl⟩
  | true =>
    cases Data.same_str.mp hweight
    exact (h tag htag).weight hkey value hvalue

theorem exists_tagTable {tags : List Json} (h : ∀ tag ∈ tags, SoundTag tag) :
    ∃ table, tagTable tags = .ok table := by
  refine exists_foldlM (fun tag htag t => ?_) ∅
  obtain ⟨key, hkey, hiskey⟩ := (h tag htag).key
  refine exists_bind_of_ok hkey ?_
  refine exists_except_bind (h tag htag).value fun value _ => ?_
  refine exists_bind_of_ok (if_pos hiskey) ?_
  split
  · exact ⟨_, rfl⟩
  · exact ⟨_, rfl⟩

theorem exists_tag {tags : Table Json} {key : String} (h : ∃ value, tags.get? key = some value) :
    ∃ value, tag tags key = .ok value := by
  obtain ⟨value, hvalue⟩ := h
  exact ⟨value, by rw [tag, hvalue]⟩

theorem exists_tableNames {find : TableFinder} {tags : Table Json} (h : SoundStatement find tags)
    (name : String) :
    ∃ r, tableNames find name tags = .ok r := by
  obtain ⟨statement, hget, hsql⟩ := h.statement
  have hstatement : tag tags "db.statement" = .ok statement := by rw [tag, hget]
  refine exists_bind_of_ok hstatement ?_
  split
  · exact ⟨none, rfl⟩
  · next hsome =>
    obtain ⟨sql, rfl, htables⟩ := hsql (Bool.eq_false_iff.mpr hsome)
    refine exists_bind_of_ok rfl ?_
    refine exists_except_bind htables fun tables _ => ?_
    split
    · exact ⟨some [name], rfl⟩
    · refine exists_except_bind (exists_mapM_iff.mpr fun t _ => ?_) fun names _ => ⟨some names, rfl⟩
      exact exists_except_bind (exists_tag h.type) fun _ _ =>
        exists_except_bind (exists_tag h.place) fun _ _ => ⟨_, rfl⟩

variable [PatternReader] {entries : List Json}

/-- A name is matched against the templates of a sound configuration; what it fits is one of its
entries. -/
theorem exists_matchApi (h : ∀ entry ∈ entries, SoundEntry entry) (name : String) :
    ∃ fit, matchApi (.arr entries) (.str name) = .ok fit ∧ ∀ entry ∈ fit, entry ∈ entries := by
  show ∃ fit, firstFit (.str name) entries = .ok fit ∧ _
  induction entries with
  | nil => exact ⟨none, rfl, nofun⟩
  | cons entry entries ih =>
    obtain ⟨hentry, hrest⟩ := List.forall_mem_cons.mp h
    obtain ⟨known, hknown, matched, hread⟩ := hentry.name
    obtain ⟨fit, hfit, hmem⟩ := ih hrest
    have hfits : fits (.str name) (.str known) = .ok (matched name) := by
      rw [fits, template]
      show (PatternReader.read (templateText known) >>= _) = _
      rw [hread]
      rfl
    rw [firstFit, hknown]
    show ∃ fit', (if Data.same (.str known) (.str name) then _ else _ : Result (Option Json)) =
      .ok fit' ∧ _
    split
    · exact ⟨some entry, rfl, fun e he => by cases he; exact List.mem_cons_self⟩
    · rw [hfits]
      cases hmatch : matched name with
      | true =>
        exact ⟨some entry, rfl, fun e he => by cases he; exact List.mem_cons_self⟩
      | false =>
        exact ⟨fit, hfit, fun e he => List.mem_cons_of_mem _ (hmem e he)⟩

variable {find : TableFinder} {span : Json}

section

variable (hentries : ∀ entry ∈ entries, SoundEntry entry)
include hentries

theorem exists_spanNames (h : SoundSpan find span) :
    ∃ r, spanNames find (.arr entries) span = .ok r := by
  obtain ⟨name, hname⟩ := h.endpoint
  obtain ⟨tags, htags, hsound, hstatement⟩ := h.tags
  obtain ⟨fit, hfit, hmem⟩ := exists_matchApi hentries name
  refine exists_bind_of_ok hname ?_
  refine exists_bind_of_ok rfl ?_
  split
  · exact ⟨none, rfl⟩
  · refine exists_bind_of_ok htags ?_
    refine exists_bind_of_ok rfl ?_
    refine exists_except_bind (exists_tagWeight hsound) fun weight _ => ?_
    refine exists_except_bind (h.fields "type" (by simp)) fun type _ => ?_
    split
    · refine exists_bind_of_ok hfit ?_
      cases fit with
      | none => exact ⟨_, rfl⟩
      | some entry =>
        obtain ⟨known, hknown, -⟩ := (hentries entry (hmem entry rfl)).name
        exact exists_bind_of_ok hknown ⟨_, rfl⟩
    · refine exists_except_bind (h.fields "layer" (by simp)) fun layer hlayer => ?_
      split
      · next hdatabase =>
        cases Data.same_str.mp hdatabase
        refine exists_except_bind (exists_tagTable hsound) fun table htable => ?_
        refine exists_except_bind (exists_tableNames (hstatement hlayer table htable) name)
          fun names _ => ?_
        cases names with
        | none => exact ⟨none, rfl⟩
        | some names => exact ⟨_, rfl⟩
      · exact ⟨_, rfl⟩

/-- The nodes of a span weigh what its tags say, or what the entry of the configuration says that it
fits. -/
theorem isWhole_of_naming {name : String} {names : List String × NodeKind × Json}
    (h : Naming find (.arr entries) span name (some names)) : Data.IsWhole names.2.2 := by
  cases h with
  | page _ _ _ | tables _ _ _ _ | service _ _ _ => exact Data.isWhole_int _
  | entry _ _ hfit _ =>
    obtain ⟨fit, hfit', hmem⟩ := exists_matchApi hentries name
    cases hfit.symm.trans hfit'
    exact (hentries _ (hmem _ rfl)).weight

theorem exists_spanNodes (h : SoundSpan find span) :
    ∃ r, spanNodes find (.arr entries) span = .ok r := by
  refine exists_except_bind (exists_spanNames hentries h) fun r _ => ?_
  cases r with
  | none => exact ⟨none, rfl⟩
  | some r =>
    obtain ⟨start, hstart, -⟩ := h.times "startTime" (by simp)
    obtain ⟨stop, hstop, -⟩ := h.times "endTime" (by simp)
    exact exists_except_bind (h.fields "traceId" (by simp)) fun _ _ =>
      exists_except_bind (h.fields "segmentId" (by simp)) fun _ _ =>
      exists_except_bind (h.fields "spanId" (by simp)) fun _ _ =>
      exists_except_bind (h.fields "parentSpanId" (by simp)) fun _ _ =>
      exists_bind_of_ok hstart (exists_bind_of_ok hstop ⟨_, rfl⟩)

theorem exists_parentName (h : SoundSpan find span) :
    ∃ j, parentName (.arr entries) span = .ok j := by
  obtain ⟨name, hname⟩ := h.endpoint
  obtain ⟨fit, hfit, hmem⟩ := exists_matchApi hentries name
  refine exists_bind_of_ok hname ?_
  refine exists_except_bind (h.fields "spanId" (by simp)) fun id _ => ?_
  split
  · refine exists_bind_of_ok hfit ?_
    cases fit with
    | none => exact ⟨_, rfl⟩
    | some entry =>
      obtain ⟨known, hknown, -⟩ := (hentries entry (hmem entry rfl)).name
      exact ⟨_, hknown⟩
  · exact ⟨_, rfl⟩

/-- The nodes of a sound span have whole numbers for their times and their weight. -/
theorem whole_of_emitted (h : SoundSpan find span) {n : SpanNode}
    (hn : n ∈ emitted find (.arr entries) span) :
    n.Timed ∧ Data.IsWhole n.weight := by
  obtain ⟨r, hr⟩ := exists_spanNodes hentries h
  rw [emitted_eq hr] at hn
  obtain ⟨q, hq, -, hcommon⟩ := spanNodes_eq_ok hr
  obtain ⟨⟨names, hnames⟩, hstart, hstop⟩ := hcommon n hn
  obtain ⟨start, hstart', hwstart⟩ := h.times "startTime" (by simp)
  obtain ⟨stop, hstop', hwstop⟩ := h.times "endTime" (by simp)
  cases hstart.symm.trans hstart'
  cases hstop.symm.trans hstop'
  obtain ⟨name, hname⟩ := h.endpoint
  rw [hnames] at hq
  exact ⟨⟨hwstart, hwstop⟩, isWhole_of_naming hentries (naming_of_spanNames hname hq)⟩

end

/-! ## Sound traces -/

variable {spans : List Json}

omit [PatternReader] in
theorem exists_findSpan (h : ∀ span ∈ spans, SoundSpan find span) (number : Json) :
    ∃ r, Build.findSpan number spans = .ok r := by
  induction spans with
  | nil => exact ⟨none, rfl⟩
  | cons span spans ih =>
    obtain ⟨hspan, hrest⟩ := List.forall_mem_cons.mp h
    refine exists_except_bind (hspan.fields "spanId" (by simp)) fun id _ => ?_
    split
    · exact ⟨some span, rfl⟩
    · exact ih hrest

theorem legible_of_sound (hentries : ∀ entry ∈ entries, SoundEntry entry)
    (h : ∀ span ∈ spans, SoundSpan find span) :
    Legible find (.arr entries) spans := by
  refine ⟨fun span hspan => exists_spanNodes hentries (h span hspan), fun span hspan n hn =>
    ⟨fun _ _ => ?_, fun _ => ?_⟩⟩
  · obtain ⟨-, hweight⟩ := whole_of_emitted hentries (h span hspan) hn
    exact ⟨_, Data.isPositive_whole hweight⟩
  · obtain ⟨r, hr⟩ := exists_findSpan h n.parentSpanId
    refine ⟨r, hr, ?_⟩
    rintro parent rfl
    have hparent := h parent (List.mem_of_find?_eq_some (findSpan_eq_ok hr).symm)
    obtain ⟨_, hread⟩ := exists_spanNodes hentries hparent
    obtain ⟨j, hj⟩ := exists_parentName hentries hparent
    obtain ⟨name, rfl⟩ := parentName_text hread hj
    exact ⟨name, hj⟩

/-- Sound traces are legible. -/
theorem tracesLegible_of_sound (hentries : ∀ entry ∈ entries, SoundEntry entry)
    {traces : List (List Json)} (h : ∀ spans ∈ traces, ∀ span ∈ spans, SoundSpan find span) :
    TracesLegible find (.arr entries) (tracesRecord traces) := by
  refine ⟨⟨_, rfl⟩, fun t ht => ?_⟩
  obtain ⟨spans, hspans, rfl⟩ := List.mem_map.mp ht
  exact ⟨⟨spans, rfl⟩, legible_of_sound hentries (h spans hspans)⟩

/-- What calls weigh is a whole number as long as it is set by whole numbers. -/
theorem isWhole_visitsFrom {apis weight : Json} {ns : List SpanNode} (hweight : Data.IsWhole weight)
    (h : ∀ n ∈ ns, n.Timed ∧ Data.IsWhole n.weight) :
    ∀ v ∈ visitsFrom apis spans weight ns, v.IsWhole := by
  induction ns generalizing weight with
  | nil => exact nofun
  | cons n ns ih =>
    obtain ⟨hn, hns⟩ := List.forall_mem_cons.mp h
    have hnext : Data.IsWhole (passOn weight n) := by
      unfold passOn SpanNode.sets
      split
      · split
        · exact hn.2
        · exact hweight
      · exact hweight
    refine List.forall_mem_cons.mpr ⟨⟨hn.1, fun call hcall => ?_⟩, ih hnext hns⟩
    obtain ⟨caller, -, rfl⟩ := Option.map_eq_some_iff.mp hcall
    exact hweight

/-- The visits of sound traces have whole numbers for their times and weights. -/
theorem isWhole_of_sound (hentries : ∀ entry ∈ entries, SoundEntry entry)
    {traces : List (List Json)} (h : ∀ spans ∈ traces, ∀ span ∈ spans, SoundSpan find span) :
    ∀ v ∈ visits find (.arr entries) traces, v.IsWhole := by
  intro v hv
  obtain ⟨spans, hspans, hv⟩ := List.mem_flatMap.mp hv
  refine isWhole_visitsFrom (Data.isWhole_int 1) (fun n hn => ?_) v hv
  obtain ⟨span, hspan, hn⟩ := List.mem_flatMap.mp hn
  exact whole_of_emitted hentries (h spans hspans span hspan) hn

end Coupling.Trace
