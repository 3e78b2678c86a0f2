import Coupling.Proofs.NamedGraphs
import Coupling.Proofs.Steps
import Coupling.Trace.Span

/-!
# The names of a span

A span emits nodes under its names (`map_name_emitted`): an entry under the template that it fits, a
database span under the tables that its statement names, any other under its endpoint. As a parent
it is looked up under one name (`nodeId_eq`): at the root of a segment under the template that it
fits, elsewhere under its endpoint.
-/

namespace Coupling.Trace

open Data (Result)
open Steps

variable [PatternReader]

/-! ## What a span says -/

/-- The nodes that a span stands for, none if it cannot be read. -/
def emitted (find : TableFinder) (apis span : Json) : List SpanNode :=
  match spanNodes find apis span with
  | .ok (some nodes) => nodes
  | _ => []

/-- Whether a span has a value in a field. -/
def hasField (span : Json) (key : String) (value : Json) : Bool :=
  match Data.member span key with
  | .ok j => Data.same j value
  | .error _ => false

/-- Whether a span has a number. -/
def hasNumber (number span : Json) : Bool := hasField span "spanId" number

/-- The name under which a span is looked up as a parent. -/
def nodeId (apis span : Json) : Option String :=
  match parentName apis span with
  | .ok (.str name) => some name
  | _ => none

/-- The name of the entry of a configuration that an endpoint fits, or the endpoint itself. -/
def templated (apis : Json) (name : String) : String :=
  match matchApi apis (.str name) with
  | .ok (some api) =>
    match Data.member api "name" with
    | .ok known => Data.shown known
    | .error _ => name
  | _ => name

/-- The names of the tables that a database span asks for. -/
def tablesOf (find : TableFinder) (span : Json) (name : String) : List String :=
  match (do tableNames find name (← tagTable (← Data.items (← Data.member span "tags"))) :
    Result (Option (List String))) with
  | .ok (some names) => names
  | _ => []

variable {find : TableFinder} {apis span : Json} {name : String} {j : Json}
  {r : Option (List SpanNode)}

omit [PatternReader] in
theorem hasField_eq {key : String} {value : Json} (h : Data.member span key = .ok j) :
    hasField span key value = Data.same j value := by rw [hasField, h]

omit [PatternReader] in
theorem tablesOf_eq {tags : List Json} {table : Table Json} {names : Option (List String)}
    (htags : Data.member span "tags" = .ok j) (hitems : Data.items j = .ok tags)
    (htable : tagTable tags = .ok table)
    (hnames : tableNames find name table = .ok names) :
    tablesOf find span name = names.getD [] := by
  have hread : (do tableNames find name (← tagTable (← Data.items (← Data.member span "tags"))) :
      Result (Option (List String))) = .ok names :=
    except_bind_eq_ok.mpr ⟨_, htags, except_bind_eq_ok.mpr ⟨_, hitems,
      except_bind_eq_ok.mpr ⟨_, htable, hnames⟩⟩⟩
  rw [tablesOf, hread]
  cases names <;> rfl

theorem emitted_eq (h : spanNodes find apis span = .ok r) : emitted find apis span = r.getD [] := by
  rw [emitted, h]
  cases r <;> rfl

/-! ## Names, kind and weight -/

/-- What the names, kind and weight of a span can be. -/
inductive Naming (find : TableFinder) (apis span : Json) (name : String) :
    Option (List String × NodeKind × Json) → Prop
  | skipped : ignored.contains (Text.before name '/') = true → Naming find apis span name none
  | page {weight : Int} : ignored.contains (Text.before name '/') = false →
      hasField span "type" (.str "Entry") = true → matchApi apis (.str name) = .ok none →
      Naming find apis span name (some ([name], .api, .int weight))
  | entry {api known : Json} : ignored.contains (Text.before name '/') = false →
      hasField span "type" (.str "Entry") = true → matchApi apis (.str name) = .ok (some api) →
      Data.member api "name" = .ok known →
      Naming find apis span name (some ([Data.shown known], .api, api.getD "weight" (.int 0)))
  | nothing : ignored.contains (Text.before name '/') = false →
      hasField span "type" (.str "Entry") = false →
      hasField span "layer" (.str "Database") = true → tablesOf find span name = [] →
      Naming find apis span name none
  | tables {names : List String} {weight : Int} : ignored.contains (Text.before name '/') = false →
      hasField span "type" (.str "Entry") = false → hasField span "layer" (.str "Database") = true →
      tablesOf find span name = names →
      Naming find apis span name (some (names, .database, .int weight))
  | service {weight : Int} : ignored.contains (Text.before name '/') = false →
      hasField span "type" (.str "Entry") = false →
      hasField span "layer" (.str "Database") = false →
      Naming find apis span name (some ([name], .service, .int weight))

theorem naming_of_spanNames {r : Option (List String × NodeKind × Json)}
    (hname : Data.member span "endpointName" = .ok (.str name))
    (h : spanNames find apis span = .ok r) :
    Naming find apis span name r := by
  obtain ⟨_, hname', h⟩ := except_bind_eq_ok.mp h
  cases hname.symm.trans hname'
  obtain ⟨_, htext, h⟩ := except_bind_eq_ok.mp h
  cases htext
  split at h
  · next hignored =>
    cases h
    exact .skipped hignored
  · next hignored =>
    rw [Bool.not_eq_true] at hignored
    obtain ⟨_, htags, h⟩ := except_bind_eq_ok.mp h
    obtain ⟨tags, hitems, h⟩ := except_bind_eq_ok.mp h
    obtain ⟨weight, -, h⟩ := except_bind_eq_ok.mp h
    obtain ⟨type, htype, h⟩ := except_bind_eq_ok.mp h
    split at h
    · next hentry =>
      rw [← hasField_eq htype] at hentry
      obtain ⟨fit, hfit, h⟩ := except_bind_eq_ok.mp h
      cases fit with
      | none =>
        cases h
        exact .page hignored hentry hfit
      | some api =>
        obtain ⟨known, hknown, h⟩ := except_bind_eq_ok.mp h
        cases h
        exact .entry hignored hentry hfit hknown
    · next hentry =>
      rw [← hasField_eq htype, Bool.not_eq_true] at hentry
      obtain ⟨layer, hlayer, h⟩ := except_bind_eq_ok.mp h
      split at h
      · next hdatabase =>
        rw [← hasField_eq hlayer] at hdatabase
        obtain ⟨table, htable, h⟩ := except_bind_eq_ok.mp h
        obtain ⟨names, hnames, h⟩ := except_bind_eq_ok.mp h
        have htables := tablesOf_eq htags hitems htable hnames
        cases names with
        | none =>
          cases h
          exact .nothing hignored hentry hdatabase htables
        | some names =>
          cases h
          exact .tables hignored hentry hdatabase htables
      · next hdatabase =>
        rw [← hasField_eq hlayer, Bool.not_eq_true] at hdatabase
        cases h
        exact .service hignored hentry hdatabase

/-! ## Nodes -/

/-- The nodes of a span have its names, and its kind, weight and times in common. -/
theorem spanNodes_eq_ok (h : spanNodes find apis span = .ok r) :
    ∃ q, spanNames find apis span = .ok q ∧ (r.getD []).map (·.name) = (q.map (·.1)).getD [] ∧
      ∀ n ∈ r.getD [], (∃ names, q = some (names, n.kind, n.weight)) ∧
        Data.member span "startTime" = .ok n.startTime ∧
        Data.member span "endTime" = .ok n.endTime := by
  obtain ⟨q, hq, h⟩ := except_bind_eq_ok.mp h
  refine ⟨q, hq, ?_⟩
  cases q with
  | none =>
    cases h
    exact ⟨rfl, nofun⟩
  | some q =>
    obtain ⟨names, kind, weight⟩ := q
    obtain ⟨traceId, -, h⟩ := except_bind_eq_ok.mp h
    obtain ⟨segmentId, -, h⟩ := except_bind_eq_ok.mp h
    obtain ⟨spanId, -, h⟩ := except_bind_eq_ok.mp h
    obtain ⟨parent, -, h⟩ := except_bind_eq_ok.mp h
    obtain ⟨start, hstart, h⟩ := except_bind_eq_ok.mp h
    obtain ⟨stop, hstop, h⟩ := except_bind_eq_ok.mp h
    cases h
    refine ⟨by rw [Option.getD_some, List.map_map]; exact List.map_id _, fun n hn => ?_⟩
    obtain ⟨name, -, rfl⟩ := List.mem_map.mp hn
    exact ⟨⟨names, rfl⟩, hstart, hstop⟩

/-- A span that can be read has a text for its endpoint. -/
theorem exists_endpoint (h : spanNodes find apis span = .ok r) :
    ∃ name, Data.member span "endpointName" = .ok (.str name) := by
  obtain ⟨_, hnames, -⟩ := except_bind_eq_ok.mp h
  obtain ⟨j, hj, hrest⟩ := except_bind_eq_ok.mp hnames
  obtain ⟨name, htext, -⟩ := except_bind_eq_ok.mp hrest
  cases j with
  | str s => exact ⟨s, hj⟩
  | null | bool b | int n | float x | arr xs | obj ms => cases htext

/-- The names under which a span emits nodes. -/
theorem map_name_emitted (hname : Data.member span "endpointName" = .ok (.str name))
    (h : spanNodes find apis span = .ok r) : (emitted find apis span).map (·.name) =
      if ignored.contains (Text.before name '/') then []
      else if hasField span "type" (.str "Entry") then [templated apis name]
      else if hasField span "layer" (.str "Database") then tablesOf find span name
      else [name] := by
  obtain ⟨q, hq, hmap, -⟩ := spanNodes_eq_ok h
  rw [emitted_eq h, hmap]
  cases naming_of_spanNames hname hq with
  | skipped hignored =>
    rw [hignored]
    rfl
  | page hignored hentry hfit =>
    rw [hignored, hentry, templated, hfit]
    rfl
  | entry hignored hentry hfit hknown =>
    simp only [hignored, hentry, templated, hfit, hknown]
    rfl
  | nothing hignored hentry hdatabase htables | tables hignored hentry hdatabase htables =>
    rw [hignored, hentry, hdatabase, htables]
    rfl
  | service hignored hentry hdatabase =>
    rw [hignored, hentry, hdatabase]
    rfl

/-! ## The name of a parent -/

theorem firstFit_named {entries : List Json} {api : Json}
    (h : firstFit (.str name) entries = .ok (some api)) :
    ∃ known, Data.member api "name" = .ok (.str known) := by
  induction entries with
  | nil => cases h
  | cons entry entries ih =>
    obtain ⟨known, hknown, h⟩ := except_bind_eq_ok.mp h
    cases hsame : Data.same known (.str name) with
    | true =>
      rw [hsame] at h
      cases h
      exact ⟨name, by rw [hknown, Data.same_str.mp hsame]⟩
    | false =>
      rw [hsame] at h
      obtain ⟨fit, hfit, h⟩ := except_bind_eq_ok.mp h
      cases fit with
      | false => exact ih h
      | true =>
        cases h
        cases known with
        | str k => exact ⟨k, hknown⟩
        | null | bool b | int n | float x | arr xs | obj ms => cases hfit

/-- The name under which a span is looked up as a parent. -/
theorem nodeId_eq {id : String} (hname : Data.member span "endpointName" = .ok (.str name))
    (h : parentName apis span = .ok (.str id)) :
    id = if hasNumber (.int 0) span then templated apis name else name := by
  obtain ⟨_, hname', h⟩ := except_bind_eq_ok.mp h
  cases hname.symm.trans hname'
  obtain ⟨number, hnumber, h⟩ := except_bind_eq_ok.mp h
  rw [hasNumber, hasField_eq hnumber]
  split at h
  · next hzero =>
    rw [if_pos hzero]
    obtain ⟨fit, hfit, h⟩ := except_bind_eq_ok.mp h
    cases fit with
    | none =>
      cases h
      rw [templated, hfit]
    | some api =>
      change Data.member api "name" = _ at h
      simp only [templated, hfit, h]
      rfl
  · next hzero =>
    cases h
    rw [if_neg hzero]

/-- A span that can be read has a text for its name as a parent, if it has a name. -/
theorem parentName_text (h : spanNodes find apis span = .ok r)
    (hname : parentName apis span = .ok j) :
    ∃ name, j = .str name := by
  obtain ⟨endpoint, hendpoint⟩ := exists_endpoint h
  obtain ⟨endpoint', hendpoint', hname⟩ := except_bind_eq_ok.mp hname
  cases hendpoint.symm.trans hendpoint'
  obtain ⟨id, -, hname⟩ := except_bind_eq_ok.mp hname
  split at hname
  · obtain ⟨fit, hfit, hname⟩ := except_bind_eq_ok.mp hname
    cases fit with
    | none =>
      cases hname
      exact ⟨endpoint, rfl⟩
    | some api =>
      obtain ⟨entries, -, hfit⟩ := except_bind_eq_ok.mp hfit
      obtain ⟨known, hknown⟩ := firstFit_named hfit
      cases hknown.symm.trans hname
      exact ⟨known, rfl⟩
  · cases hname
    exact ⟨endpoint, rfl⟩

end Coupling.Trace
