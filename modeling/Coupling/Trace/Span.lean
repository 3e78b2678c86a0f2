import Coupling.Table
import Coupling.Data.Shown
import Coupling.Trace.Api

/-!
# Spans

A span is a record of one call. The nodes it stands for are its endpoint, the entry of the
configuration that its endpoint fits, or the tables that its database statement names. Spans of the
connection pool stand for none.
-/

namespace Coupling.Trace

open Data (Result)

/-- What a node of a call graph is. -/
inductive NodeKind where
  | service
  | api
  | database
deriving DecidableEq, Repr, Inhabited

def NodeKind.name : NodeKind → String
  | .service => "service"
  | .api => "api"
  | .database => "database"

/-- A node that a span stands for, with what the span says of it. -/
structure SpanNode where
  name : String
  kind : NodeKind
  weight : Json
  traceId : Json
  segmentId : Json
  spanId : Json
  parentSpanId : Json
  startTime : Json
  endTime : Json
deriving Inhabited, Repr

def SpanNode.toJson (n : SpanNode) : Json :=
  .obj [("endpointName", .str n.name), ("type", .str n.kind.name), ("weight", n.weight),
    ("traceId", n.traceId), ("segmentId", n.segmentId), ("spanId", n.spanId),
    ("parentSpanId", n.parentSpanId), ("startTime", n.startTime), ("endTime", n.endTime)]

/-- How the tables that a database statement names are found. -/
abbrev TableFinder := String → Result (List String)

/-- The first parts of endpoint names that stand for no node. -/
def ignored : List String := ["HikariCP"]

/-- The weight that the tags of a span give; the last one counts. -/
def tagWeight (tags : List Json) : Result Int :=
  let weigh (w : Int) (tag : Json) : Result Int := do
    if Data.same (← Data.member tag "key") (.str "weight")
      then Data.toWhole (← Data.member tag "value")
    else return w
  tags.foldlM weigh 0

/-- The tags of a span under their keys. -/
def tagTable (tags : List Json) : Result (Table Json) :=
  let enter (t : Table Json) (tag : Json) : Result (Table Json) := do
    let key ← Data.member tag "key"
    let value ← Data.member tag "value"
    match ← Data.key key with
    | .str k => return t.put k value
    | _ => return t
  tags.foldlM enter ∅

/-- A tag that must be there. -/
def tag (tags : Table Json) (key : String) : Result Json :=
  match tags.get? key with
  | some v => .ok v
  | none => .error (.noMember key)

/-- The names of the tables of a database span; `none` if it has no statement. -/
def tableNames (find : TableFinder) (name : String) (tags : Table Json) :
    Result (Option (List String)) := do
  let statement ← tag tags "db.statement"
  if Data.isNothing statement then return none
  let sql ← Data.text statement
  let tables ← find (String.ofList (sql.toList.filter (· != '\n')))
  if tables.isEmpty || tables.head? == some "`" then return some [name]
  return some (← tables.mapM fun t => do
    return Data.shown (← tag tags "db.type") ++ "." ++ Data.shown (← tag tags "db.instance") ++
      "." ++ t)

variable [PatternReader]

/-- The names, kind and weight of the nodes of a span; `none` if it stands for none. -/
def spanNames (find : TableFinder) (apis : Json) (span : Json) :
    Result (Option (List String × NodeKind × Json)) := do
  let name ← Data.text (← Data.member span "endpointName")
  if ignored.contains (Text.before name '/') then return none
  let tags ← Data.items (← Data.member span "tags")
  let weight : Json := .int (← tagWeight tags)
  if Data.same (← Data.member span "type") (.str "Entry") then
    match ← matchApi apis (.str name) with
    | none => return some ([name], .api, weight)
    | some api => return some ([Data.shown (← Data.member api "name")], .api,
      api.getD "weight" (.int 0))
  else if Data.same (← Data.member span "layer") (.str "Database") then
    match ← tableNames find name (← tagTable tags) with
    | none => return none
    | some names => return some (names, .database, weight)
  else return some ([name], .service, weight)

/-- The nodes that a span stands for. -/
def spanNodes (find : TableFinder) (apis : Json) (span : Json) :
    Result (Option (List SpanNode)) := do
  match ← spanNames find apis span with
  | none => return none
  | some (names, kind, weight) =>
    let traceId ← Data.member span "traceId"
    let segmentId ← Data.member span "segmentId"
    let spanId ← Data.member span "spanId"
    let parentSpanId ← Data.member span "parentSpanId"
    let startTime ← Data.member span "startTime"
    let endTime ← Data.member span "endTime"
    return some (names.map fun name =>
      ⟨name, kind, weight, traceId, segmentId, spanId, parentSpanId, startTime, endTime⟩)

/-- The node that a span is when another span names it as its parent: its endpoint, or at the root
of a trace the entry of the configuration that its endpoint fits. -/
def parentName (apis : Json) (span : Json) : Result Json := do
  let name ← Data.member span "endpointName"
  if Data.same (← Data.member span "spanId") (.int 0) then
    match ← matchApi apis name with
    | some api => Data.member api "name"
    | none => return name
  else return name

end Coupling.Trace
