import Coupling.Data.Access
import Coupling.Data.Shown
import Coupling.Time.Moment
import Coupling.Trace.Query

/-!
# Monitoring backends

A backend that records traces is asked by queries: for its services, for the traces of a service
within a span of time before now, and for the spans of a trace. What it answers is kept as it comes.
The answers are given beforehand, one to a call; the calls that were made are kept.
-/

namespace Coupling.Trace

open Data (Result)
open Time (Moment)

/-- A call of a backend. -/
structure Call where
  url : String
  query : String
  arguments : Json
deriving Inhabited

/-- What a call says of its content. -/
def Call.headers : Json := .obj [("Content-Type", .str "application/json")]

/-- An answer of a backend. -/
structure Response where
  status : Json
  body : Json := .null
  text : Json := .str ""
deriving Inhabited

/-- A backend and what it has answered. -/
structure Backend where
  url : String
  /-- How far back traces are asked for. -/
  reach : Time.Span
  services : Json := .null
  traces : Json := .null
  /-- The spans of each trace. -/
  spans : List Json := []
deriving Inhabited

namespace Backend

def defaultUrl : String := "http://localhost:8080"

/-- How many hours back traces are asked for. -/
def defaultHours : Json := .int 72

/-- A backend that has not been asked yet. -/
def new (url : String) (hours : Json) :
    Result Backend := do return { url, reach := ← Time.hours hours }

end Backend

/-- A conversation with a backend. -/
structure Talk where
  backend : Backend
  responses : List Response
  calls : List Call := []

/-- A step in a conversation; a fault leaves what was said before it. -/
abbrev Ask := ExceptT Data.Fault (StateM Talk)

namespace Ask

def changeBackend (f : Backend → Backend) : Ask Unit :=
  modify fun t => { t with backend := f t.backend }

/-- Sends a query and gives its answer. -/
def send (query : String) (arguments : Json) : Ask Json := do
  let t ← get
  let calls := t.calls ++ [⟨t.backend.url ++ "/graphql", query, arguments⟩]
  match t.responses with
  | [] => do
    set { t with calls }
    throw .noItem
  | r :: responses => do
    set { t with calls, responses }
    if Data.same r.status (.int 200) then return r.body
    throw (.refused (Data.shown r.status) (Data.shown r.text))

/-- Follows members of records, one inside of the other. -/
def follow (j : Json) (keys : List String) : Ask Json :=
  liftExcept (keys.foldlM Data.memberOrNull j)

/-- Asks for the services. -/
def services : Ask Unit := do
  let answer ← send servicesQuery (.obj [("layer", .str "GENERAL")])
  let found ← follow answer ["data", "services"]
  changeBackend fun b => { b with services := found }

/-- What traces of a service are asked for: those between two moments. -/
def condition (start stop : Moment) (service : Json) : Json :=
  .obj [("condition", .obj [
    ("queryDuration", .obj [("start", .str start.render), ("end", .str stop.render),
      ("step", .str "MINUTE")]),
    ("traceState", .str "ALL"),
    ("queryOrder", .str "BY_START_TIME"),
    ("paging", .obj [("pageNum", .int 1), ("pageSize", .int 100)]),
    ("minTraceDuration", .null),
    ("maxTraceDuration", .null),
    ("serviceId", service)])]

/-- Asks for the traces of a service. -/
def traces (now : Moment) (service : Json) : Ask Unit := do
  let start ← liftExcept (now.before (← get).backend.reach)
  let answer ← send tracesQuery (condition start now service)
  let found ← follow answer ["data", "data", "traces"]
  changeBackend fun b => { b with traces := found }

/-- Asks for the spans of a trace. -/
def trace (id : Json) : Ask Unit := do
  let answer ← send traceQuery (.obj [("traceId", id)])
  let found ← follow answer ["data", "trace", "spans"]
  changeBackend fun b => { b with spans := b.spans ++ [found] }

/-- The first of what a value holds. -/
def firstOf : Json → Result Json
  | .arr [] => .error .noItem
  | .arr (x :: _) => .ok x
  | .str s =>
    match s.toList with
    | [] => .error .noItem
    | c :: _ => .ok (.str c.toString)
  | .obj _ => .error (.noPlace 0)
  | _ => .error .wrongKind

/-- The identity of the first service with a name, or nothing. -/
def serviceId (name : Json) : List Json → Result Json
  | [] => return .null
  | s :: ss => do
    if Data.same (← Data.memberOrNull s "value") name then Data.memberOrNull s "id"
      else serviceId name ss

/-- Asks for the spans of all traces of the service with a name. -/
def tracesOf (now : Moment) (name : Json) : Ask Unit := do
  changeBackend fun b => { b with spans := [] }
  services
  let known := (← get).backend.services
  let id ← liftExcept (do serviceId name (← Data.items known))
  traces now id
  (← liftExcept (Data.items (← get).backend.traces)).forM fun t => do
    trace (← liftExcept (do firstOf (← Data.memberOrNull t "traceIds")))

end Ask

end Coupling.Trace
