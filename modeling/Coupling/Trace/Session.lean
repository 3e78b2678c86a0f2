import Coupling.Graph.Chart
import Coupling.Sql.Tables
import Coupling.Trace.Backend
import Coupling.Trace.CallGraph

/-!
# Sessions

A session gathers the traces of a project, from a file or from a backend, and makes their call
graph.
-/

namespace Coupling.Trace

open Data (Result)

/-- What a session holds. -/
structure Session where
  project : String
  /-- The endpoint templates given for the project, which are taken up when the graph is made. -/
  given : Option Json := none
  templates : Json := .arr []
  traces : Json := .arr []
  calls : CallGraph := {}
deriving Inhabited

namespace Session

/-- Runs a step in making the call graph. -/
def grow (s : Session) (step : Build Unit) : Result Unit × Session :=
  let (r, calls) := step.run.run s.calls
  (r, { s with calls })

section

variable [PatternReader]

/-- Adds a trace to the call graph. -/
def add (s : Session) (trace : Json) (find : TableFinder := Sql.tables) : Result Unit × Session :=
  s.grow (Build.addTrace find s.templates trace)

/-- Adds all traces to the call graph. -/
def generate (s : Session) (find : TableFinder := Sql.tables) : Result Unit × Session :=
  let s := { s with templates := s.given.getD s.templates }
  s.grow (Build.addTraces find s.templates s.traces)

end

/-- Takes the traces of the project from a backend. -/
def collect (s : Session) (now : Time.Moment) (b : Backend) (responses : List Response) :
    Result Unit × Session × List Call :=
  let (r, talk) := (Ask.tracesOf now (.str s.project)).run.run { backend := b, responses }
  match r with
  | .ok _ => (r, { s with traces := .arr talk.backend.spans }, talk.calls)
  | .error _ => (r, s, talk.calls)

/-- The number of traces. -/
def size (s : Session) : Result Nat :=
  match s.traces with
  | .arr xs => .ok xs.length
  | .obj ms => .ok ms.length
  | .str t => .ok t.length
  | _ => .error .wrongKind

/-- The entries met so far. -/
def apis (s : Session) : Json := .arr (s.calls.apis.map SpanNode.toJson)

/-- The size of a node in the chart: it grows with its calls up to a limit. -/
def nodeSize (count : Json) : Result Json := do
  let size ← Data.divideAndAdd count 5 30
  return if 100 < size then .int 100 else .float size

/-- The color of a kind of node in the chart. -/
def nodeColor (kind : Json) : String :=
  if Data.same kind (.str "api") then "#91cc75"
  else if Data.same kind (.str "database") then "#ff7875"
  else "#5470c6"

/-- The groups of nodes in the chart. -/
def categories : String :=
  "\n".intercalate [
    "[\x7b",
    "                        name: '数据库节点',",
    "                        itemStyle: \x7b color: '#ff7875' \x7d",
    "                    \x7d, \x7b",
    "                        name: '端口节点',",
    "                        itemStyle: \x7b color: '#91cc75' \x7d",
    "                    \x7d, \x7b",
    "                        name: '服务节点',",
    "                        itemStyle: \x7b color: '#5470c6' \x7d",
    "                    \x7d]"]

/-- The page that shows the call graph. -/
def page (s : Session) : Result String := do
  let nodes ← s.calls.graph.nodes.mapM fun n => do
    let size ← nodeSize (← Data.member (.obj n.attributes) "count")
    return Chart.node n size (.str (nodeColor (← Data.member (.obj n.attributes) "type")))
  let links ← s.calls.graph.edges.mapM Chart.link
  return Page.render {
    margin := 4
    title := "服务依赖关系图"
    nodeTip := [
      "                        return `服务：$\x7bparams.name\x7d<br>",
      "                                调用次数：$\x7bparams.data.value.count\x7d<br>",
      "                                总耗时：$\x7bparams.data.value.execution_time/1000\x7dms`;"]
    nodes := .arr nodes
    links := .arr links
    categories }

end Session

end Coupling.Trace
