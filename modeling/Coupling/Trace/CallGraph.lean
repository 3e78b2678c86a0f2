import Coupling.Graph.Digraph
import Coupling.Trace.Span

/-!
# Call graphs

A call graph is made of traces, span by span. A node counts its calls and adds up the time they
took. An edge leads from the parent of a span to the span; it weighs as much as the calls along it,
each of which counts as much as the entry of the trace that was met last, or one if none was.
-/

namespace Coupling.Trace

open Data (Result)

/-- A graph and the entries of traces met so far. -/
structure CallGraph where
  graph : Digraph := .empty
  apis : List SpanNode := []
deriving Inhabited, Repr

/-- A step in making a call graph; a fault leaves what was made before it. -/
abbrev Build := ExceptT Data.Fault (StateM CallGraph)

namespace Build

variable [PatternReader]

/-- Adds a call to a node. -/
def addCall (n : SpanNode) (time : Json) : Build Unit := do
  let g := (← get).graph
  let id : Json := .str n.name
  match g.find? id with
  | some node => do
    let total ← liftExcept
      (do Data.add (← Data.member (.obj node.attributes) "execution_time") time)
    let g := g.changeNode id fun node =>
      { node with attributes := Json.put node.attributes "execution_time" total }
    modify fun c => { c with graph := g }
    let count ← liftExcept (do Data.add (← Data.member (.obj node.attributes) "count") (.int 1))
    let g := g.changeNode id fun node =>
      { node with attributes := Json.put node.attributes "count" count }
    modify fun c => { c with graph := g }
  | none => do
    let g ← liftExcept (g.putNode id [("execution_time", time), ("count", .int 1),
      ("type", .str n.kind.name), ("weight", n.weight)])
    modify fun c => { c with graph := g }

/-- Adds weight to an edge. -/
def addEdge (source target weight : Json) : Build Unit := do
  let g := (← get).graph
  let old ← liftExcept (g.findEdge source target)
  let weight ← match old with
    | some attributes => liftExcept (do Data.add (← Data.member (.obj attributes) "weight") weight)
    | none => pure weight
  -- The ends of a new edge are brought in one after the other.
  let g ← liftExcept (g.withNode source)
  modify fun c => { c with graph := g }
  let g ← liftExcept (g.putEdge source target "weight" weight)
  modify fun c => { c with graph := g }

/-- The first span of a trace with a number. -/
def findSpan (number : Json) : List Json → Result (Option Json)
  | [] => return none
  | span :: spans => do
    if Data.same (← Data.member span "spanId") number then return some span
    findSpan number spans

/-- Adds a node of a span; the result is what calls weigh from here on. -/
def addNode (apis : Json) (spans : List Json) (weight : Json) (n : SpanNode) : Build Json := do
  let time ← liftExcept (Data.subtract n.endTime n.startTime)
  addCall n time
  if !Data.same n.parentSpanId (.int (-1)) then
    match ← liftExcept (findSpan n.parentSpanId spans) with
    | some parent => do
      let source ← liftExcept (parentName apis parent)
      addEdge source (.str n.name) weight
      return weight
    | none => return weight
  else if n.kind = .api then
    modify fun c => { c with apis := c.apis ++ [n] }
    if ← liftExcept (Data.isPositive n.weight) then return n.weight else return weight
  else return weight

/-- Adds a span; the result is what calls weigh from here on. -/
def addSpan (find : TableFinder) (apis : Json) (spans : List Json) (weight : Json) (span : Json) :
    Build Json := do
  match ← liftExcept (spanNodes find apis span) with
  | none => return weight
  | some nodes => nodes.foldlM (addNode apis spans) weight

/-- Adds a trace. -/
def addTrace (find : TableFinder) (apis : Json) (trace : Json) : Build Unit := do
  let spans ← liftExcept (Data.items trace)
  let _ ← spans.foldlM (addSpan find apis spans) (Json.int 1)

/-- Adds traces. -/
def addTraces (find : TableFinder) (apis : Json) (traces : Json) : Build Unit := do
  (← liftExcept (Data.items traces)).forM (addTrace find apis)

end Build

end Coupling.Trace
