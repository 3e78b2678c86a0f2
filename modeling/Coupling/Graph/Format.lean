import Coupling.Graph.Gexf
import Coupling.Graph.Gml
import Coupling.Graph.GraphMl
import Coupling.Json.Writer

/-!
# File formats of graphs
-/

namespace Coupling

open Data (Result)

/-- A format that a graph can be written in. -/
inductive GraphFormat where
  | graphMl
  | gexf
  | gml
  | json
deriving DecidableEq, Repr, Inhabited

namespace GraphFormat

/-- The format of a name. -/
def ofName? : String → Option GraphFormat
  | "graphml" => some .graphMl
  | "gexf" => some .gexf
  | "gml" => some .gml
  | "json" => some .json
  | _ => none

/-- The format that a value names. -/
def ofJson (j : Json) : Result GraphFormat :=
  match j.str?.bind ofName? with
  | some f => .ok f
  | none => .error (.unknownFormat (Data.shown j))

end GraphFormat

namespace Digraph

/-- A node as a record. -/
def nodeRecord (n : GraphNode) : Json := .obj (putAll [("id", n.id)] n.attributes)

/-- An edge as a record. -/
def edgeRecord (e : Json × Json × Attributes) : Json :=
  .obj (putAll [("source", e.1), ("target", e.2.1)] e.2.2)

/-- A graph as two lists of records. -/
def toRecords (g : Digraph) : Json :=
  .obj [("nodes", .arr (g.nodes.map nodeRecord)), ("edges", .arr (g.edges.map edgeRecord))]

/-- The text of a graph in a format, written on a day. -/
def write (day : String) (g : Digraph) : GraphFormat → Result String
  | .graphMl => GraphMl.write g
  | .gexf => Gexf.write day g
  | .gml => Gml.write g
  | .json => .ok g.toRecords.pretty

/-- Nodes and edges in order, each with its attributes. -/
def toJson (g : Digraph) : List (String × Json) :=
  [("nodes", .arr (g.nodes.map fun n => .arr [n.id, .obj n.attributes])),
    ("edges", .arr (g.edges.map fun e => .arr [e.1, e.2.1, .obj e.2.2]))]

end Digraph

end Coupling
