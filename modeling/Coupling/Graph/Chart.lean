import Coupling.Graph.Digraph
import Coupling.Graph.Page

/-!
# Charts of graphs

The records that a chart draws for nodes and edges.
-/

namespace Coupling.Chart

open Data (Result)

/-- A node in a chart, with a size and a color. -/
def node (n : GraphNode) (size color : Json) : Json :=
  .obj [("id", n.id), ("name", n.id), ("symbolSize", size), ("value", .obj n.attributes),
    ("itemStyle", .obj [("color", color), ("shadowBlur", .int 10),
      ("shadowColor", .str "rgba(0, 0, 0, 0.3)")]),
    ("label", .obj [("show", .bool true)])]

/-- The color of an edge, from its start to its end. -/
def gradient : Json :=
  .obj [("type", .str "linear"), ("x", .int 0), ("y", .int 0), ("x2", .int 1), ("y2", .int 0),
    ("colorStops", .arr [.obj [("offset", .int 0), ("color", .str "#91d5ff")],
      .obj [("offset", .int 1), ("color", .str "#096dd9")]])]

/-- An edge in a chart, the wider the more it weighs. -/
def link (e : Json × Json × Attributes) : Result Json := do
  let weight ← Data.member (.obj e.2.2) "weight"
  let width ← Data.divideAndAdd weight 2 1
  return .obj [("source", e.1), ("target", e.2.1), ("value", weight),
    ("lineStyle", .obj [("width", .float width), ("color", gradient)])]

end Coupling.Chart
