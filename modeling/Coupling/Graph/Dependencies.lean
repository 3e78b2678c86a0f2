import Coupling.Graph.Chart

/-!
# Dependency graphs

Records of symbols become a graph whose nodes are the symbols and the names they depend on. An edge
weighs as much as the number of times that a symbol names the other.
-/

namespace Coupling

open Data (Result)

/-- A project with the records of its symbols and their graph. -/
structure Dependencies where
  project : String
  data : Json := .null
  graph : Digraph := .empty
deriving Inhabited

namespace Dependencies

/-- The kinds of symbols that have a color of their own. -/
def colors : List (String × String) :=
  [("Class", "#91cc75"), ("Interface", "#5470c6"), ("Method", "#61a0a8"), ("Import", "#fac858")]

/-- The color of a kind of symbol. -/
def color (kind : Json) : Result Json := do
  match ← Data.key kind with
  | .str k => return .str ((colors.lookup k).getD "#f8ac59")
  | _ => return .str "#f8ac59"

/-- The members of a symbol's record that are kept. -/
def keptMembers : List String :=
  ["sym_type", "short_name", "full_name", "start_lineno", "stop_lineno", "dependency"]

/-- The record of a symbol with the members that are kept, and its color. -/
def record (j : Json) : Result Json := do
  let kept ← keptMembers.mapM fun k => do return (k, ← Data.member j k)
  return .obj (kept ++ [("color", ← color (← Data.member j "sym_type"))])

/-- Takes the records of symbols. -/
def load (d : Dependencies) (j : Json) : Result Dependencies := do
  return { d with data := .arr (← (← Data.items j).mapM record) }

/-- A step in making a graph; a fault leaves what was made before it. -/
abbrev Build := ExceptT Data.Fault (StateM Digraph)

/-- Member names that an attribute cannot have. -/
def reservedNames : List String := ["self", "node_for_adding"]

/-- Adds the node of a symbol. -/
def addSymbol (j : Json) : Build Unit := do
  let name ← liftExcept (Data.member j "full_name")
  match j with
  | .obj members =>
    if members.any fun m => reservedNames.contains m.1 then throw .wrongKind
    set (← liftExcept ((← get).putNode name members))
  | _ => throw .wrongKind

/-- The weight of an edge that is named once more. -/
def nextWeight (g : Digraph) (source target : Json) : Result Json := do
  match ← g.findEdge source target with
  | some attributes => Data.add (← Data.member (.obj attributes) "weight") (.int 1)
  | none => return .int 1

/-- Adds one to the weight of an edge. -/
def addDependency (source target : Json) : Build Unit := do
  let g ← get
  let weight ← liftExcept (nextWeight g source target)
  -- The ends of a new edge are brought in one after the other.
  let g ← liftExcept (g.withNode source)
  set g
  set (← liftExcept (g.putEdge source target "weight" weight))

/-- Adds the edges of a symbol. -/
def addDependencies (j : Json) : Build Unit := do
  let targets ← liftExcept (do Data.items (← Data.member j "dependency"))
  let source ← liftExcept (Data.member j "full_name")
  targets.forM (addDependency source)

/-- Adds all symbols, and then all their edges. -/
def addAll (data : Json) : Build Unit := do
  (← liftExcept (Data.items data)).forM addSymbol
  (← liftExcept (Data.items data)).forM addDependencies

/-- Makes the graph of the records. -/
def build (d : Dependencies) : Result Unit × Dependencies :=
  let (r, graph) := (addAll d.data).run.run d.graph
  (r, { d with graph })

/-- The groups of nodes in the chart. -/
def categories : List (String × String) :=
  [("类节点", "Class"), ("接口节点", "Interface"), ("方法节点", "Method"), ("导入节点", "Import")]

/-- The page that shows the graph. -/
def page (d : Dependencies) : Result String := do
  let nodes ← d.graph.nodes.mapM fun n => do
    return Chart.node n (.int 50) (← Data.member (.obj n.attributes) "color")
  let links ← d.graph.edges.mapM Chart.link
  let groups : List Json := categories.map fun (name, kind) =>
    .obj [("name", .str name), ("itemStyle", .obj [("color", .str ((colors.lookup kind).getD ""))])]
  return Page.render {
    margin := 8
    title := d.project ++ "静态依赖关系图"
    nodeTip := [
      "                        return `符号：$\x7bparams.name\x7d<br>",
      "                                符号类型：$\x7bparams.data.value.sym_type\x7d<br>",
      "                                起始行：$\x7bparams.data.value.start_lineno\x7d<br>",
      "                                结束行：$\x7bparams.data.value.stop_lineno\x7d`;"]
    nodes := .arr nodes
    links := .arr links
    categories := (Json.arr groups).pretty }

end Dependencies

end Coupling
