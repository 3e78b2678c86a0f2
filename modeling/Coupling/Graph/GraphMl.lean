import Coupling.Data.Shown
import Coupling.Graph.Digraph
import Coupling.Xml.Element

/-!
# GraphML

A document that declares a key for every attribute name, type of value and kind of owner that
occurs, and then lists nodes and edges with their values. Keys are numbered as they are met, nodes
before edges, and declared last first.
-/

namespace Coupling.GraphMl

open Data (Result)
open Xml (Element)

/-- What an attribute is declared as. -/
structure Key where
  name : String
  type : String
  owner : String
deriving DecidableEq, Repr

/-- The type that a value is declared with. -/
def typeName : Json → Result String
  | .int _ => .ok "long"
  | .float _ => .ok "double"
  | .str _ => .ok "string"
  | .bool _ => .ok "boolean"
  | j => .error (.unwritable ("GraphML writer does not support " ++ Data.kindName j ++
    " as data values."))

/-- The keys met so far, in order. -/
abbrev Write := StateT (List Key) Result

/-- The name of a key. -/
def keyId (k : Key) : Write String := do
  let ks ← get
  match ks.idxOf? k with
  | some i => return "d" ++ toString i
  | none =>
    set (ks ++ [k])
    return "d" ++ toString ks.length

/-- The values of a node or an edge. -/
def dataOf (owner : String) (attributes : Attributes) : Write (List Element) :=
  attributes.mapM fun (name, value) => do
    let type ← liftM (typeName value)
    let id ← keyId ⟨name, type, owner⟩
    return .leaf "data" [("key", id)] (Data.shown value)

def nodeElement (n : GraphNode) : Write Element := do
  return .node "node" [("id", Data.shown n.id)] (← dataOf "node" n.attributes)

def edgeElement (e : Json × Json × Attributes) : Write Element := do
  return .node "edge" [("source", Data.shown e.1), ("target", Data.shown e.2.1)]
    (← dataOf "edge" e.2.2)

def keyElement (k : Key) (i : Nat) : Element :=
  .leaf "key" [("id", "d" ++ toString i), ("for", k.owner), ("attr.name", k.name),
    ("attr.type", k.type)] ""

def header : List (String × String) :=
  [("xmlns", "http://graphml.graphdrawing.org/xmlns"),
    ("xmlns:xsi", "http://www.w3.org/2001/XMLSchema-instance"),
    ("xsi:schemaLocation",
      "http://graphml.graphdrawing.org/xmlns " ++
        "http://graphml.graphdrawing.org/xmlns/1.0/graphml.xsd")]

/-- The document of a graph. -/
def write (g : Digraph) : Result String := do
  let body : Write (List Element) := do
    let nodes ← g.nodes.mapM nodeElement
    let edges ← g.edges.mapM edgeElement
    return nodes ++ edges
  let (children, keys) ← body.run []
  let declared := (keys.zipIdx.map fun (k, i) => keyElement k i).reverse
  return (Element.node "graphml" header
    (declared ++ [.node "graph" [("edgedefault", "directed")] children])).document

end Coupling.GraphMl
