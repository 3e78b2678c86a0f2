import Coupling.Data.Access

/-!
# Directed graphs

A graph whose nodes and edges carry attributes. Nodes keep the order in which they came, and the
edges of a node the order in which they came. A node can be any value but nothing, a list or a
record; equal values are one node. An edge brings in the nodes at its ends, without attributes, if
they are not there.
-/

namespace Coupling

open Data (Result)

/-- Attributes in order of their first appearance. -/
abbrev Attributes := List (String × Json)

/-- A node with its attributes and the edges that leave it. -/
structure GraphNode where
  id : Json
  attributes : Attributes
  edges : List (Json × Attributes)
deriving Inhabited, Repr

/-- A directed graph. -/
structure Digraph where
  nodes : List GraphNode
deriving Inhabited, Repr

namespace Digraph

def empty : Digraph := ⟨[]⟩

def find? (g : Digraph) (id : Json) : Option GraphNode := g.nodes.find? fun n => Data.same n.id id

def hasNode (g : Digraph) (id : Json) : Bool := (g.find? id).isSome

/-- Changes a node. -/
def changeNode (g : Digraph) (id : Json) (f : GraphNode → GraphNode) : Digraph :=
  ⟨g.nodes.map fun n => if Data.same n.id id then f n else n⟩

/-- Puts attributes, each in place if it is there. -/
def putAll (old new : Attributes) : Attributes := new.foldl (fun as a => Json.put as a.1 a.2) old

/-- A node, brought in without attributes if it is not there. -/
def withNode (g : Digraph) (id : Json) : Result Digraph := do
  let id ← Data.key id
  if g.hasNode id then return g
  match id with
  | .null => throw .noNode
  | id => return ⟨g.nodes ++ [⟨id, [], []⟩]⟩

/-- Puts attributes on a node, which is brought in if it is not there. -/
def putNode (g : Digraph) (id : Json) (attributes : Attributes) : Result Digraph := do
  return (← g.withNode id).changeNode id fun n =>
    { n with attributes := putAll n.attributes attributes }

/-- The attributes of an edge. -/
def edge? (g : Digraph) (source target : Json) : Option Attributes := do
  let n ← g.find? source
  let e ← n.edges.find? fun e => Data.same e.1 target
  return e.2

/-- The edge between two values that can be keys. -/
def findEdge (g : Digraph) (source target : Json) : Result (Option Attributes) := do
  let source ← Data.key source
  if !g.hasNode source then return none
  return g.edge? source (← Data.key target)

/-- Puts an attribute on an edge that leaves a node. -/
def putEdgeInto (target : Json) (key : String) (value : Json) :
    List (Json × Attributes) → List (Json × Attributes)
  | [] => [(target, [(key, value)])]
  | e :: es =>
    if Data.same e.1 target then (e.1, Json.put e.2 key value) :: es
      else e :: putEdgeInto target key value es

/-- Puts an attribute on an edge, which is brought in with its ends if it is not there. -/
def putEdge (g : Digraph) (source target : Json) (key : String) (value : Json) :
    Result Digraph := do
  let g ← g.withNode source
  let g ← g.withNode target
  return g.changeNode source fun n => { n with edges := putEdgeInto target key value n.edges }

/-- All edges, those of earlier nodes first. -/
def edges (g : Digraph) : List (Json × Json × Attributes) :=
  g.nodes.flatMap fun n => n.edges.map fun e => (n.id, e.1, e.2)

end Digraph

end Coupling
