import Coupling.Data.Shown
import Coupling.Graph.Digraph
import Coupling.Xml.Element

/-!
# GEXF

A document that declares the attributes of nodes and edges by title and then lists nodes and edges
with their values. A list is a value that changes in time: each of its items is a value with a start
and an end, and a start or an end makes the attribute and the graph dynamic. Attributes are numbered
as they are met; the groups of their declarations, one for each kind of owner and mode, come last
first.
-/

namespace Coupling.Gexf

open Data (Result)
open Xml (Element)

/-- A declared attribute. -/
structure Declared where
  owner : String
  mode : String
  title : String
  type : String
deriving DecidableEq, Repr

/-- What is known of a document while it is written: the attributes met so far, and what its times
are if it has any. -/
structure State where
  declared : List Declared := []
  timeFormat : Option String := none

abbrev Write := StateT State Result

/-- The type that a value is declared with. -/
def typeName? : Json → Option String
  | .int _ => some "long"
  | .float _ => some "double"
  | .bool _ => some "boolean"
  | .str _ => some "string"
  | .arr _ => some "string"
  | .obj _ => some "string"
  | .null => none

/-- The number of an attribute. The type of an attribute is that of its first value. -/
def attributeId (owner mode title type : String) : Write String := do
  let s ← get
  match s.declared.findIdx? fun d => d.owner = owner && d.mode = mode && d.title = title with
  | some i => return toString i
  | none =>
    let d : Declared := ⟨owner, mode, title, type⟩
    set { s with declared := s.declared ++ [d] }
    return toString s.declared.length

/-- What times are if one of them is this value. -/
def timeFormat : Json → Result String
  | .str _ => .ok "date"
  | .float _ => .ok "double"
  | .int _ => .ok "long"
  | .bool _ => .ok "long"
  | _ => .error (.unwritable "timeformat should be of the type int, float or str")

/-- A start or an end; the first one decides what times are. -/
def meetTime (time : Json) : Write Unit := do
  let s ← get
  match s.timeFormat, time with
  | some _, _ => return
  | none, .null => return
  | none, time =>
    let f ← liftM (timeFormat time)
    set { s with timeFormat := some f }

/-- A value with its start and its end. -/
structure Spell where
  value : Json
  start : Json
  stop : Json

/-- An item of a list that changes in time. -/
def spell (j : Json) : Result Spell := do
  match ← Data.items j with
  | [value, start, stop] => return ⟨value, start, stop⟩
  | xs => throw (if xs.length < 3 then .tooFew xs.length else .tooMany)

def isNull : Json → Bool
  | .null => true
  | _ => false

/-- The first of some values with a time, or the last of them. -/
def leading (last : Json) : List Json → Result (Json × Option Spell)
  | [] => return (last, none)
  | x :: xs => do
    let s ← spell x
    if isNull s.start && isNull s.stop then leading s.value xs else return (s.value, some s)

/-- A fraction that is no number or has no bound is named otherwise. -/
def specialName (text : String) : String :=
  match text with
  | "inf" => "INF"
  | "nan" => "NaN"
  | "-inf" => "-INF"
  | text => text

def isFraction : Json → Bool
  | .float _ => true
  | _ => false

/-- The text of a value that does not change in time. -/
def valueText : Json → String
  | .bool b => if b then "true" else "false"
  | .float x => specialName (Data.shown (.float x))
  | j => Data.shown j

def timeAttribute (name : String) (time : Json) : List (String × String) :=
  if isNull time then [] else [(name, Data.shown time)]

def spellElement (id : String) (fraction : Bool) (s : Spell) : Element :=
  let text := Data.shown s.value
  .leaf "attvalue" ([("for", id), ("value", if fraction then specialName text else text)]
    ++ timeAttribute "start" s.start ++ timeAttribute "end" s.stop) ""

/-- The values of one attribute. A list without times takes the mode of the attribute before it. -/
def valueElements (owner mode name : String) (value : Json) : Write (String × List Element) := do
  let title := if name = "key" then "networkx_key" else name
  match value with
  | .null => throw .wrongKind
  | .arr xs => do
    let (first, timed) ← liftM (leading value xs)
    let mode ← match timed with
      | some s => do
        meetTime s.start
        meetTime s.stop
        pure "dynamic"
      | none => pure mode
    match typeName? first with
    | none => throw (.noKind (Data.kindName first))
    | some type => do
      let id ← attributeId owner mode title type
      let spells ← liftM (xs.mapM spell)
      return (mode, spells.map (spellElement id (isFraction first)))
  | value => do
    let id ← attributeId owner "static" title ((typeName? value).getD "string")
    return ("static", [.leaf "attvalue" [("for", id), ("value", valueText value)] ""])

/-- The values of attributes, from the mode of the one before. -/
def allValues (owner mode : String) : Attributes → Write (List Element)
  | [] => return []
  | (name, value) :: rest => do
    let (mode, es) ← valueElements owner mode name value
    return es ++ (← allValues owner mode rest)

/-- The values of a node or an edge; without any there is no element for them. -/
def values (owner : String) (attributes : Attributes) : Write (List Element) := do
  if attributes.isEmpty then return []
  return [.node "attvalues" [] (← allValues owner "static" attributes)]

def named (attributes : Attributes) (name : String) : Option Json := (Json.obj attributes).get? name

/-- What a node is called: an attribute says so, or it is its own name. -/
def nodeName (n : GraphNode) (key : String) : String :=
  Data.shown ((named n.attributes key).getD n.id)

/-- An attribute of a node that stands in its tag, if the node has it. -/
def ownAttribute (n : GraphNode) (name : String) : List (String × String) :=
  match named n.attributes name with
  | some v => [(name, Data.shown v)]
  | none => []

def nodeElement (n : GraphNode) : Write Element := do
  meetTime ((named n.attributes "start").getD .null)
  meetTime ((named n.attributes "end").getD .null)
  let own := ["id", "label", "pid", "start", "end"]
  let tag := [("id", nodeName n "id"), ("label", nodeName n "label")]
    ++ ownAttribute n "pid" ++ ownAttribute n "start" ++ ownAttribute n "end"
  return .node "node" tag (← values "node" (n.attributes.filter fun a => !own.contains a.1))

/-- What an end of an edge is called. -/
def endName (g : Digraph) (id : Json) : String :=
  match (g.find? id).bind fun n => named n.attributes "id" with
  | some v => Data.shown v
  | none => Data.shown id

def edgeElement (g : Digraph) (e : Json × Json × Attributes) (number : Nat) : Write Element := do
  let weight := match named e.2.2 "weight" with
    | some w => [("weight", Data.shown w)]
    | none => []
  let tag := [("source", endName g e.1), ("target", endName g e.2.1), ("id", toString number)] ++
    weight
  return .node "edge" tag (← values "edge" (e.2.2.filter (·.1 != "weight")))

/-- The groups of declarations, last first. -/
def declarations (ds : List Declared) : List Element :=
  let groups := (ds.map fun d => (d.owner, d.mode)).eraseDups.reverse
  groups.map fun (owner, mode) =>
    .node "attributes" [("mode", mode), ("class", owner)]
      (ds.zipIdx.filterMap fun (d, i) =>
        if d.owner = owner && d.mode = mode then
          some (.leaf "attribute" [("id", toString i), ("title", d.title), ("type", d.type)] "")
        else none)

def header : List (String × String) :=
  [("xmlns", "http://www.gexf.net/1.2draft"),
    ("xmlns:xsi", "http://www.w3.org/2001/XMLSchema-instance"),
    ("xsi:schemaLocation", "http://www.gexf.net/1.2draft http://www.gexf.net/1.2draft/gexf.xsd"),
    ("version", "1.2")]

/-- The document of a graph, written on a day. -/
def write (day : String) (g : Digraph) : Result String := do
  let body : Write (List Element) := do
    let nodes ← g.nodes.mapM nodeElement
    let edges ← g.edges.zipIdx.mapM fun (e, i) => edgeElement g e i
    return [.node "nodes" [] nodes, .node "edges" [] edges]
  let (children, s) ← body.run {}
  let mode := match s.timeFormat with
    | some f => [("mode", "dynamic"), ("name", ""), ("timeformat", f)]
    | none => [("mode", "static"), ("name", "")]
  let info : Element := .node "meta" [("lastmodifieddate", day)]
    [.leaf "creator" [] "NetworkX 2.7.1"]
  let graph : Element := .node "graph" (("defaultedgetype", "directed") :: mode)
    (declarations s.declared ++ children)
  return (Element.node "gexf" header [info, graph]).document

end Coupling.Gexf
