import Coupling.Data.Shown
import Coupling.Graph.Digraph

/-!
# GML

A text of keys and values, one to a line, with nested values between brackets. Nodes are numbered in
order and named by a label. The format knows whole numbers of 32 bits, fractions with a point, and
texts of printable ASCII characters.
-/

namespace Coupling.Gml

open Data (Result)

/-- A key is a letter followed by letters, digits and underscores. -/
def isKeyText : List Char → Bool
  | [] => false
  | c :: cs =>
    let rest := if cs.getLast? == some '\n' then cs.dropLast else cs
    c.isAlpha && rest.all fun c => c.isAlphanum || c == '_'

/-- A text with everything but plain printable characters as a number. -/
def escape (s : String) : String :=
  String.join (s.toList.map fun c =>
    if ' ' ≤ c ∧ c ≤ '~' ∧ c ≠ '&' ∧ c ≠ '\x22' then c.toString else "&#" ++
      toString c.toNat ++ ";")

/-- A fraction with a point in it. -/
def fractionText (x : Float) : String :=
  let text := (Decimal.renderFloat x).toList.map Char.toUpper
  if text == ['I', 'N', 'F'] then "+INF"
  else
    let mantissa := text.takeWhile (· != 'E')
    if mantissa.length < text.length && !mantissa.contains '.' then
      String.ofList (mantissa ++ '.' :: text.drop mantissa.length)
    else String.ofList text

/-- The limits of a whole number. -/
def isSmall (n : Int) : Bool := decide (-0x80000000 ≤ n) && decide (n < 0x80000000)

def inQuotes (s : String) : String := "\"" ++ s ++ "\""

def blanks (depth : Nat) : String := String.ofList (List.replicate (2 * depth) ' ')

/-- A key and a value on one line. -/
def line (depth : Nat) (key value : String) : String := blanks depth ++ key ++ " " ++ value

/-- A value that is written as a text; other values cannot be. -/
def textLine (depth : Nat) (key : String) (value : Json) : Result (List String) :=
  match value with
  | .str s => .ok [line depth key (inQuotes (escape s))]
  | j => .error (.unwritable (Data.literal j ++ " is not a string"))

mutual

/-- The lines of a key with a value. A list repeats its key, also inside of another key but not
inside of another list. -/
def lines (depth : Nat) (inList : Bool) (key : String) (value : Json) : Result (List String) := do
  if !isKeyText key.toList then throw (.unwritable (Text.quoted key ++ " is not a valid key"))
  match value with
  | .bool b =>
    return [line depth key (if key = "label" then inQuotes (Data.shown (.bool b)) else if b
      then "1" else "0")]
  | .int n =>
    let quoted := key = "label" || !isSmall n
    return [line depth key (if quoted then inQuotes (toString n) else toString n)]
  | .float x =>
    return [line depth key (if key = "label" then inQuotes (fractionText x) else fractionText x)]
  | .obj members => return [line depth key "["] ++ (← memberLines (depth + 1) members) ++
    [blanks depth ++ "]"]
  | .arr [] => textLine depth key value
  | .arr (x :: xs) =>
    if key = "label" || inList then textLine depth key value
    else
      let start := if xs.isEmpty then [line depth key (inQuotes "_networkx_list_start")] else []
      return start ++ (← itemLines depth key (x :: xs))
  | .null => textLine depth key value
  | .str _ => textLine depth key value

def memberLines (depth : Nat) : List (String × Json) → Result (List String)
  | [] => return []
  | (k, v) :: ms => do return (← lines depth false k v) ++ (← memberLines depth ms)

def itemLines (depth : Nat) (key : String) : List Json → Result (List String)
  | [] => return []
  | x :: xs => do return (← lines depth true key x) ++ (← itemLines depth key xs)

end

/-- The lines of attributes, without those that the format gives a meaning of its own. -/
def attributeLines (reserved : List String) (attributes : Attributes) : Result (List String) := do
  let ls ← attributes.mapM fun (k, v) => do
    if reserved.contains k then return [] else lines 2 false k v
  return ls.flatten

def nodeLines (n : GraphNode) (number : Nat) : Result (List String) := do
  return ["  node [", "    id " ++ toString number] ++ (← lines 2 false "label" n.id)
    ++ (← attributeLines ["id", "label"] n.attributes) ++ ["  ]"]

/-- The number of a node. -/
def numberOf (g : Digraph) (id : Json) : Nat := g.nodes.findIdx fun n => Data.same n.id id

def edgeLines (g : Digraph) (e : Json × Json × Attributes) : Result (List String) := do
  return ["  edge [", "    source " ++ toString (numberOf g e.1),
    "    target " ++ toString (numberOf g e.2.1)]
    ++ (← attributeLines ["source", "target"] e.2.2) ++ ["  ]"]

/-- The text of a graph. -/
def write (g : Digraph) : Result String := do
  let nodes ← g.nodes.zipIdx.mapM fun (n, i) => nodeLines n i
  let edges ← g.edges.mapM (edgeLines g)
  return String.join ((["graph [", "  directed 1"] ++ nodes.flatten ++ edges.flatten ++ ["]"]).map
    (· ++ "\n"))

end Coupling.Gml
