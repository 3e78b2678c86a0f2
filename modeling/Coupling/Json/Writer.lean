import Coupling.Decimal.Shortest
import Coupling.Json.Value

/-!
# JSON text

`compact` writes a value on one line and `pretty` with four spaces for each level and every item on
a line of its own. Both escape every character outside printable ASCII, those beyond the sixteen-bit
range as two escapes.
-/

namespace Coupling.Json

def hexDigits (width n : Nat) : String :=
  let ds := Nat.toDigits 16 n
  String.ofList (List.replicate (width - ds.length) '0' ++ ds)

/-- One 16-bit unit as an escape. -/
def unit (n : Nat) : String := "\\u" ++ hexDigits 4 n

/-- A character inside a quoted text. -/
def escapeChar (c : Char) : String :=
  match c with
  | '"' => "\\\""
  | '\\' => "\\\\"
  | '\n' => "\\n"
  | '\r' => "\\r"
  | '\t' => "\\t"
  | c =>
    let n := c.toNat
    if n = 8 then "\\b"
    else if n = 12 then "\\f"
    else if 32 ≤ n ∧ n < 127 then c.toString
    else if n < 0x10000 then unit n
    else unit (0xd800 + (n - 0x10000) / 0x400) ++ unit (0xdc00 + (n - 0x10000) % 0x400)

def quote (s : String) : String :=
  "\"" ++ String.join (s.toList.map escapeChar) ++ "\""

/-- The text of a number or word. -/
def scalar : Json → String
  | .null => "null"
  | .bool true => "true"
  | .bool false => "false"
  | .int n => toString n
  | .float x =>
    if x.isNaN then "NaN"
    else if x.isInf then (if x < 0 then "-Infinity" else "Infinity")
    else Decimal.renderFloat x
  | .str s => quote s
  | _ => ""

mutual

/-- A value on one line. -/
def compact : Json → String
  | .arr xs => "[" ++ ",".intercalate (compactItems xs) ++ "]"
  | .obj ms => "\x7b" ++ ",".intercalate (compactMembers ms) ++ "\x7d"
  | j => scalar j

def compactItems : List Json → List String
  | [] => []
  | x :: xs => compact x :: compactItems xs

def compactMembers : List (String × Json) → List String
  | [] => []
  | (k, v) :: ms => (quote k ++ ":" ++ compact v) :: compactMembers ms

end

/-- A line break and four blanks for each level. -/
def newline (depth : Nat) : String := "\n" ++ String.ofList (List.replicate (4 * depth) ' ')

/-- Items between brackets, each on its own line; nothing between the brackets of an empty list. -/
def enclose (opening closing : String) (depth : Nat) (items : List String) : String :=
  match items with
  | [] => opening ++ closing
  | _ => opening ++ newline (depth + 1) ++ ("," ++ newline (depth + 1)).intercalate items ++
    newline depth ++ closing

mutual

/-- A value over several lines, indented from `depth`. -/
def prettyAt (depth : Nat) : Json → String
  | .arr xs => enclose "[" "]" depth (prettyItems (depth + 1) xs)
  | .obj ms => enclose "\x7b" "\x7d" depth (prettyMembers (depth + 1) ms)
  | j => scalar j

def prettyItems (depth : Nat) : List Json → List String
  | [] => []
  | x :: xs => prettyAt depth x :: prettyItems depth xs

def prettyMembers (depth : Nat) : List (String × Json) → List String
  | [] => []
  | (k, v) :: ms => (quote k ++ ": " ++ prettyAt depth v) :: prettyMembers depth ms

end

/-- A value over several lines. -/
def pretty (j : Json) : String := prettyAt 0 j

end Coupling.Json
