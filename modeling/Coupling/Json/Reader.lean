import Coupling.Json.Value

/-!
# Reading JSON

`parse?` reads one value and the blanks around it, and nothing else. A member that appears twice
keeps its first place and its last value. Two escapes that form a pair stand for one character.
-/

namespace Coupling.Json

/-- What is left of a text after a value. -/
abbrev Rest := List Char

def isBlank (c : Char) : Bool := c = ' ' || c = '\t' || c = '\n' || c = '\r'

def skip (cs : List Char) : Rest := cs.dropWhile isBlank

def hexValue (c : Char) : Option Nat :=
  if '0' ≤ c ∧ c ≤ '9' then some (c.toNat - 48)
  else if 'a' ≤ c ∧ c ≤ 'f' then some (c.toNat - 87)
  else if 'A' ≤ c ∧ c ≤ 'F' then some (c.toNat - 55)
  else none

/-- Four hexadecimal digits. -/
def unit? (a b c d : Char) : Option Nat := do
  return (((← hexValue a) * 16 + (← hexValue b)) * 16 + (← hexValue c)) * 16 + (← hexValue d)

/-- The character of a 16-bit unit that stands alone; half a pair stands for no character. -/
def loneUnit (n : Nat) : Char := if n.isValidChar then Char.ofNat n else Char.ofNat 0xfffd

/-- The rest of a quoted text, its opening quote read. -/
def readString : List Char → List Char → Option (String × Rest)
  | acc, '"' :: cs => some (String.ofList acc.reverse, cs)
  | acc, '\\' :: 'u' :: a :: b :: c :: d :: '\\' :: 'u' :: e :: f :: g :: h :: cs => do
    let hi ← unit? a b c d
    let lo ← unit? e f g h
    if 0xd800 ≤ hi ∧ hi < 0xdc00 ∧ 0xdc00 ≤ lo ∧ lo < 0xe000 then
      readString (Char.ofNat (0x10000 + (hi - 0xd800) * 0x400 + (lo - 0xdc00)) :: acc) cs
    else
      readString (loneUnit hi :: acc) ('\\' :: 'u' :: e :: f :: g :: h :: cs)
  | acc, '\\' :: 'u' :: a :: b :: c :: d :: cs => do
    readString (loneUnit (← unit? a b c d) :: acc) cs
  | acc, '\\' :: c :: cs =>
    match c with
    | '"' | '\\' | '/' => readString (c :: acc) cs
    | 'n' => readString ('\n' :: acc) cs
    | 'r' => readString ('\r' :: acc) cs
    | 't' => readString ('\t' :: acc) cs
    | 'b' => readString ('\x08' :: acc) cs
    | 'f' => readString ('\x0c' :: acc) cs
    | _ => none
  | acc, c :: cs => readString (c :: acc) cs
  | _, [] => none
termination_by _ cs => cs.length

def digitsValue (cs : List Char) : Nat := cs.foldl (fun n c => n * 10 + (c.toNat - 48)) 0

/-- A number: whole without a point or exponent, a fraction with one. -/
def readNumber (cs : List Char) : Option (Json × Rest) :=
  let (neg, cs) := match cs with
    | '-' :: cs => (true, cs)
    | cs => (false, cs)
  let whole := cs.takeWhile Char.isDigit
  let cs := cs.dropWhile Char.isDigit
  if whole.isEmpty then none
  else
    let (frac, cs) := match cs with
      | '.' :: c :: cs => if c.isDigit then ((c :: cs).takeWhile Char.isDigit,
        (c :: cs).dropWhile Char.isDigit)
        else ([], '.' :: c :: cs)
      | cs => ([], cs)
    let (exp, cs) := match cs with
      | e :: cs' =>
        if e = 'e' ∨ e = 'E' then
          let (eneg, ds) := match cs' with
            | '-' :: ds => (true, ds)
            | '+' :: ds => (false, ds)
            | ds => (false, ds)
          let es := ds.takeWhile Char.isDigit
          if es.isEmpty then (none, cs)
          else (some (if eneg then -(digitsValue es : Int) else digitsValue es),
            ds.dropWhile Char.isDigit)
        else (none, cs)
      | [] => (none, [])
    if frac.isEmpty && exp.isNone then
      let n : Int := digitsValue whole
      some (.int (if neg then -n else n), cs)
    else
      let e : Int := exp.getD 0 - frac.length
      let m := digitsValue (whole ++ frac)
      let x := Float.ofScientific m (e < 0) e.natAbs
      some (.float (if neg then -x else x), cs)

def word (w : String) (v : Json) (cs : List Char) : Option (Json × Rest) :=
  if w.toList.isPrefixOf cs then some (v, cs.drop w.length) else none

mutual

/-- Reads a value after blanks. The first argument bounds the depth of the reading. -/
def readValue : Nat → List Char → Option (Json × Rest)
  | 0, _ => none
  | n + 1, cs =>
    match skip cs with
    | '"' :: cs => (readString [] cs).map fun r => (.str r.1, r.2)
    | '[' :: cs => match skip cs with
      | ']' :: cs => some (.arr [], cs)
      | cs => readItems n [] cs
    | '\x7b' :: cs => match skip cs with
      | '\x7d' :: cs => some (.obj [], cs)
      | cs => readMembers n [] cs
    | 't' :: cs => word "true" (.bool true) ('t' :: cs)
    | 'f' :: cs => word "false" (.bool false) ('f' :: cs)
    | 'n' :: cs => word "null" .null ('n' :: cs)
    | 'N' :: cs => word "NaN" (.float (0.0 / 0.0)) ('N' :: cs)
    | 'I' :: cs => word "Infinity" (.float (1.0 / 0.0)) ('I' :: cs)
    | '-' :: 'I' :: cs => word "-Infinity" (.float (-1.0 / 0.0)) ('-' :: 'I' :: cs)
    | cs => readNumber cs

/-- Reads the items of a list up to its closing bracket. -/
def readItems : Nat → List Json → List Char → Option (Json × Rest)
  | 0, _, _ => none
  | n + 1, done, cs =>
    match readValue n cs with
    | none => none
    | some (v, cs) => match skip cs with
      | ',' :: cs => readItems n (v :: done) cs
      | ']' :: cs => some (.arr (v :: done).reverse, cs)
      | _ => none

/-- Reads the members of an object up to its closing brace. -/
def readMembers : Nat → List (String × Json) → List Char → Option (Json × Rest)
  | 0, _, _ => none
  | n + 1, done, cs =>
    match skip cs with
    | '"' :: cs => match readString [] cs with
      | none => none
      | some (key, cs) => match skip cs with
        | ':' :: cs => match readValue n cs with
          | none => none
          | some (v, cs) => match skip cs with
            | ',' :: cs => readMembers n (put done key v) cs
            | '\x7d' :: cs => some (.obj (put done key v), cs)
            | _ => none
        | _ => none
    | _ => none

end

/-- The value a text holds. -/
def parse? (text : String) : Option Json :=
  let cs := text.toList
  match readValue (cs.length + 1) cs with
  | some (v, rest) => if (skip rest).isEmpty then some v else none
  | none => none

end Coupling.Json
