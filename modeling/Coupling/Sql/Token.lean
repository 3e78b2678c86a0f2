import Coupling.Data.Fault
import Coupling.Text.Blank

/-!
# Tokens of database statements

A statement is made of words, names in double quotes, texts in single quotes, numbers and signs.
Comments and blanks stand between them. A backtick is a character of a word like any other.
-/

namespace Coupling.Sql

open Data (Result)

/-- A token. -/
inductive Token where
  | word (text : String)
  /-- A name with its quotes. -/
  | name (text : String)
  /-- A text or a number. -/
  | literal
  | sign (text : String)
deriving DecidableEq, Repr, Inhabited

/-- The signs of more than one character, longer ones first. -/
def longSigns : List String :=
  ["<=>", "->>", "#>>", "||", "::", "<=", ">=", "<>", "!=", ":=", "->", "=>", "#>"]

/-- The characters that are signs and end a word. -/
def signs : List Char :=
  ['(', ')', '[', ']', '\x7b', '\x7d', '&', '^', ':', ',', '-', '.', '=', '>', '<', '%', '/', '\\',
    '+', ';', '*', '~', '|', '?', '@']

def endsWord (c : Char) : Bool := Text.isBlank c || signs.contains c || c == '\x27' || c == '\x22'

/-- What follows a comment up to its end mark; an open comment runs to the end. -/
def afterComment : List Char → List Char
  | '*' :: '/' :: rest => rest
  | _ :: rest => afterComment rest
  | [] => []

/-- What follows a text in single quotes, in which two quotes stand for one; `none` if it is not
closed. -/
def afterText : List Char → Option (List Char)
  | '\x27' :: '\x27' :: rest => afterText rest
  | '\x27' :: rest => some rest
  | _ :: rest => afterText rest
  | [] => none

/-- The rest of a number after its first digit. -/
def afterNumber : List Char → List Char
  | c :: rest =>
    if c.isDigit || c == '.' then afterNumber rest
    else if c == 'e' || c == 'E' then
      match rest with
      | d :: more => if d.isDigit then afterNumber more else c :: rest
      | [] => [c]
    else c :: rest
  | [] => []

/-- Where a token stands: the number of its line and of characters before it. -/
structure Place where
  line : Nat
  offset : Nat

/-- The first token of some characters, if they do not start with a blank or a comment, and what
follows it. -/
def next (p : Place) (c : Char) (rest : List Char) : Result (Option Token × List Char) :=
  match longSigns.find? fun s => s.toList.isPrefixOf (c :: rest) with
  | some s => .ok (some (.sign s), rest.drop (s.length - 1))
  | none =>
    match c, rest with
    | '-', '-' :: more => .ok (none, more.dropWhile fun c => c != '\n' && c != '\r')
    | '/', '*' :: more => .ok (none, afterComment more)
    | '\x27', rest =>
      match afterText rest with
      | some more => .ok (some .literal, more)
      | none => .error (.unclosed "'" p.line p.offset)
    | '\x22', rest =>
      match rest.dropWhile (· != '\x22') with
      | _ :: more =>
        .ok (some (.name (String.ofList ('\x22' :: rest.takeWhile (· != '\x22') ++ ['\x22']))),
          more)
      | [] => .error (.unclosed "\"" p.line p.offset)
    | c, rest =>
      if c.isDigit then .ok (some .literal, afterNumber rest)
      else if signs.contains c then .ok (some (.sign c.toString), rest)
      else .ok (some (.word (String.ofList (c :: rest.takeWhile (!endsWord ·)))),
        rest.dropWhile (!endsWord ·))

/-- The tokens of characters, at most so many. -/
def scan : Nat → Place → List Char → Result (List Token)
  | 0, _, _ => return []
  | _ + 1, _, [] => return []
  | fuel + 1, p, c :: rest =>
    if c == ' ' || c == '\t' then scan fuel ⟨p.line, p.offset + 1⟩ rest
    else if c == '\n' || c == '\r' then scan fuel ⟨p.line + 1, p.offset + 1⟩ rest
    else do
      let (t, more) ← next p c rest
      let ts ← scan fuel ⟨p.line, p.offset + 1 + rest.length - more.length⟩ more
      return (match t with
        | some t => t :: ts
        | none => ts)

/-- The tokens of a text. -/
def tokens (s : String) : Result (List Token) := scan (s.length + 1) ⟨1, 0⟩ s.toList

end Coupling.Sql
