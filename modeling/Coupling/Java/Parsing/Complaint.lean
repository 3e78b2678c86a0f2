import Coupling.Java.Token

/-!
# Complaints

What a lexer or parser has to say about a text, with the line and column it says it at.
-/

namespace Coupling.Java

/-- What is wrong with a text. -/
inductive Fault where
  | unreadable (text : String)
  | mismatched (found : String) (expected : KindSet)
  | extraneous (found : String) (expected : KindSet)
  | missing (expected : KindSet) (found : String)
  | noViable (text : String)
  | tooLow (rule : String)
deriving DecidableEq, Repr, Inhabited

/-- A fault and where it is. -/
structure Complaint where
  line : Nat
  column : Nat
  fault : Fault
deriving DecidableEq, Repr, Inhabited

/-- Shows the line breaks and tabs of a text. -/
def visible (s : String) : String :=
  String.join (s.toList.map fun c =>
    if c = '\n' then "\\n" else if c = '\r' then "\\r" else if c = '\t' then "\\t" else c.toString)

/-- A text in quotes, on one line. -/
def inQuotes (s : String) : String := "'" ++ visible s ++ "'"

def Fault.message : Fault → String
  | .unreadable s => "token recognition error at: " ++ inQuotes s
  | .mismatched s ks => "mismatched input " ++ inQuotes s ++ " expecting " ++ ks.display
  | .extraneous s ks => "extraneous input " ++ inQuotes s ++ " expecting " ++ ks.display
  | .missing ks s => "missing " ++ ks.display ++ " at " ++ inQuotes s
  | .noViable s => "no viable alternative at input " ++ inQuotes s
  | .tooLow r => "rule " ++ r ++ " failed predicate"

namespace Complaint

def position (c : Complaint) : String := toString c.line ++ ":" ++ toString c.column

/-- The complaint on one line. -/
def render (c : Complaint) : String := c.position ++ " " ++ c.fault.message

def atToken (t : Token) (f : Fault) : Complaint := ⟨t.start.line, t.start.column, f⟩

/-- What the lexer says about a piece. -/
def ofPiece? : Piece → Option Complaint
  | .dropped s p => some ⟨p.line, p.column, .unreadable s⟩
  | .token _ => none

end Complaint

end Coupling.Java
