import Coupling.Table
import Coupling.Text.Blank

/-!
# Type names

The text of a type is cut at brackets, dots, commas and angle brackets. What stands between them are
simple names, which a table maps to full names. Two readings of a type come from it: the text with
every name replaced, and the list of the names it is made of.
-/

namespace Coupling.Project

/-- Whether a character divides the names of a type. -/
def isDelimiter (c : Char) : Bool :=
  c == '[' || c == ']' || c == '.' || c == ',' || c == '<' || c == '>'

/-- A type text as names with delimiters between them; a name may be empty. -/
structure TypeText where
  first : List Char
  rest : List (Char × List Char)
deriving DecidableEq, Repr, Inhabited

namespace TypeText

/-- Puts a character before a type text. -/
def cons (c : Char) (t : TypeText) : TypeText :=
  if isDelimiter c then ⟨[], (c, t.first) :: t.rest⟩ else ⟨c :: t.first, t.rest⟩

/-- Cuts a text at every delimiter. -/
def ofChars : List Char → TypeText
  | [] => ⟨[], []⟩
  | c :: cs => cons c (ofChars cs)

def ofText (s : String) : TypeText := ofChars s.toList

/-- The names of a type, empty ones among them. -/
def names (t : TypeText) : List String := (t.first :: t.rest.map (·.2)).map String.ofList

/-- Names and delimiters in order. -/
def pieces (t : TypeText) : List String :=
  String.ofList t.first :: t.rest.flatMap fun (c, w) => [c.toString, String.ofList w]

end TypeText

/-- The full name of a simple name, which stands for itself if the table does not know it. -/
def expand (full : Table String) (name : String) : String := full.getD name name

/-- A type text in which every piece is replaced by what it stands for. -/
def resolve (full : Table String) (type : String) : String :=
  String.join ((TypeText.ofText type).pieces.map (expand full))

/-- The full names a type is made of. -/
def mentions (full : Table String) (type : String) : List String :=
  ((TypeText.ofText type).names.map (expand full)).filter fun n => !n.isEmpty

/-- The name of a type without its arguments and dimensions. -/
def bareName (type : String) : String := Text.strip (Text.before (Text.before type '<') '[')

/-- The full name of the bare name of a type. -/
def resolveBare (full : Table String) (type : String) : String := expand full (bareName type)

end Coupling.Project
