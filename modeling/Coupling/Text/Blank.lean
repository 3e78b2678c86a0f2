/-!
# Blanks

The blanks of a text, and the words between them.
-/

namespace Coupling.Text

/-- The code points of all blanks: the separators of space, line and paragraph and the control
characters that act as one. -/
def blanks : List Nat := [
  0x9, 0xa, 0xb, 0xc, 0xd, 0x1c, 0x1d, 0x1e, 0x1f, 0x20, 0x85, 0xa0, 0x1680, 0x2000, 0x2001,
  0x2002, 0x2003,
  0x2004, 0x2005, 0x2006, 0x2007, 0x2008, 0x2009, 0x200a, 0x2028, 0x2029, 0x202f, 0x205f, 0x3000]

def isBlank (c : Char) : Bool := blanks.contains c.toNat

/-- The text without the blanks at either end. -/
def strip (s : String) : String :=
  String.ofList ((s.toList.dropWhile isBlank).reverse.dropWhile isBlank).reverse

/-- Splits characters at every one of a kind. -/
def splitWhere (p : Char → Bool) : List Char → List (List Char)
  | [] => [[]]
  | c :: cs =>
    match splitWhere p cs with
    | [] => [[c]]
    | w :: ws => if p c then [] :: w :: ws else (c :: w) :: ws

/-- The words of a text, none of them empty. -/
def words (s : String) : List String :=
  ((splitWhere isBlank s.toList).filter (!·.isEmpty)).map String.ofList

/-- What stands before the first of a character. -/
def before (s : String) (c : Char) : String := String.ofList (s.toList.takeWhile (· != c))

/-- What stands after the last of a character, or the whole text. -/
def afterLast (s : String) (c : Char) : String :=
  String.ofList (s.toList.reverse.takeWhile (· != c)).reverse

end Coupling.Text
