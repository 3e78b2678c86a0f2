import Coupling.Java.Kind
import Coupling.Java.RuleName

/-!
# Grammar elements

The right-hand sides of grammar rules as data: tokens, calls of rules, alternatives, and their
optional and repeated forms. A rule is `plain`, a choice of sequences, or `climbing`: one of its
primaries, followed by any number of operators, each of which takes all that was read so far as its
left operand. A climbing rule is called with a level and takes only operators of at least that
level.
-/

namespace Coupling.Java

/-- A part of a right-hand side. -/
inductive Element where
  | token (k : Kind)
  | oneOf (ks : List Kind)
  | call (r : RuleName) (level : Nat)
  | labelled (l : Label) (e : Element)
  | choice (alts : List (List Element))
  | optional (alts : List (List Element))
  | many (alts : List (List Element))
  | some (alts : List (List Element))
deriving Repr, Inhabited

/-- What a climbing rule can begin with. -/
structure Primary where
  form : Form
  parts : List Element
deriving Repr, Inhabited

/-- What can follow an operand of a climbing rule. -/
structure Operator where
  form : Form
  level : Nat
  parts : List Element
deriving Repr, Inhabited

/-- The right-hand side of a rule. -/
inductive Production where
  | plain (alts : List (List Element))
  | climbing (primaries : List Primary) (operators : List Operator)
deriving Repr, Inhabited

namespace Element

def t (k : Kind) : Element := .token k
def r (n : RuleName) : Element := .call n 0
def climb (level : Nat) (n : RuleName) : Element := .call n level
def opt (parts : List Element) : Element := .optional [parts]
def star (parts : List Element) : Element := .many [parts]
def plus (parts : List Element) : Element := .some [parts]

end Element

end Coupling.Java
