/-!
# JSON values

A value as it is read from or written to a file. Objects keep their members in order of first
appearance; writing a member again replaces its value in place. Whole numbers have no bound and are
kept apart from fractions.
-/

namespace Coupling

/-- A JSON value. -/
inductive Json where
  | null
  | bool (b : Bool)
  | int (n : Int)
  | float (x : Float)
  | str (s : String)
  | arr (items : List Json)
  | obj (members : List (String × Json))
deriving Inhabited, Repr

namespace Json

/-- Puts a member into an object: in place if the key is there, at the end if it is new. -/
def put (members : List (String × Json)) (key : String) (value : Json) : List (String × Json) :=
  if members.any (·.1 == key) then members.map fun m => if m.1 == key then (key, value) else m
  else members ++ [(key, value)]

/-- The member of an object under a key. -/
def get? (j : Json) (key : String) : Option Json :=
  match j with
  | .obj members => (members.find? (·.1 == key)).map (·.2)
  | _ => none

/-- The member under a key, or null. -/
def getD (j : Json) (key : String) (default : Json) : Json := (j.get? key).getD default

def str? : Json → Option String
  | .str s => some s
  | _ => none

def int? : Json → Option Int
  | .int n => some n
  | _ => none

def arr? : Json → Option (List Json)
  | .arr xs => some xs
  | _ => none

def nat (n : Nat) : Json := .int n

def strings (xs : List String) : Json := .arr (xs.map .str)

end Json

end Coupling
