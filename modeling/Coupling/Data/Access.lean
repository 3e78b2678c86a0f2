import Coupling.Data.Number

/-!
# Access to data

What can be asked of a value of unknown shape: a member of a record, the items it runs through,
whether it equals another value, whether it counts as nothing.
-/

namespace Coupling.Data

/-- The member of a record, which must be there. -/
def member (j : Json) (key : String) : Result Json :=
  match j with
  | .obj ms =>
    match ms.find? (·.1 == key) with
    | some m => .ok m.2
    | none => .error (.noMember key)
  | _ => .error .wrongKind

/-- The member of a record, or nothing. -/
def memberOrNull (j : Json) (key : String) : Result Json :=
  match j with
  | .obj _ => .ok (j.getD key .null)
  | _ => .error .noOperation

/-- What a value runs through: a list its items, a record its keys, a text its characters. -/
def items : Json → Result (List Json)
  | .arr xs => .ok xs
  | .obj ms => .ok (ms.map fun m => .str m.1)
  | .str s => .ok (s.toList.map fun c => .str c.toString)
  | _ => .error .wrongKind

/-- The text a value is. -/
def text : Json → Result String
  | .str s => .ok s
  | _ => .error .noOperation

/-- Whether a value counts as nothing: an empty one, zero, false or null. -/
def isNothing : Json → Bool
  | .null => true
  | .bool b => !b
  | .int n => n == 0
  | .float x => x == 0
  | .str s => s.isEmpty
  | .arr xs => xs.isEmpty
  | .obj ms => ms.isEmpty

/-- Whether a value is a number equal to another. -/
def sameNumber (n : Number) (j : Json) : Bool :=
  match number? j with
  | some m => n.same m
  | none => false

mutual

/-- Whether two values are equal: numbers by value, lists item by item, records member by member in
any order. -/
def same : Json → Json → Bool
  | .null, .null => true
  | .str a, .str b => a == b
  | .arr xs, .arr ys => sameItems xs ys
  | .obj ms, .obj ns => ms.length == ns.length && sameMembers ms ns
  | .bool a, j => sameNumber (.whole (if a then 1 else 0)) j
  | .int a, j => sameNumber (.whole a) j
  | .float a, j => sameNumber (.fraction a) j
  | _, _ => false

def sameItems : List Json → List Json → Bool
  | [], [] => true
  | x :: xs, y :: ys => same x y && sameItems xs ys
  | _, _ => false

def sameMembers : List (String × Json) → List (String × Json) → Bool
  | [], _ => true
  | (k, v) :: ms, ns =>
    (match ns.find? (·.1 == k) with
      | some n => same v n.2
      | none => false) && sameMembers ms ns

end

/-- Whether a value can be a key: lists and records cannot. -/
def isKey : Json → Bool
  | .arr _ => false
  | .obj _ => false
  | _ => true

/-- A value that must be able to be a key. -/
def key (j : Json) : Result Json := if isKey j then .ok j else .error .wrongKind

end Coupling.Data
