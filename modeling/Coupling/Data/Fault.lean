import Coupling.Text.Quoted

/-!
# Faults of loose data

Records come from files and from other programs, and their shape is only found out when they are
used. A fault says what a value was asked for that it does not have.
-/

namespace Coupling.Data

/-- What goes wrong with data of unknown shape. -/
inductive Fault where
  /-- A record has no such member. -/
  | noMember (key : String)
  /-- A list has no such place under a number used as a key. -/
  | noPlace (n : Nat)
  /-- A kind of value has no name in a format. -/
  | noKind (kind : String)
  /-- A value of another kind was needed. -/
  | wrongKind
  /-- A value does not have the operation. -/
  | noOperation
  /-- There is no such item. -/
  | noItem
  /-- A number is out of range. -/
  | outOfRange
  /-- A text is not a whole number. -/
  | notWhole (text : String)
  /-- A value that is no number has no whole part. -/
  | notANumber
  /-- Nothing cannot be a node. -/
  | noNode
  /-- There is no such format. -/
  | unknownFormat (name : String)
  /-- A list of three was needed and has fewer items. -/
  | tooFew (n : Nat)
  /-- A list of three was needed and has more items. -/
  | tooMany
  /-- A format cannot hold a value. -/
  | unwritable (why : String)
  /-- A pattern is not well formed. -/
  | badPattern
  /-- A quote is not closed. -/
  | unclosed (quote : String) (line column : Nat)
  /-- A request was answered with another status than success. -/
  | refused (status text : String)
deriving DecidableEq, Repr, Inhabited

namespace Fault

/-- The words a fault is reported with. -/
def message : Fault → String
  | .noMember k => Text.quoted k
  | .noPlace n => toString n
  | .noKind k => k
  | .wrongKind => "wrong kind of value"
  | .noOperation => "no such operation"
  | .noItem => "no such item"
  | .outOfRange => "out of range"
  | .notWhole s => "invalid literal for int() with base 10: " ++
    String.ofList ((Text.quoted s).toList.take 200)
  | .notANumber => "cannot convert float NaN to integer"
  | .noNode => "None cannot be a node"
  | .unknownFormat f => "不支持的格式: " ++ f
  | .tooFew n => "not enough values to unpack (expected 3, got " ++ toString n ++ ")"
  | .tooMany => "too many values to unpack (expected 3)"
  | .unwritable w => w
  | .badPattern => "bad pattern"
  | .unclosed q l c => "Missing " ++ q ++ " from " ++ toString l ++ ":" ++ toString c
  | .refused s t => "Error: " ++ s ++ ", " ++ t

end Fault

/-- A result that may be a fault. -/
abbrev Result := Except Fault

end Coupling.Data
