import Coupling.Data.Fault
import Coupling.Decimal.Shortest
import Coupling.Json.Value
import Coupling.Text.Blank
import Coupling.Text.Digit

/-!
# Numbers in data

Whole numbers have no bound and fractions are doubles; a truth value counts as zero or one. An
operation on two whole numbers is exact, and one with a fraction is done in doubles.
-/

namespace Coupling.Data

/-- A number. -/
inductive Number where
  | whole (n : Int)
  | fraction (x : Float)
deriving Repr, Inhabited

/-- The number a value is. -/
def number? : Json → Option Number
  | .int n => some (.whole n)
  | .bool b => some (.whole (if b then 1 else 0))
  | .float x => some (.fraction x)
  | _ => none

def toNumber (j : Json) : Result Number :=
  match number? j with
  | some n => .ok n
  | none => .error .wrongKind

/-- The least whole number that is rounded up past the largest double. -/
def tooLarge : Nat := Nat.pow 2 1024 - Nat.pow 2 970

/-- The double nearest to a whole number; there is none if it is too large. -/
def nearest (n : Int) : Result Float :=
  if tooLarge ≤ n.natAbs then .error .outOfRange
  else
    let x := Float.ofScientific n.natAbs false 0
    .ok (if n < 0 then -x else x)

/-- The double nearest to a number. -/
def Number.toFloat : Number → Result Float
  | .whole n => nearest n
  | .fraction x => .ok x

/-- A double as `m · 2 ^ q`, with its sign; for finite doubles. -/
def signedDyadic (x : Float) : Bool × Decimal.Dyadic :=
  let bits := x.toBits.toNat
  (bits / Decimal.Dyadic.signBit == 1, .ofBits (bits % Decimal.Dyadic.signBit))

/-- The whole part of a finite double. -/
def truncate (x : Float) : Int :=
  let (negative, d) := signedDyadic x
  let v := Decimal.Dyadic.scaled d.m d.q
  let n : Int := (v.1 / v.2 : Nat)
  if negative then -n else n

/-- Whether a finite double is a whole number. -/
def isWhole (x : Float) (n : Int) : Bool :=
  let (negative, d) := signedDyadic x
  let v := Decimal.Dyadic.scaled d.m d.q
  v.1 % v.2 == 0 && (let k : Int := (v.1 / v.2 : Nat); (if negative then -k else k) == n)

/-- Whether two numbers are equal, exactly. -/
def Number.same : Number → Number → Bool
  | .whole a, .whole b => a == b
  | .fraction a, .fraction b => a == b
  | .whole a, .fraction b => !b.isNaN && !b.isInf && isWhole b a
  | .fraction a, .whole b => !a.isNaN && !a.isInf && isWhole a b

/-- An operation on two numbers: on whole numbers, or on doubles. -/
def Number.combine (whole : Int → Int → Int) (fraction : Float → Float → Float) (a b : Number) :
    Result Json :=
  match a, b with
  | .whole m, .whole n => .ok (.int (whole m n))
  | a, b => do return .float (fraction (← a.toFloat) (← b.toFloat))

/-- The sum of two values that are numbers. -/
def add (a b : Json) :
    Result Json := do Number.combine (· + ·) (· + ·) (← toNumber a) (← toNumber b)

/-- The difference of two values that are numbers. -/
def subtract (a b : Json) :
    Result Json := do Number.combine (· - ·) (· - ·) (← toNumber a) (← toNumber b)

/-- Whether a value that is a number is positive. -/
def isPositive (j : Json) : Result Bool := do
  match ← toNumber j with
  | .whole n => return decide (0 < n)
  | .fraction x => return x > 0

/-- The quotient of two whole numbers, rounded once; there is none if it is too large. It is taken
with more digits than a double has, and the last of them tells whether anything is left over. -/
def quotient (n : Int) (divisor : Nat) : Result Float := do
  let shift := if n.natAbs < Nat.pow 2 64 then 64 else 0
  let scaled := n.natAbs * Nat.pow 2 shift
  let x ← nearest (scaled / divisor ||| (if scaled % divisor = 0 then 0 else 1) : Nat)
  let y := x / Float.ofScientific (Nat.pow 2 shift) false 0
  return if n < 0 then -y else y

/-- A number divided by a small whole one. -/
def Number.dividedBy (divisor : Nat) : Number → Result Float
  | .whole n => quotient n divisor
  | .fraction x => .ok (x / Float.ofScientific divisor false 0)

/-- A number divided by a small one, and then some more. -/
def divideAndAdd (j : Json) (divisor : Nat) (summand : Float) : Result Float := do
  return (← (← toNumber j).dividedBy divisor) + summand

/-- The digits of a whole number, single underscores between them. -/
def readDigits (acc : Nat) : List Char → Option Nat
  | [] => some acc
  | c :: cs =>
    match Text.digitValue? c with
    | some d => readDigits (acc * 10 + d) cs
    | none =>
      match c, cs with
      | '_', e :: rest =>
        match Text.digitValue? e with
        | some d => readDigits (acc * 10 + d) rest
        | none => none
      | _, _ => none

/-- A whole number without a sign. -/
def readNatural : List Char → Option Nat
  | [] => none
  | c :: cs => (Text.digitValue? c).bind fun d => readDigits d cs

/-- The blanks around a number: all but the four separators among the control characters. -/
def isAround (c : Char) : Bool := Text.isBlank c && !(0x1c ≤ c.toNat && c.toNat ≤ 0x1f)

/-- A whole number in decimal digits of any script, with a sign and blanks around it. -/
def readWhole (s : String) : Result Int :=
  let n := match ((s.toList.dropWhile isAround).reverse.dropWhile isAround).reverse with
    | '+' :: cs => (readNatural cs).map Int.ofNat
    | '-' :: cs => (readNatural cs).map fun n => -(n : Int)
    | cs => (readNatural cs).map Int.ofNat
  match n with
  | some n => .ok n
  | none => .error (.notWhole s)

/-- The whole number of a value: that of a text, or the whole part of a number. -/
def toWhole : Json → Result Int
  | .str s => readWhole s
  | j => do
    match ← toNumber j with
    | .whole n => return n
    | .fraction x =>
      if x.isNaN then throw .notANumber
      else if x.isInf then throw .outOfRange
      else return truncate x

end Coupling.Data
