import Coupling.Proofs.Coding

/-!
# How many steps are taken between two tokens

A parse takes steps that read nothing: it chooses, calls rules, and goes past those that can be
empty. How many of them come one inside or after the other until a token is read can be bounded on
the grammar (`Element.height`), given bounds for the rules. For Java the bounds are a table, and
what is left of a right-hand side after a token was read never takes more than `javaBound` steps to
the next one (`javaGauge_fits`).
-/

namespace Coupling.Java

/-- What is known of the rules of a grammar: how many steps are taken in each before a token is
read, and which of them can be empty. -/
structure Gauge where
  height : RuleName → Nat
  nullable : RuleName → Bool

section Heights

variable (g : Gauge)

mutual

/-- Whether an element can be gone through without reading a token of the text. -/
def Element.nullable : Element → Bool
  | .token k => (KindSet.single k).contains .eof
  | .oneOf ks => (KindSet.ofList ks).contains .eof
  | .call r _ => g.nullable r
  | .labelled _ e => e.nullable
  | .choice alts => altsNullable alts
  | .optional _ => true
  | .many _ => true
  | .some alts => altsNullable alts

def seqNullable : List Element → Bool
  | [] => true
  | e :: es => e.nullable && seqNullable es

def altsNullable : List (List Element) → Bool
  | [] => false
  | a :: as => seqNullable a || altsNullable as

end

/-- The steps that are taken when a token is to be read; the end of the text is read without getting
on. -/
def KindSet.height (kinds : KindSet) (m : Nat) : Nat := if kinds.contains .eof then m + 1 else 1

theorem KindSet.height_pos (kinds : KindSet) (m : Nat) : 0 < kinds.height m := by
  unfold height
  split <;> omega

mutual

/-- How many steps are taken from the start of an element before a token is read, given how many
from what follows it. A turn of a loop begins with its choice. -/
def Element.height : Element → Nat → Nat
  | .token k, m => (KindSet.single k).height m
  | .oneOf ks, m => (KindSet.ofList ks).height m
  | .call r _, m => max (g.height r) (if g.nullable r then m else 0) + 1
  | .labelled _ e, m => e.height m
  | .choice alts, m => altsHeight alts m + 1
  | .optional alts, m => max (altsHeight alts m) m + 1
  | .many alts, m => max (altsHeight alts 0 + 1) m + 1
  | .some alts, _ => altsHeight alts 0 + 2

def seqHeight : List Element → Nat → Nat
  | [], m => m
  | e :: es, m => max (e.height (seqHeight es m)) (if e.nullable g then seqHeight es m else 0)

def altsHeight : List (List Element) → Nat → Nat
  | [], _ => 0
  | a :: as, m => max (seqHeight a m) (altsHeight as m)

end

mutual

/-- Whether every turn of a loop in an element reads a token, and whatever is left of the element
and of what follows it after one was read takes at most a number of steps to the next. -/
def Element.low (bound : Nat) : Element → Nat → Bool
  | .token _, m => decide (m ≤ bound)
  | .oneOf _, m => decide (m ≤ bound)
  | .call _ _, m => decide (m ≤ bound)
  | .labelled _ e, m => e.low bound m
  | .choice alts, m => altsLow bound alts m
  | .optional alts, m => altsLow bound alts m
  | .many alts, m =>
    !altsNullable g alts && altsLow bound alts (max (altsHeight g alts 0 + 1) m + 1)
  | .some alts, m =>
    !altsNullable g alts && altsLow bound alts (max (altsHeight g alts 0 + 1) m + 1)

def seqLow (bound : Nat) : List Element → Nat → Bool
  | [], _ => true
  | e :: es, m => e.low bound (seqHeight g es m) && seqLow bound es m

def altsLow (bound : Nat) : List (List Element) → Nat → Bool
  | [], _ => true
  | a :: as, m => seqLow bound a m && altsLow bound as m

end

namespace Production

def nullable : Production → Bool
  | .plain alts => altsNullable g alts
  | .climbing _ _ => false

/-- The steps from the loop of a climbing rule. -/
def loopHeight (operators : List Operator) : Nat :=
  altsHeight g (operators.map Operator.parts) 0 + 1

def height : Production → Nat
  | .plain alts => altsHeight g alts 0 + 1
  | .climbing primaries _ => altsHeight g (primaries.map Primary.parts) 0 + 2

/-- Whether every primary, operator and turn of a loop reads a token, and whatever is left after one
was read takes at most a number of steps to the next. -/
def low (bound : Nat) : Production → Bool
  | .plain alts => altsLow g bound alts 0
  | .climbing primaries operators =>
    !altsNullable g (primaries.map Primary.parts) &&
      altsLow g bound (primaries.map Primary.parts) (loopHeight g operators) &&
      (!altsNullable g (operators.map Operator.parts) &&
        altsLow g bound (operators.map Operator.parts) (loopHeight g operators))

end Production

/-- Whether a gauge is right about a rule, and no more than a number of steps are taken anywhere in
it between two tokens. -/
def Gauge.fits (bound : Nat) (r : RuleName) (p : Production) : Bool :=
  p.low g bound && decide (p.height g ≤ g.height r) && (!p.nullable g || g.nullable r)

end Heights

/-! ## The rules of Java -/

/-- How many steps are taken in each rule of Java before a token is read, in the order of the
rules. -/
def javaHeights : List Nat :=
  [21, 13, 2, 15, 13, 11, 11, 2, 2, 13, 15, 2, 15, 13, 2, 2, 2, 2, 22, 19, 17, 4, 15, 4, 4, 4, 17,
    15, 26, 23, 15, 4, 21, 11, 15, 18, 8, 6, 4, 22, 2, 6, 15, 6, 2, 15, 18, 16, 16, 17, 15, 4, 4, 2,
    2, 6, 9, 6, 4, 22, 2, 2, 2, 18, 15, 12, 4, 10, 2, 3, 2, 2, 2, 2, 2, 17, 15, 2, 2, 24, 17, 2, 2,
    15, 22, 2, 6, 2, 2, 17, 15, 6, 2, 27, 24, 17, 2, 22, 5, 20, 16, 6, 4, 22, 17, 2, 2, 17, 28, 14,
    7, 4, 4, 4, 4, 4, 4, 4, 2, 15, 13, 2, 2, 4, 4, 2]

/-- A compilation unit and the outcome of a switch rule can be empty. -/
def javaGauge : Gauge :=
  ⟨fun r => (javaHeights[r.index]?).getD 0, fun r => r == .compilationUnit || r ==
    .switchRuleOutcome⟩

/-- The most steps that are taken anywhere between two tokens. -/
def javaBound : Nat := 29

theorem javaGauge_fits (r : RuleName) : javaGauge.fits javaBound r (production r) = true := by
  have hall : (RuleName.all.all fun r => javaGauge.fits javaBound r (production r)) = true := by
    decide +kernel
  exact List.all_eq_true.mp hall r (List.mem_of_getElem? (RuleName.getElem?_all r))

end Coupling.Java
