/-!
# Shortest decimals

A positive finite double is `m · 2 ^ q`. The reals that round to it form an interval around it, with
its ends if and only if `m` is even. `shortest` finds the decimal with the fewest digits in that
interval and, of two with equally many, the one nearer to the value. All tests are comparisons of
naturals. `render` then writes the digits: positionally when the first digit stands between the
fourth place after the point and the sixteenth before it, with an exponent otherwise.
-/

namespace Coupling.Decimal

/-- The value `m · 2 ^ q` of a positive double. -/
structure Dyadic where
  m : Nat
  q : Int
deriving DecidableEq, Repr

/-- A decimal `digits · 10 ^ exponent`. -/
structure Numeral where
  digits : Nat
  exponent : Int
deriving DecidableEq, Repr

namespace Dyadic

/-- The place of the leading bit of a significand. -/
def leadingBit : Nat := Nat.pow 2 52

/-- The place of the sign bit. -/
def signBit : Nat := Nat.pow 2 63

/-- The value of the bits of a finite double, its sign apart. -/
def ofBits (bits : Nat) : Dyadic :=
  let e : Nat := bits / leadingBit % 2048
  let f : Nat := bits % leadingBit
  if e = 0 then ⟨f, -1074⟩ else ⟨f + leadingBit, (e : Int) - 1075⟩

/-- Twice the distance to the neighbour below, in units of `2 ^ (q - 1)`: the spacing halves just
above a power of two. -/
def lowGap (x : Dyadic) : Nat := if x.m = leadingBit ∧ x.q ≠ -1074 then 1 else 2

/-- `a · 2 ^ q` as a quotient of naturals. -/
def scaled (a : Nat) (q : Int) : Nat × Nat :=
  if 0 ≤ q then (a * Nat.pow 2 q.toNat, 1) else (a, Nat.pow 2 (-q).toNat)

/-- `d · 10 ^ e` as a quotient of naturals. -/
def decimalParts (d : Nat) (e : Int) : Nat × Nat :=
  if 0 ≤ e then (d * Nat.pow 10 e.toNat, 1) else (d, Nat.pow 10 (-e).toNat)

def le (a b : Nat × Nat) : Bool := a.1 * b.2 ≤ b.1 * a.2
def lt (a b : Nat × Nat) : Bool := a.1 * b.2 < b.1 * a.2

/-- Whether a decimal rounds to `x`. -/
def readsBack (x : Dyadic) (c : Numeral) : Bool :=
  let v := decimalParts c.digits c.exponent
  let low := scaled (4 * x.m - x.lowGap) (x.q - 2)
  let high := scaled (4 * x.m + 2) (x.q - 2)
  if x.m % 2 = 0 then le low v && le v high else lt low v && lt v high

/-- The largest multiple of `10 ^ e` not above `x`, as a count of them. -/
def floorAt (x : Dyadic) (e : Int) : Nat :=
  let v := scaled x.m x.q
  let u := decimalParts 1 e
  v.1 * u.2 / (v.2 * u.1)

/-- Whether the lower of two neighbouring multiples of `10 ^ e` is the nearer one, or as near and
even. -/
def lowerNearer (x : Dyadic) (e : Int) (d : Nat) : Bool :=
  let v := scaled x.m x.q
  let mid := decimalParts (2 * d + 1) e
  let twice := (2 * v.1, v.2)
  lt twice mid || (le twice mid && le mid twice && d % 2 = 0)

/-- The first exponent, counting down from `e`, at which `x` has a digit. -/
def leadingFrom (x : Dyadic) : Nat → Int → Int
  | 0, e => e
  | n + 1, e => if 0 < x.floorAt e then e else x.leadingFrom n (e - 1)

/-- The decimal exponent of the first digit: between `308` and `-324`. -/
def leading (x : Dyadic) : Int := x.leadingFrom 633 308

/-- The first decimal, on ever finer grids from the unit `10 ^ e`, that reads back as `x`. -/
def shortestFrom (x : Dyadic) : Nat → Int → Numeral
  | 0, e => ⟨x.floorAt e, e⟩
  | n + 1, e =>
    let d := x.floorAt e
    let low : Numeral := ⟨d, e⟩
    let high : Numeral := ⟨d + 1, e⟩
    match readsBack x low, readsBack x high with
    | true, true => if lowerNearer x e d then low else high
    | true, false => low
    | false, true => high
    | false, false => x.shortestFrom n (e - 1)

/-- The shortest decimal that reads back as `x`. Seventeen digits always suffice. -/
def shortest (x : Dyadic) : Numeral := x.shortestFrom 17 x.leading

end Dyadic

/-- Drops zeros at the end. -/
def Numeral.strip (c : Numeral) : Numeral :=
  go c.digits c
where
  go : Nat → Numeral → Numeral
    | 0, c => c
    | n + 1, c => if c.digits ≠ 0 ∧ c.digits % 10 = 0 then go n ⟨c.digits / 10, c.exponent + 1⟩
      else c

/-- Writes a decimal as reports do: at least one digit on either side of the point, or one digit
before the point and an exponent of at least two digits. -/
def Numeral.render (c : Numeral) : String :=
  let c := c.strip
  let ds := Nat.toDigits 10 c.digits
  let point := (ds.length : Int) + c.exponent
  let zeros (n : Nat) := List.replicate n '0'
  if -4 < point ∧ point ≤ 16 then
    if point ≤ 0 then String.ofList (['0', '.'] ++ zeros (-point).toNat ++ ds)
    else
      let p := point.toNat
      if ds.length ≤ p then String.ofList (ds ++ zeros (p - ds.length) ++ ['.', '0'])
      else String.ofList (ds.take p ++ ['.'] ++ ds.drop p)
  else
    let e := point - 1
    let body := match ds with
      | [d] => [d]
      | d :: rest => d :: '.' :: rest
      | [] => []
    let es := Nat.toDigits 10 e.natAbs
    let es := if es.length < 2 then '0' :: es else es
    String.ofList (body ++ ['e', if e < 0 then '-' else '+'] ++ es)

/-- The text of a double. -/
def renderFloat (x : Float) : String :=
  let bits := x.toBits.toNat
  let sign := if bits / Dyadic.signBit = 1 then "-" else ""
  let rest := bits % Dyadic.signBit
  if x.isNaN then "nan"
  else if x.isInf then sign ++ "inf"
  else if rest = 0 then sign ++ "0.0"
  else sign ++ (Dyadic.ofBits rest).shortest.render

end Coupling.Decimal
