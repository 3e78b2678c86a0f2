import Coupling.Data.Number

/-!
# Moments

A moment is counted in microseconds from the first day of the year one, in the calendar that has a
leap year every fourth year but not in three of four hundredth ones. Moments end with the year 9999.
-/

namespace Coupling.Time

open Data (Result)

/-- A span of time in microseconds. -/
abbrev Span := Int

/-- A moment in microseconds. -/
abbrev Moment := Int

def second : Span := 1000000
def minute : Span := 60 * second
def hour : Span := 60 * minute
def day : Span := 24 * hour

def isLeap (year : Nat) : Bool := year % 4 == 0 && (year % 100 != 0 || year % 400 == 0)

/-- The days before a year. -/
def daysBeforeYear (year : Nat) : Nat :=
  let y := year - 1
  365 * y + y / 4 - y / 100 + y / 400

/-- The lengths of the months of a year. -/
def monthLengths (year : Nat) : List Nat :=
  [31, if isLeap year then 29 else 28, 31, 30, 31, 30, 31, 31, 30, 31, 30, 31]

/-- A day of the calendar. -/
structure Date where
  year : Nat
  month : Nat
  day : Nat
deriving DecidableEq, Repr, Inhabited

/-- The days before a date. -/
def Date.number (d : Date) : Nat :=
  daysBeforeYear d.year + ((monthLengths d.year).take (d.month - 1)).foldl (· + ·) 0 + (d.day - 1)

/-- The month and the day of a number of days into a year. -/
def monthAndDay (month : Nat) : List Nat → Nat → Nat × Nat
  | [], n => (month, n + 1)
  | length :: rest, n => if n < length then (month, n + 1)
    else monthAndDay (month + 1) rest (n - length)

/-- The year that a number of days falls into: of four hundred, a hundred, four and one years, as
many as fit. -/
def yearOf (n : Nat) : Nat :=
  let (n400, n) := (n / 146097, n % 146097)
  let (n100, n) := (min 3 (n / 36524), n - min 3 (n / 36524) * 36524)
  let (n4, n) := (n / 1461, n % 1461)
  400 * n400 + 100 * n100 + 4 * n4 + min 3 (n / 365) + 1

/-- The date of a number of days. -/
def Date.ofNumber (n : Nat) : Date :=
  let year := yearOf n
  let (month, day) := monthAndDay 1 (monthLengths year) (n - daysBeforeYear year)
  ⟨year, month, day⟩

/-- The days of all years. -/
def allDays : Nat := daysBeforeYear 10000

/-- A moment some time before another; there is none outside of the calendar. -/
def Moment.before (m : Moment) (s : Span) : Result Moment :=
  let t : Int := m - s
  if 0 ≤ t ∧ t < allDays * day then .ok t else .error .outOfRange

def padded (width n : Nat) : String :=
  let ds := Nat.toDigits 10 n
  String.ofList (List.replicate (width - ds.length) '0' ++ ds)

/-- A moment to the minute. -/
def Moment.render (m : Moment) : String :=
  let d := Date.ofNumber (m / day).toNat
  let minutes := (m % day / minute).toNat
  toString d.year ++ "-" ++ padded 2 d.month ++ "-" ++ padded 2 d.day ++ " "
    ++ padded 2 (minutes / 60) ++ padded 2 (minutes % 60)

/-- A number of digits. -/
def digitsAt (cs : List Char) (start count : Nat) : Option Nat :=
  let ds := (cs.drop start).take count
  if ds.length = count ∧ ds.all Char.isDigit then
    some (ds.foldl (fun n c => 10 * n + (c.toNat - '0'.toNat)) 0)
  else none

/-- A moment written as date and time, to the second or finer. -/
def Moment.ofText? (s : String) : Option Moment := do
  let cs := s.toList
  let year ← digitsAt cs 0 4
  let month ← digitsAt cs 5 2
  let dayOfMonth ← digitsAt cs 8 2
  let hours := (digitsAt cs 11 2).getD 0
  let minutes := (digitsAt cs 14 2).getD 0
  let seconds := (digitsAt cs 17 2).getD 0
  let fraction := (digitsAt cs 20 6).getD ((digitsAt cs 20 3).getD 0 * 1000)
  return ((Date.number ⟨year, month, dayOfMonth⟩ : Nat) : Int) * day + hours * hour +
    minutes * minute
    + seconds * second + fraction

/-- A fraction as the whole number next to it towards zero, and what is left of it in halves:
whether it is less than one half, one half, or more. -/
def wholeAndRest (x : Float) : Int × Ordering :=
  let (negative, d) := Data.signedDyadic x
  let v := Decimal.Dyadic.scaled d.m d.q
  let n : Int := (v.1 / v.2 : Nat)
  (if negative then -n else n, compare (2 * (v.1 % v.2)) v.2)

/-- A fraction of hours in microseconds. The whole hours are exact; what the rest makes is rounded
to a microsecond, a half to the even one. -/
def fractionOfHours (x : Float) : Span :=
  let whole := Data.truncate x
  let rest := x - (if whole < 0 then -Float.ofScientific whole.natAbs false 0
    else Float.ofScientific whole.natAbs false 0)
  let (micros, half) := wholeAndRest (rest * 3600000000)
  let total := whole * hour + micros
  let away : Int := if rest < 0 then -1 else 1
  match half with
  | .lt => total
  | .gt => total + away
  | .eq => if total % 2 = 0 then total else total + away

/-- The longest span in days. -/
def mostDays : Int := 999999999

/-- A number of hours. -/
def hours (j : Json) : Result Span := do
  let s ← match ← Data.toNumber j with
    | .whole n => pure (n * hour)
    | .fraction x =>
      if x.isNaN then throw .notANumber
      else if x.isInf then throw .outOfRange
      else pure (fractionOfHours x)
  if -mostDays ≤ s / day ∧ s / day ≤ mostDays then return s else throw .outOfRange

end Coupling.Time
