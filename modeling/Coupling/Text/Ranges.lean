/-!
# Sets of characters

A property of characters is kept as ranges of code points in ascending order, and looked up by
halving. The ranges are written down as the lengths of the gaps between them and of the ranges
themselves.
-/

namespace Coupling.Text

/-- The ranges from a number on, of which a gap and a range in turn have the given lengths. -/
def rangesFrom (start : Nat) : List Nat → List (Nat × Nat)
  | gap :: length :: rest =>
    (start + gap, start + gap + length - 1) :: rangesFrom (start + gap + length) rest
  | _ => []

def ranges (lengths : List Nat) : Array (Nat × Nat) := (rangesFrom 0 lengths).toArray

/-- Whether a number lies in one of the ranges between two places of an ascending array. -/
def inRanges (ranges : Array (Nat × Nat)) (n lo hi : Nat) : Bool :=
  if h : lo < hi ∧ hi ≤ ranges.size then
    let mid := (lo + hi) / 2
    have : mid < ranges.size := by omega
    let (first, last) := ranges[mid]
    if n < first then inRanges ranges n lo mid
    else if last < n then inRanges ranges n (mid + 1) hi
    else true
  else false
termination_by hi - lo

/-- Whether a character lies in one of the ranges. -/
def isIn (ranges : Array (Nat × Nat)) (c : Char) : Bool := inRanges ranges c.toNat 0 ranges.size

end Coupling.Text
