import Coupling.Json.Value
import Coupling.Project.Fault
import Coupling.Table

/-!
# Interaction matrices

A square matrix of counts, one row and one column for each class. Counts are 64-bit and wrap around.
A numbering gives the classes their places.
-/

namespace Coupling.Project

/-- The value under a key that must be there. -/
def lookUp {α : Type} (t : Table α) (key : String) : Except Fault α :=
  match t.get? key with
  | some a => .ok a
  | none => .error (.noKey key)

/-- Classes by number. -/
structure Numbering where
  names : List String
deriving DecidableEq, Repr, Inhabited

namespace Numbering

/-- The number of a name; of a name that stands twice, the last. -/
def index? (n : Numbering) (name : String) : Option Nat :=
  (n.names.reverse.idxOf? name).map fun i => n.names.length - 1 - i

def name? (n : Numbering) (i : Nat) : Option String := n.names[i]?

/-- The number of a name that must be there. -/
def index (n : Numbering) (name : String) : Except Fault Nat :=
  match n.index? name with
  | some i => .ok i
  | none => .error (.noKey name)

/-- The name with a number that must be there. -/
def name (n : Numbering) (i : Nat) : Except Fault String :=
  match n.name? i with
  | some s => .ok s
  | none => .error (.noNumber i)

end Numbering

/-- Counts by row and column. -/
structure Matrix where
  rows : Array (Array Int64)
deriving DecidableEq, Repr, Inhabited

namespace Matrix

/-- The square matrix of zeros. -/
def zero (n : Nat) : Matrix := ⟨Array.replicate n (Array.replicate n 0)⟩

def size (m : Matrix) : Nat := m.rows.size

/-- The row at a place. -/
def row (m : Matrix) (i : Nat) : Except Fault (Array Int64) :=
  match m.rows[i]? with
  | some r => .ok r
  | none => .error (.outOfBounds i m.size)

/-- The count at a place. -/
def cell? (m : Matrix) (i j : Nat) : Option Int64 := m.rows[i]?.bind fun r => r[j]?

/-- Counts one more at a place. -/
def bump (m : Matrix) (i j : Nat) : Except Fault Matrix := do
  let r ← m.row i
  if j < r.size then .ok ⟨m.rows.set! i (r.modify j (· + 1))⟩ else .error (.outOfBounds j r.size)

/-- Adds a row to the row at a place, count by count. -/
def addRow (m : Matrix) (i : Nat) (r : Array Int64) : Matrix :=
  ⟨m.rows.modify i fun s => s.zipWith (· + ·) r⟩

def rowJson (r : Array Int64) : Json := .arr (r.toList.map fun x => .int x.toInt)

def toJson (m : Matrix) : Json := .arr (m.rows.toList.map rowJson)

/-- The columns of a row with a positive count, and the count. -/
def described (n : Numbering) (r : Array Int64) : Except Fault (List String) :=
  (r.toList.zipIdx.filter fun (x, _) => decide (0 < x)).mapM fun (x, j) => do
    return (← n.name j) ++ "(" ++ toString x ++ ")"

/-- A row on one line: the class, and the classes it interacts with. -/
def line (n : Numbering) (i : Nat) (r : Array Int64) : Except Fault String := do
  let name ← n.name i
  return name ++ " -> " ++ Text.quotedList (← described n r)

end Matrix

/-- A matrix, which must be there, with one more interaction from one class to another. -/
def countInteraction (n : Numbering) (matrix : Option Matrix) (source target : String) :
    Except Fault Matrix := do
  let i ← n.index source
  match matrix with
  | none => .error .noElements
  | some m => do
    let _ ← m.row i
    let j ← n.index target
    m.bump i j

end Coupling.Project
