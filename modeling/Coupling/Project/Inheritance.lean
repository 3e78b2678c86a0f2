import Coupling.Project.Matrix
import Coupling.Project.Symbol

/-!
# Inherited interactions

A class takes over the interactions of its supertypes: to its row are added the rows of the classes
in its hierarchy. A class without supertypes has a row to give. A class with supertypes has none:
its own row is completed first, and then there is nothing to add to the row of the class below it,
which is a fault.
-/

namespace Coupling.Project

/-- A change of a matrix that a fault may end. -/
abbrev Inherit := ExceptT Fault (StateM (Option Matrix))

/-- The number and the row of a class. -/
def ownRow (n : Numbering) (name : String) : Inherit (Nat × Array Int64) := do
  let i ← liftExcept (n.index name)
  match ← get with
  | none => throw .noElements
  | some m => return (i, ← liftExcept (m.row i))

/-- Adds to the row of a class the rows of its supertypes. The row of a class without any is the
result. A hierarchy that is longer than `depth` does not end. -/
def inheritRows (registry : Registry) (classes : ClassTable) (n : Numbering) :
    Nat → SymbolId → Inherit (Option (Array Int64))
  | 0, _ => throw .tooDeep
  | depth + 1, id => do
    let name := registry.fullName id
    match registry.hierarchy id with
    | [] => return some (← ownRow n name).2
    | supers => do
      supers.forM fun super => do
        let (i, _) ← ownRow n name
        let superId ← liftExcept (lookUp classes super)
        match ← inheritRows registry classes n depth superId with
        | some row => modify (Option.map (·.addRow i row))
        | none => throw .noRow
      return none

/-- Inherits along hierarchies of any length: one that passes more classes than there are comes back
to one of them. -/
def inheritFor (registry : Registry) (classes : ClassTable) (n : Numbering) (id : SymbolId) :
    Inherit (Option (Array Int64)) :=
  inheritRows registry classes n (classes.size + 1) id

/-- Lets every class of a table inherit, in the order of the table. -/
def inheritAll (registry : Registry) (classes : ClassTable) (n : Numbering) : Inherit Unit :=
  classes.values.forM fun id => do let _ ← inheritFor registry classes n id

end Coupling.Project
