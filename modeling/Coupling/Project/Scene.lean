import Coupling.Java.Parsing.Parse
import Coupling.Project.Files
import Coupling.Project.Matrix
import Coupling.Project.Symbol

/-!
# What analysers share

Analysers work side by side. They share the registry of symbols and the class tables, so that one
sees what another adds to a symbol or a table, and the numbering of classes, which is that of the
analyser of its kind that numbered last. What they print and what the parser complains about is kept
as text.
-/

namespace Coupling.Project

/-- What all analysers share. -/
structure Shared where
  registry : Registry := .empty
  tables : Array ClassTable := #[]
  /-- The numbering of the profiler that collected last. -/
  numbering : Numbering := ⟨[]⟩
  /-- The numbering of the flat analyser that ran last. -/
  flatNumbering : Numbering := ⟨[]⟩
  printed : String := ""
  complained : String := ""
deriving Inhabited

/-- The number of a class table. -/
abbrev TableId := Nat

def Shared.table (s : Shared) (id : TableId) : ClassTable := (s.tables[id]?).getD ∅

/-- How a source is parsed. -/
abbrev Parser := String → Java.Parsed

/-- An analyser and what it shares. -/
structure Scene (σ : Type) where
  self : σ
  shared : Shared
deriving Inhabited

/-- A step of an analyser that a fault may end; what was done before it stays done. -/
abbrev Action (σ : Type) := ExceptT Fault (StateM (Scene σ))

namespace Action

variable {σ : Type}

def shared : Action σ Shared := return (← get).shared

def self : Action σ σ := return (← get).self

def share (f : Shared → Shared) : Action σ Unit := modify fun s => { s with shared := f s.shared }

def change (f : σ → σ) : Action σ Unit := modify fun s => { s with self := f s.self }

/-- Prints a line. -/
def say (line : String) : Action σ Unit := share fun s =>
    { s with printed := s.printed ++ line ++ "\n" }

/-- Parses a source and keeps what the parser complains about. -/
def parsed (parse : Parser) (source : String) : Action σ Java.ParseTree := do
  let p := parse source
  share fun s => { s with
    complained := s.complained ++ String.join (p.complaints.map fun c =>
      "line " ++ c.render ++ "\n") }
  return p.tree

/-- Prints a matrix row by row. -/
def printMatrix (n : Numbering) : Option Matrix → Action σ Unit
  | none => throw .notIterable
  | some m => m.rows.toList.zipIdx.forM fun (r, i) => do say (← liftExcept (Matrix.line n i r))

end Action

end Coupling.Project
