import Coupling.Project.Inheritance
import Coupling.Project.Scene
import Coupling.Project.Structure

/-!
# Profiles of a project

A profiler collects the declarations of the files of a project and then counts the interactions
between its classes. A file whose declarations cannot be collected adds nothing to the tables; the
fault is printed and the next file is read. The classes are numbered in the order of the class
table. How a file is parsed is left open.
-/

namespace Coupling.Project

/-- A project's files and what is known of them. -/
structure Profiler where
  files : List String
  classes : TableId
  symbols : Table SymbolId := ∅
  /-- What the simple names of each file stand for. -/
  full : Table (Table String) := ∅
  matrix : Option Matrix := none
deriving Inhabited

/-- A profiler with a class table of its own. -/
def Profiler.new (files : List String) (shared : Shared) : Profiler × Shared :=
  (⟨files, shared.tables.size, ∅, ∅, none⟩, { shared with tables := shared.tables.push ∅ })

namespace Profiler

def classTable (s : Scene Profiler) : ClassTable := s.shared.table s.self.classes

/-- Adds what was collected from a file. -/
def absorb (file : String) (c : Collected) (s : Scene Profiler) : Scene Profiler :=
  { self := { s.self with
      symbols := s.self.symbols.update c.symbols
      full := s.self.full.put file c.full }
    shared := { s.shared with
      registry := c.registry
      tables := s.shared.tables.modify s.self.classes (·.update c.classes) } }

/-- Collects the declarations of a file. -/
def collectFile (parse : Parser) (fs : Files) (file : String) : Action Profiler Unit := do
  let source ← liftExcept (fs.read file)
  let tree ← Action.parsed parse source
  match collect (← Action.shared).registry file source tree with
  | .ok c => modify (absorb file c)
  | .error f =>
    Action.say ("[JavaStaticProfiler::collect_class_stats] analyzing " ++ file ++
      " occurs error: " ++ f.message)

/-- Numbers the classes and starts a matrix of zeros. -/
def number (s : Scene Profiler) : Scene Profiler :=
  let classes := classTable s
  { self := { s.self with matrix := some (.zero classes.size) }
    shared := { s.shared with numbering := ⟨classes.keys⟩ } }

/-- Collects the declarations of all files. -/
def collectAll (parse : Parser) (fs : Files) : Action Profiler Unit := do
  (← Action.self).files.forM (collectFile parse fs)
  modify number

/-- What a reading of a file goes by. -/
def setting (file source : String) (full : Table String) (s : Scene Profiler) : Setting :=
  ⟨file, source, classTable s, full, s.shared.numbering⟩

/-- What a reading of a file starts from. -/
def analysis (s : Scene Profiler) : Analysis := ⟨s.shared.registry, s.self.symbols, s.self.matrix⟩

/-- Takes over what a reading of a file has changed. -/
def adopt (a : Analysis) (s : Scene Profiler) : Scene Profiler :=
  { self := { s.self with symbols := a.symbols, matrix := a.matrix }
    shared := { s.shared with registry := a.registry } }

/-- Analyses the references of a file. -/
def analyzeFile (parse : Parser) (fs : Files) (file : String) : Action Profiler Unit := do
  let full ← liftExcept (lookUp (← Action.self).full file)
  let source ← liftExcept (fs.read file)
  let tree ← Action.parsed parse source
  let s ← get
  let (result, a) := (Analyze.visit (setting file source full s) {} tree).run.run (analysis s)
  set (adopt a s)
  match result with
  | .ok _ => pure ()
  | .error f =>
    Action.say ("[JavaStaticProfiler::analyze_structure] analyzing " ++ file ++
      " occurs error: " ++ f.message)

/-- Analyses the references of all files. -/
def analyzeAll (parse : Parser) (fs : Files) : Action Profiler Unit := do
  (← Action.self).files.forM (analyzeFile parse fs)

/-- Lets the matrix inherit. -/
def inheriting {α : Type} (step : Registry → ClassTable → Numbering → Inherit α) :
    Action Profiler α := do
  let s ← get
  let (result, m) := (step s.shared.registry (classTable s) s.shared.numbering).run.run
    s.self.matrix
  Action.change fun p => { p with matrix := m }
  liftExcept result

/-- Lets a class of the project inherit. -/
def inheritClass (name : String) : Action Profiler (Option (Array Int64)) := do
  let id ← liftExcept (lookUp (classTable (← get)) name)
  inheriting fun r c n => inheritFor r c n id

/-- Collects, analyses and, if asked to, lets every class inherit. -/
def profile (parse : Parser) (fs : Files) (inherited : Bool) : Action Profiler Unit := do
  collectAll parse fs
  analyzeAll parse fs
  if inherited then inheriting inheritAll

/-- Prints the matrix. -/
def print : Action Profiler Unit := do
  Action.printMatrix (← Action.shared).numbering (← Action.self).matrix

end Profiler

end Coupling.Project
