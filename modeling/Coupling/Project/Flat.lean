import Coupling.Project.Collector
import Coupling.Project.Inheritance
import Coupling.Project.Scene

/-!
# Interactions by flat names

A second count of interactions that takes the classes from a table it is given. A class is known by
its package and simple name, whatever it is declared in, and a type by its bare name. A name stands
for the class of the last import or class declaration that was read before it.

The supertype of a class is noted in the class symbol, which others share. A class that implements
interfaces ends the reading of the file. How a file is parsed can be left open.
-/

namespace Coupling.Project

open Java (ParseTree)

/-- What a reading of a file changes. -/
structure FlatAnalysis where
  registry : Registry
  matrix : Matrix
  package : String := ""
  full : Table String := ∅
deriving Inhabited

/-- A reading of a file that a fault ends. -/
abbrev FlatAnalyze := ExceptT Fault (StateM FlatAnalysis)

namespace FlatAnalyze

/-- Counts an interaction with a class of the table. -/
def interact (classes : ClassTable) (n : Numbering) (source target : String) :
    FlatAnalyze Unit := do
  if source = target then return
  if !classes.contains target then return
  let a ← get
  let m ← liftExcept (countInteraction n (some a.matrix) source target)
  set { a with matrix := m }

/-- The full name that the bare name of a type stands for. -/
def typeOf (t : ParseTree) : FlatAnalyze String := do
  let type ← textOf (t.first? .typeType)
  return resolveBare (← get).full type

def bindName (short full : String) : FlatAnalyze Unit :=
  modify fun a => { a with full := a.full.put short full }

/-- An import binds the last part of its name unless it is static. -/
def addImport (t : ParseTree) : FlatAnalyze Unit := do
  -- The star of an import of a whole package stands after the name and is no part of it, so a
  -- branch for names that end in a star cannot be reached.
  let name ← textOf (t.first? .qualifiedName)
  if (t.firstToken? .kwStatic).isNone then bindName (Text.afterLast name '.') name

/-- The flat name of a class declaration, its supertype noted. -/
def enterClass (classes : ClassTable) (n : Numbering) (t : ParseTree) : FlatAnalyze String := do
  let name ← textOf (t.first? .identifier)
  let full := nameIn (← get).package none name
  bindName name full
  if (t.firstToken? .kwExtends).isSome then
    let super ← typeOf t
    let id ← liftExcept (lookUp classes full)
    modify fun a => { a with registry := a.registry.addSuper id super }
    interact classes n full super
  if (t.firstToken? .kwImplements).isSome then throw (.ofList "typeType")
  return full

/-- Counts the parameter types of a method. -/
def addParameters (classes : ClassTable) (n : Numbering) (current : String) (t : ParseTree) :
    FlatAnalyze Unit := do
  ((← parametersOf t).getD []).forM fun p => do interact classes n current (← typeOf p)

mutual

/-- Reads a tree inside a class; outside every class its name is empty. -/
def visit (classes : ClassTable) (n : Numbering) (current : String) : ParseTree → FlatAnalyze Unit
  | .node info cs => do
    let t := ParseTree.node info cs
    match info.form with
    | .rule .packageDeclaration => do
      let name ← textOf (t.first? .qualifiedName)
      modify fun a => { a with package := name }
      visitAll classes n current cs
    | .rule .importDeclaration => addImport t
    | .rule .classDeclaration => do
      let full ← enterClass classes n t
      visitAll classes n full cs
    | .rule .fieldDeclaration => do
      if !current.isEmpty then interact classes n current (← typeOf t)
      visitAll classes n current cs
    | .rule .methodDeclaration => do
      if !current.isEmpty then addParameters classes n current t
      visitAll classes n current cs
    | .rule .localVariableDeclaration => do
      if !current.isEmpty then interact classes n current (← typeOf t)
      visitAll classes n current cs
    | _ => visitAll classes n current cs
  | _ => pure ()

def visitAll (classes : ClassTable) (n : Numbering) (current : String) :
    List ParseTree → FlatAnalyze Unit
  | [] => pure ()
  | t :: ts => do
    visit classes n current t
    visitAll classes n current ts

end

end FlatAnalyze

/-- Files, a class table and the matrix of its classes. -/
structure FlatAnalyzer where
  files : List String
  classes : TableId
  matrix : Matrix
deriving Inhabited

namespace FlatAnalyzer

/-- An analyser for the classes of a table. -/
def new (files : List String) (classes : TableId) (shared : Shared) : FlatAnalyzer :=
  ⟨files, classes, .zero (shared.table classes).size⟩

def classTable (s : Scene FlatAnalyzer) : ClassTable := s.shared.table s.self.classes

/-- Analyses a file. -/
def analyzeFile (parse : Parser) (fs : Files) (file : String) : Action FlatAnalyzer Unit := do
  let source ← liftExcept (fs.read file)
  let tree ← Action.parsed parse source
  let s ← get
  let (result, a) := (FlatAnalyze.visit (classTable s) s.shared.flatNumbering "" tree).run.run
    { registry := s.shared.registry, matrix := s.self.matrix }
  set { s with self := { s.self with matrix := a.matrix }, shared :=
    { s.shared with registry := a.registry } }
  match result with
  | .ok _ => pure ()
  | .error f => Action.say ("解析 " ++ file ++ " 时出现错误: " ++ f.message)

/-- Lets the matrix inherit. -/
def inheriting {α : Type} (step : Registry → ClassTable → Numbering → Inherit α) :
    Action FlatAnalyzer α := do
  let s ← get
  let (result, m) := (step s.shared.registry (classTable s) s.shared.flatNumbering).run.run
    (some s.self.matrix)
  Action.change fun p => { p with matrix := m.getD p.matrix }
  liftExcept result

/-- Lets a class of the table inherit. -/
def inheritClass (name : String) : Action FlatAnalyzer (Option (Array Int64)) := do
  let id ← liftExcept (lookUp (classTable (← get)) name)
  inheriting fun r c n => inheritFor r c n id

/-- Numbers the classes, analyses all files and, if asked to, lets every class inherit. -/
def runWith (parse : Parser) (fs : Files) (inherited : Bool) : Action FlatAnalyzer Unit := do
  modify fun s => { s with shared := { s.shared with flatNumbering := ⟨(classTable s).keys⟩ } }
  (← Action.self).files.forM (analyzeFile parse fs)
  if inherited then inheriting inheritAll

def run (fs : Files) (inherited : Bool) : Action FlatAnalyzer Unit :=
  runWith Java.parse fs inherited

/-- Prints the matrix. -/
def print : Action FlatAnalyzer Unit := do
  Action.printMatrix (← Action.shared).flatNumbering (some (← Action.self).matrix)

end FlatAnalyzer

end Coupling.Project
