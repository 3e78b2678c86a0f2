import Coupling.Project.Collector
import Coupling.Project.Matrix

/-!
# Structural references

What the declarations of a file refer to: the supertypes of a class or interface, the types of
fields and local variables, and the return and parameter types of methods. A reference from a symbol
to a type adds the names the type is made of to what the symbol depends on, and counts an
interaction from the class around it to each of them that is a class of the project.

Nothing is looked for inside a field or local variable declaration. A fault ends the reading of the
file; what was noted before it stays.
-/

namespace Coupling.Project

open Java (ParseTree NodeInfo)

/-- What a reading of a file goes by. -/
structure Setting where
  file : String
  source : String
  classes : ClassTable
  full : Table String
  numbering : Numbering
deriving Inhabited

/-- What a reading of a file changes. -/
structure Analysis where
  registry : Registry
  symbols : Table SymbolId
  matrix : Option Matrix
deriving Inhabited

/-- The symbol and the class around a place in a file. -/
structure Surroundings where
  symbol : Option SymbolId := none
  className : String := ""
deriving Inhabited

/-- The texts of the supertypes of a class or interface declaration. A class has its own supertype
first and then a list for each clause of them; an interface has such lists only. -/
def supertypes (kind : SymbolKind) (t : ParseTree) : Except Fault (List String) := do
  let extending := (t.firstToken? .kwExtends).isSome
  let lists := (t.all .typeList).map ParseTree.text
  match kind with
  | .class =>
    let own ← if extending then (do return [← textOf (t.first? .typeType)]) else pure []
    return own ++ (if (t.firstToken? .kwImplements).isSome then lists else [])
  | _ => return if extending then lists else []

/-- The texts of the types of a method declaration: what it returns, and then its parameters. -/
def methodTypes (t : ParseTree) : Except Fault (List String) := do
  let result ← textOf (t.first? .typeTypeOrVoid)
  let params ← ((← parametersOf t).getD []).mapM fun p => textOf (p.first? .typeType)
  return result :: params

/-- A reading of a file that a fault ends. -/
abbrev Analyze := ExceptT Fault (StateM Analysis)

namespace Analyze

/-- Notes that a symbol depends on a name. Predefined names do not count, and others must be
symbols. -/
def depend (owner : Option SymbolId) (name : String) : Analyze Unit := do
  if isPredefined name then return
  let a ← get
  if !a.symbols.contains name then throw (.unknownDependency name)
  let id ← need "dependency" owner
  set { a with registry := a.registry.addDependency id name }

/-- Counts an interaction between two classes of the project. -/
def interact (c : Setting) (source target : String) : Analyze Unit := do
  if source = target then return
  if !c.classes.contains source || !c.classes.contains target then return
  let a ← get
  let m ← liftExcept (countInteraction c.numbering a.matrix source target)
  set { a with matrix := some m }

/-- A reference to a type: dependencies of a symbol, interactions of a class. -/
def refer (c : Setting) (owner : Option SymbolId) (source type : String) : Analyze Unit := do
  let names := mentions c.full type
  names.forM (depend owner)
  names.forM (interact c source)

/-- A supertype of a class is noted and referred to. -/
def inherit (c : Setting) (id : SymbolId) (type : String) : Analyze Unit := do
  modify fun a => { a with registry := a.registry.addSuper id (resolve c.full type) }
  refer c (some id) ((← get).registry.fullName id) type

/-- An import of a name that is neither a class nor a symbol yet becomes a symbol. -/
def addImport (c : Setting) (info : NodeInfo) (t : ParseTree) : Analyze Unit := do
  let name ← textOf (t.first? .qualifiedName)
  let a ← get
  if !c.classes.contains name && !a.symbols.contains name then
    let s ← symbolAt c.file c.source .import (Text.afterLast name '.') name info
    set { a with registry := a.registry.add s, symbols := a.symbols.put name a.registry.size }

/-- The class symbol that a declaration stands for. -/
def classOf (c : Setting) (t : ParseTree) : Analyze SymbolId := do
  let name ← textOf (t.first? .identifier)
  let full ← liftExcept (lookUp c.full name)
  liftExcept (lookUp c.classes full)

/-- The class symbol of a class or interface declaration, its supertypes noted. -/
def enterType (c : Setting) (kind : SymbolKind) (t : ParseTree) : Analyze SymbolId := do
  let id ← classOf c t
  (← liftExcept (supertypes kind t)).forM (inherit c id)
  return id

/-- The method symbol that a declaration stands for. -/
def methodOf (c : Setting) (t : ParseTree) : Analyze SymbolId := do
  let name ← liftExcept (signatureOf c.full t)
  let full ← liftExcept (lookUp c.full name)
  liftExcept (lookUp (← get).symbols full)

/-- The method symbol of a method declaration, its types referred to. -/
def enterMethod (c : Setting) (s : Surroundings) (t : ParseTree) : Analyze SymbolId := do
  let id ← methodOf c t
  depend s.symbol ((← get).registry.fullName id)
  (← liftExcept (methodTypes t)).forM (refer c (some id) s.className)
  return id

mutual

/-- Reads a tree. -/
def visit (c : Setting) (s : Surroundings) : ParseTree → Analyze Unit
  | .node info cs => do
    let t := ParseTree.node info cs
    match Role.ofForm info.form with
    | .package => do let _ ← textOf (t.first? .qualifiedName)
    | .import => addImport c info t
    | .type kind => do
      let id ← enterType c kind t
      visitAll c ⟨some id, (← get).registry.fullName id⟩ cs
    | .method => do
      let id ← enterMethod c s t
      visitAll c { s with symbol := some id } cs
    | .field => do refer c s.symbol s.className (← textOf (t.first? .typeType))
    | .other => visitAll c s cs
  | _ => pure ()

def visitAll (c : Setting) (s : Surroundings) : List ParseTree → Analyze Unit
  | [] => pure ()
  | t :: ts => do
    visit c s t
    visitAll c s ts

end

end Analyze

end Coupling.Project
