import Coupling.Project.Fault
import Coupling.Project.JavaLang
import Coupling.Project.Role
import Coupling.Project.TypeName

/-!
# Collecting declarations

The declarations of a file: its classes and interfaces, all its symbols, and the table of what its
simple names stand for. A tree is read twice, so that in the second reading a type can be named
before it is declared. A symbol's full name is made from the symbol it is declared in, or from the
package.

A method is known by its name and, if it has parameters, the full types of those that are not
variadic.
-/

namespace Coupling.Project

open Java (ParseTree NodeInfo)

/-- What is known of a file while it is read. -/
structure Collected where
  registry : Registry
  package : String := ""
  classes : ClassTable := ∅
  symbols : Table SymbolId := ∅
  full : Table String := ∅
deriving Inhabited

/-- A reading of a file that a fault ends. -/
abbrev Collect := StateT Collected (Except Fault)

/-- The part of a tree, which must be there to be asked for a property. -/
def need {m : Type → Type} [Monad m] [MonadExceptOf Fault m] {α : Type} (property : String) :
    Option α → m α
  | some a => pure a
  | none => throw (.absent property)

/-- The text of a part that must be there. -/
def textOf {m : Type → Type} [Monad m] [MonadExceptOf Fault m] (part : Option ParseTree) :
    m String :=
  return (← need "getText" part).text

/-- The full name of a name declared in a scope, or in the package if there is none. -/
def nameIn (package : String) (scope : Option String) (name : String) : String :=
  match scope with
  | some s => s ++ "." ++ name
  | none => if package.isEmpty then name else package ++ "." ++ name

/-- The part of a source from the first to the last token of a node. -/
def codeOf (source : String) (info : NodeInfo) (last : Java.Token) : String :=
  String.ofList ((source.toList.take last.stop).drop info.start.start.offset)

/-- A new symbol for a node of a file. -/
def symbolAt {m : Type → Type} [Monad m] [MonadExceptOf Fault m] (file source : String)
    (kind : SymbolKind) (shortName fullName : String) (info : NodeInfo) : m Symbol := do
  let last ← need "line" info.stop
  return { kind, shortName, fullName, file,
           startLine := info.start.start.line, stopLine := last.start.line,
           code := codeOf source info last }

/-- The parameters of a method, variadic ones apart; `none` if its list of parameters is empty. -/
def parametersOf {m : Type → Type} [Monad m] [MonadExceptOf Fault m] (t : ParseTree) :
    m (Option (List ParseTree)) := do
  let list ← need "formalParameterList" (t.first? .formalParameters)
  return (list.first? .formalParameterList).map fun l => l.all .formalParameter

/-- The names of a method's parameters. -/
def parameterNames (t : ParseTree) : Except Fault (List String) := do
  ((← parametersOf t).getD []).mapM fun p => textOf (p.first? .variableDeclaratorId)

/-- A method's name with the types of its parameters. -/
def signature (name : String) (types : List String) : String :=
  name ++ "(" ++ ",".intercalate types ++ ")"

/-- What a method is known by in a file whose simple names stand for `full`. -/
def signatureOf (full : Table String) (t : ParseTree) : Except Fault String := do
  let name ← textOf (t.first? .identifier)
  match ← parametersOf t with
  | none => return name
  | some ps => return signature name (← ps.mapM
    fun p => do return resolve full (← textOf (p.first? .typeType)))

namespace Collect

/-- Adds a symbol under its full name. -/
def register (s : Symbol) : Collect SymbolId := do
  let id := (← get).registry.size
  modify fun c => { c with registry := c.registry.add s, symbols := c.symbols.put s.fullName id }
  return id

/-- Lets a simple name stand for a full name. -/
def bindName (short full : String) : Collect Unit :=
  modify fun c => { c with full := c.full.put short full }

/-- The full name of a name declared in a scope. -/
def nameFor (scope : Option SymbolId) (name : String) : Collect String := do
  let c ← get
  return nameIn c.package (scope.map c.registry.fullName) name

/-- The package of a file; with it come the names of `java.lang`. -/
def enterPackage (t : ParseTree) : Collect Unit := do
  let name ← textOf (t.first? .qualifiedName)
  modify fun c => { c with package := name, full := c.full.update javaLang }

/-- An import binds the last part of its name. -/
def addImport (t : ParseTree) : Collect Unit := do
  let name ← textOf (t.first? .qualifiedName)
  if (t.firstToken? .kwStatic).isSome then throw .staticImport
  if name.endsWith ".*" then throw .wildcardImport
  bindName (Text.afterLast name '.') name

/-- A class or interface is a symbol and a class. -/
def addClass (file source : String) (kind : SymbolKind) (scope : Option SymbolId) (info : NodeInfo)
    (t : ParseTree) : Collect SymbolId := do
  let name ← textOf (t.first? .identifier)
  let full ← nameFor scope name
  let s ← symbolAt file source kind name full info
  let id ← register s
  modify fun c => { c with classes := c.classes.put full id }
  bindName name full
  return id

/-- A method is a symbol and one of the methods of the symbol it is declared in. -/
def addMethod (file source : String) (scope : Option SymbolId) (info : NodeInfo) (t : ParseTree) :
    Collect SymbolId := do
  let name ← liftExcept (signatureOf (← get).full t)
  let params ← liftExcept (parameterNames t)
  let full ← nameFor scope name
  let s ← symbolAt file source .method name full info
  let id ← register { s with params }
  let type ← textOf (t.first? .typeTypeOrVoid)
  let returnType := resolve (← get).full type
  modify fun c => { c with registry := c.registry.change id fun s => { s with returnType } }
  bindName name full
  let owner ← need "methods" scope
  modify fun c => { c with registry := c.registry.change owner fun s =>
    { s with methods := s.methods.put full id } }
  return id

mutual

/-- Reads a tree in a scope. -/
def visit (file source : String) (scope : Option SymbolId) : ParseTree → Collect Unit
  | .node info cs => do
    let t := ParseTree.node info cs
    match Role.ofForm info.form with
    | .package => enterPackage t
    | .import => addImport t
    | .type kind => do
      let id ← addClass file source kind scope info t
      visitAll file source (some id) cs
    | .method => do
      let id ← addMethod file source scope info t
      visitAll file source (some id) cs
    | .field => visitAll file source scope cs
    | .other => visitAll file source scope cs
  | _ => pure ()

def visitAll (file source : String) (scope : Option SymbolId) : List ParseTree → Collect Unit
  | [] => pure ()
  | c :: cs => do
    visit file source scope c
    visitAll file source scope cs

end

end Collect

/-- Reads the tree of a file twice; new symbols are added to the registry. -/
def collect (registry : Registry) (file source : String) (tree : ParseTree) :
    Except Fault Collected := do
  let reading : Collect Unit := do
    Collect.visit file source none tree
    Collect.visit file source none tree
  return (← reading.run { registry }).2

end Coupling.Project
