import Coupling.Project.Collector
import Coupling.Project.Scene
import Coupling.Words.Camel
import Coupling.Words.Terms

/-!
# Class texts

The text of a class or interface is made of the words of its name, of its methods' names and of its
fields' names. Methods and fields are noted with the class or interface that was entered last. How a
file is parsed is left open.
-/

namespace Coupling.Project

open Java (ParseTree)

/-- A class and the names of its members. -/
structure ClassOutline where
  name : String
  methods : List String := []
  fields : List String := []
deriving DecidableEq, Repr, Inhabited

/-- An interface and the names of its methods. -/
structure InterfaceOutline where
  name : String
  methods : List String := []
deriving DecidableEq, Repr, Inhabited

/-- The texts of a file and what was entered last. -/
structure ClassTexts where
  texts : List String := []
  currentClass : Option ClassOutline := none
  currentInterface : Option InterfaceOutline := none
deriving DecidableEq, Repr, Inhabited

/-- A reading of a file that a fault ends. -/
abbrev Describe := StateT ClassTexts (Except Fault)

namespace Describe

/-- Adds the text made of the words of names. -/
def addText (names : List String) : Describe Unit :=
  modify fun c =>
  { c with texts := c.texts ++ [" ".intercalate (names.flatMap Words.ofIdentifier)] }

def closeClass (name : String) : Describe Unit := do
  let c := (← get).currentClass.getD { name }
  addText (name :: c.methods ++ c.fields)

def closeInterface (name : String) : Describe Unit := do
  let i := (← get).currentInterface.getD { name }
  addText (name :: i.methods)

/-- Notes a method of the current class. -/
def addMethod (t : ParseTree) : Describe Unit := do
  if let some c := (← get).currentClass then
    let name ← textOf (t.first? .identifier)
    modify fun s => { s with currentClass := some { c with methods := c.methods ++ [name] } }

/-- Notes the fields of the current class. -/
def addFields (t : ParseTree) : Describe Unit := do
  if (← get).currentClass.isSome then
    let list ← need "variableDeclarator" (t.first? .variableDeclarators)
    (list.all .variableDeclarator).forM fun d => do
      let id ← need "identifier" (d.first? .variableDeclaratorId)
      let name ← textOf (id.first? .identifier)
      modify fun s => { s with
        currentClass := s.currentClass.map fun c => { c with fields := c.fields ++ [name] } }

/-- Notes a method of the current interface. -/
def addInterfaceMethod (t : ParseTree) : Describe Unit := do
  if let some i := (← get).currentInterface then
    let body ← need "identifier" (t.first? .interfaceCommonBodyDeclaration)
    let name ← textOf (body.first? .identifier)
    modify fun s => { s with currentInterface := some { i with methods := i.methods ++ [name] } }

/-- Opens a class. -/
def openClass (t : ParseTree) : Describe String := do
  let name ← textOf (t.first? .identifier)
  modify fun s => { s with currentClass := some { name } }
  let _ ← need "getChildCount" (t.first? .classBody)
  return name

/-- Opens an interface. -/
def openInterface (t : ParseTree) : Describe String := do
  let name ← textOf (t.first? .identifier)
  modify fun s => { s with currentInterface := some { name } }
  let _ ← need "getChildCount" (t.first? .interfaceBody)
  return name

mutual

/-- Reads a tree. -/
def visit : ParseTree → Describe Unit
  | .node info cs => do
    let t := ParseTree.node info cs
    match info.form with
    | .rule .classDeclaration => do
      let name ← openClass t
      visitBody .classBody cs
      closeClass name
    | .rule .interfaceDeclaration => do
      let name ← openInterface t
      visitBody .interfaceBody cs
      closeInterface name
    | .rule .methodDeclaration => do
      addMethod t
      visitAll cs
    | .rule .fieldDeclaration => do
      addFields t
      visitAll cs
    | .rule .interfaceMethodDeclaration => do
      addInterfaceMethod t
      visitAll cs
    | _ => visitAll cs
  | _ => pure ()

def visitAll : List ParseTree → Describe Unit
  | [] => pure ()
  | t :: ts => do
    visit t
    visitAll ts

/-- Reads the children of the first child of a rule. -/
def visitBody (rule : Java.RuleName) : List ParseTree → Describe Unit
  | [] => pure ()
  | .node info cs :: ts => if info.form.ruleName = rule then visitAll cs else visitBody rule ts
  | _ :: ts => visitBody rule ts

end

end Describe

/-- The texts of the classes and interfaces of a tree. -/
def classTexts (tree : ParseTree) :
    Except Fault ClassTexts := do return (← (Describe.visit tree).run {}).2

/-- Files and the terms of their classes. -/
structure TermTexts where
  files : List String
  texts : List String := []
  /-- Whether a matrix was made of the texts. -/
  ready : Bool := false
deriving Inhabited

namespace TermTexts

/-- Adds the terms of the classes of a file. -/
def addFile (parse : Parser) (fs : Files) (stopWords : List String) (stemmer : String → String)
    (file : String) : Action TermTexts Unit := do
  let source ← liftExcept (fs.read file)
  let tree ← Action.parsed parse source
  match classTexts tree with
  | .ok c =>
    let reduced := c.texts.map (Words.reduce stopWords · stemmer)
    Action.change fun t => { t with texts := t.texts ++ reduced }
  | .error f => Action.say ("解析 " ++ file ++ " 时出现错误: " ++ f.message)

/-- Adds the terms of the classes of all files. -/
def addAll (parse : Parser) (fs : Files) (stopWords : List String)
    (stemmer : String → String := Words.stem) : Action TermTexts Unit := do
  (← Action.self).files.forM (addFile parse fs stopWords stemmer)
  Action.change fun t => { t with ready := true }

end TermTexts

end Coupling.Project
