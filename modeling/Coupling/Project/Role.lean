import Coupling.Java.ParseTree
import Coupling.Project.Symbol

/-!
# Roles of nodes

What a node of a parse tree is to those who look for declarations in it. All other nodes are passed
through.
-/

namespace Coupling.Project

open Java (Form ParseTree)

/-- What a node is for. -/
inductive Role where
  | package
  | «import»
  /-- A class or interface declaration. -/
  | type (kind : SymbolKind)
  /-- A method declaration, in a class or in an interface. -/
  | method
  /-- A declaration of fields or local variables. -/
  | field
  | other
deriving DecidableEq, Repr, Inhabited

namespace Role

/-- The role of the nodes of a form. -/
def ofForm : Form → Role
  | .rule .packageDeclaration => .package
  | .rule .importDeclaration => .import
  | .rule .classDeclaration => .type .class
  | .rule .interfaceDeclaration => .type .interface
  | .rule .methodDeclaration => .method
  | .rule .interfaceCommonBodyDeclaration => .method
  | .rule .fieldDeclaration => .field
  | .rule .localVariableDeclaration => .field
  | _ => .other

end Role

end Coupling.Project
