import Coupling.Java.Parsing.State

/-!
# Walks

The depth-first walks of a parse tree. An expression of which no alternative was reached has no name
of its own, and a walk passes it by in silence; its children are walked as usual.
-/

namespace Coupling.Java

/-- A step of a walk. -/
inductive Visit where
  | enter (form : Form)
  | exit (form : Form)
  | leaf (l : Leaf)
deriving DecidableEq, Repr, Inhabited

namespace Visit

/-- Whether a visitor is told. -/
def isTold : Visit → Bool
  | .enter f => !f.unlabelled
  | .exit f => !f.unlabelled
  | .leaf _ => true

/-- A step of a walk by a listener. -/
def render : Visit → String
  | .enter f => "enter" ++ f.name
  | .exit f => "exit" ++ f.name
  | .leaf l => (if l.isError then "e:" else "t:") ++ l.text

/-- A step of a walk by a visitor, which is told of a node once. -/
def renderVisit? : Visit → Option String
  | .enter f => some ("visit" ++ f.name)
  | .exit _ => none
  | .leaf l => some ((if l.isError then "e:" else "t:") ++ l.text)

end Visit

/-- An event of a parse as a step of a walk. -/
def Event.visit : Event → Visit
  | .enter f => .enter f
  | .exit f => .exit f
  | .token t => .leaf (.token t)
  | .skipped t => .leaf (.skipped t)

namespace ParseTree

mutual

/-- Every node and leaf in depth-first order, nodes before and after their children. -/
def walk : ParseTree → List Visit
  | .token t => [.leaf (.token t)]
  | .skipped t => [.leaf (.skipped t)]
  | .missing k => [.leaf (.missing k)]
  | .node info cs => .enter info.form :: (walkAll cs ++ [.exit info.form])

def walkAll : List ParseTree → List Visit
  | [] => []
  | c :: cs => walk c ++ walkAll cs

end

mutual

/-- The nodes in preorder. -/
def nodes : ParseTree → List ParseTree
  | .node info cs => .node info cs :: nodesOf cs
  | _ => []

def nodesOf : List ParseTree → List ParseTree
  | [] => []
  | c :: cs => nodes c ++ nodesOf cs

end

/-- The forms of the nodes in preorder. -/
def forms (t : ParseTree) : List Form := t.nodes.filterMap ParseTree.form?

end ParseTree

end Coupling.Java
