import Coupling.Java.RuleName
import Coupling.Java.Token

/-!
# Parse trees

A leaf is a token that was read, a token that was skipped while recovering from an error, or a token
that was missing and is only named. A node has its form, the token it starts at, the last token read
when it ended, its children, and for each label the number of the child it names.
-/

namespace Coupling.Java

/-- What a node is, and where it stands. -/
structure NodeInfo where
  form : Form
  start : Token
  stop : Option Token
  labels : List (Label × Nat)
deriving DecidableEq, Repr, Inhabited

/-- A parse tree. -/
inductive ParseTree where
  | token (t : Token)
  | skipped (t : Token)
  | missing (k : Kind)
  | node (info : NodeInfo) (children : List ParseTree)
deriving Repr, Inhabited

/-- A leaf of a parse tree. -/
inductive Leaf where
  | token (t : Token)
  | skipped (t : Token)
  | missing (k : Kind)
deriving DecidableEq, Repr, Inhabited

namespace Leaf

/-- The text of a leaf; a missing token says so. -/
def text : Leaf → String
  | .token t => t.shown
  | .skipped t => t.shown
  | .missing k => "<missing " ++ k.display ++ ">"

/-- Whether a leaf comes from an error. -/
def isError : Leaf → Bool
  | .token _ => false
  | _ => true

end Leaf

namespace ParseTree

def children : ParseTree → List ParseTree
  | .node _ cs => cs
  | _ => []

def form? : ParseTree → Option Form
  | .node info _ => some info.form
  | _ => none

def rule? (t : ParseTree) : Option RuleName := t.form?.map Form.ruleName

def leaf? : ParseTree → Option Leaf
  | .token t => some (.token t)
  | .skipped t => some (.skipped t)
  | .missing k => some (.missing k)
  | .node _ _ => none

/-- The kind of the token a leaf stands for. -/
def kind? : ParseTree → Option Kind
  | .token t => some t.kind
  | .skipped t => some t.kind
  | .missing k => some k
  | .node _ _ => none

mutual

/-- The leaves from left to right. -/
def leaves : ParseTree → List Leaf
  | .token t => [.token t]
  | .skipped t => [.skipped t]
  | .missing k => [.missing k]
  | .node _ cs => leavesOf cs

def leavesOf : List ParseTree → List Leaf
  | [] => []
  | c :: cs => leaves c ++ leavesOf cs

end

/-- The texts of the leaves, one after the other. -/
def text (t : ParseTree) : String := String.join (t.leaves.map Leaf.text)

/-- Whether a child belongs to a rule. -/
def isA (r : RuleName) (t : ParseTree) : Bool := t.rule? == some r

/-- The children of a rule. -/
def all (t : ParseTree) (r : RuleName) : List ParseTree := t.children.filter (isA r)

/-- The first child of a rule. -/
def first? (t : ParseTree) (r : RuleName) : Option ParseTree := t.children.find? (isA r)

/-- The first leaf of a kind among the children. -/
def firstToken? (t : ParseTree) (k : Kind) : Option ParseTree :=
  t.children.find? fun c => c.kind? == some k

/-- The child under a label. -/
def labelled? (t : ParseTree) (l : Label) : Option ParseTree :=
  match t with
  | .node info cs => (info.labels.find? fun x => x.1 == l).bind fun x => cs[x.2]?
  | _ => none

end ParseTree

end Coupling.Java
