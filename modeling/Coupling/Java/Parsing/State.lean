import Coupling.Java.Parsing.Complaint
import Coupling.Java.Prediction.Adaptive
import Coupling.Java.ParseTree

/-!
# The state of a parse

A parse goes through the tokens of a source and builds the node it is in. Tokens are fetched when
they are first looked at, and what the lexer has to complain about on the way is noted then. After a
complaint the parse is `recovering` until it reads a token again, and makes no further complaint
meanwhile.
-/

namespace Coupling.Java

/-- What happens during a parse, in order. -/
inductive Event where
  | enter (form : Form)
  | exit (form : Form)
  | token (t : Token)
  | skipped (t : Token)
deriving Repr, Inhabited

/-- How far a parse has come. `complaints` and `events` have the last one first. -/
structure State where
  pos : Nat
  fetched : Nat
  place : Nat
  recovering : Bool
  lastFault : Option Nat
  faultPlaces : List Nat
  complaints : List Complaint
  events : List Event
  memory : Memory
deriving Inhabited

/-- The node a parse is in. The last child comes first. -/
structure Frame where
  form : Form
  start : Token
  children : List ParseTree
  labels : List (Label × Nat)
deriving Inhabited

namespace Frame

def add (f : Frame) (t : ParseTree) : Frame := { f with children := t :: f.children }

/-- Names the child added last. -/
def name (f : Frame) (l : Option Label) : Frame :=
  match l with
  | some l => { f with labels := f.labels ++ [(l, f.children.length - 1)] }
  | none => f

def tree (f : Frame) (stop : Option Token) : ParseTree :=
  .node ⟨f.form, f.start, stop, f.labels⟩ f.children.reverse

end Frame

/-- A parse inside a node. -/
structure Run where
  frame : Frame
  state : State
deriving Inhabited

/-- Why a rule is given up. -/
inductive Failure where
  | noViable (first offending : Nat)
  | mismatch (expected : KindSet)
  | tooLow
  | exhausted
deriving Repr, Inhabited

/-- The end of a stretch of a parse. -/
inductive Outcome where
  | done (run : Run)
  | failed (why : Failure) (run : Run)
deriving Inhabited

namespace Outcome

def andThen (o : Outcome) (f : Run → Outcome) : Outcome :=
  match o with
  | .done r => f r
  | .failed w r => .failed w r

end Outcome

/-- What does not change inside a rule: the network, the source, the followers of the open calls,
and the rule with its level. -/
structure Scope where
  net : Network
  source : Source
  stack : List Nat
  rule : RuleName
  level : Nat

namespace State

/-- Fetches the tokens up to an index. -/
def fetch (source : Source) (i : Nat) (s : State) : State :=
  let last := min i (source.size - 1)
  if s.fetched ≤ last then
    let news := (List.range (last + 1 - s.fetched)).flatMap fun k =>
      (source.reading (s.fetched + k)).before.filterMap Complaint.ofPiece?
    { s with fetched := last + 1, complaints := news.reverse ++ s.complaints }
  else s

def complain (c : Complaint) (s : State) : State :=
  { s with recovering := true, complaints := c :: s.complaints }

/-- A token was read: the error is over. -/
def recovered (s : State) : State :=
  { s with recovering := false, lastFault := none, faultPlaces := [] }

def log (e : Event) (s : State) : State := { s with events := e :: s.events }

/-- The token read last. -/
def previous (source : Source) (s : State) : Option Token :=
  if s.pos = 0 then none else some (source.token (s.pos - 1))

end State

namespace Run

def onState (f : State → State) (r : Run) : Run := { r with state := f r.state }

def goTo (place : Nat) (r : Run) : Run := { r with state := { r.state with place } }

/-- The kind of the current token. -/
def kind (source : Source) (r : Run) : Kind := source.kind r.state.pos

/-- Reads the current token into the node. The end of the text can be read again. -/
def consume (source : Source) (r : Run) : Run :=
  let t := source.token r.state.pos
  let s := if t.kind = .eof then r.state
    else State.fetch source (r.state.pos + 1) { r.state with pos := r.state.pos + 1 }
  if s.recovering then ⟨r.frame.add (.skipped t), s.log (.skipped t)⟩
  else ⟨r.frame.add (.token t), s.log (.token t)⟩

/-- Reads tokens until one of `stop` or the end of the text; at most `n`. -/
def consumeUntil (source : Source) (stop : KindSet) : Nat → Run → Run
  | 0, r => r
  | n + 1, r =>
    let k := r.kind source
    if k = .eof || stop.contains k then r else consumeUntil source stop n (r.consume source)

end Run

end Coupling.Java
