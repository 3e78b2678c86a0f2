import Coupling.Java.Parsing.Recovery

/-!
# Parsing

`exec` runs the steps of a rule, and `parseRule` makes the node of a rule: a failure inside the rule
ends its steps, is reported, and leaves the node with what was read. `parse` reads a whole text.
-/

namespace Coupling.Java

/-- Takes a choice of which one alternative must be taken. -/
def Scope.choose (c : Scope) (decision : Nat) (r : Run) (go : Nat → Run → Outcome) : Outcome :=
  match c.decide decision r with
  | (.ok i, r) => go i r
  | (.error w, r) => .failed w r

/-- Takes a choice whose last alternative is to go on: `go` runs for one of the first `n`. A token
that decides nothing goes on. -/
def Scope.chooseAmong (c : Scope) (decision n : Nat) (r : Run) (go : Nat → Run → Outcome)
    (pass : Run → Outcome) : Outcome :=
  match c.decide decision r with
  | (.ok i, r) => if i < n then go i r else pass r
  | (.error w, r) =>
    if (c.net.decision decision).byToken.isSome then pass r else .failed w r

/-- Closes the node of a rule. -/
def Scope.finish (c : Scope) (o : Outcome) : ParseTree × State :=
  let r := match o with
    | .done r => r
    | .failed w r => c.recover (c.report w r)
  (r.frame.tree (r.state.previous c.source), r.state.log (.exit r.frame.form))

/-- Begins the node of a rule. -/
def Scope.begin (c : Scope) (s : State) : Run :=
  ⟨⟨.rule c.rule, c.source.token s.pos, [], []⟩, s.log (.enter (.rule c.rule))⟩

/-- Makes the node an operand of a new one. -/
def Scope.takeOperand (c : Scope) (form : Form) (r : Run) : Run :=
  let operand := r.frame.tree (r.state.previous c.source)
  ⟨⟨form, r.frame.start, [operand], []⟩, r.state.log (.enter form)⟩

/-- Runs steps, at most `fuel` of them one inside or after the other. -/
def exec (fuel : Nat) (c : Scope) (code : List Step) (r : Run) : Outcome :=
  match fuel, code with
  | 0, _ => .failed .exhausted r
  | _, [] => .done r
  | n + 1, step :: rest =>
    match step with
    | .read place next kinds only label =>
      (c.readToken place next kinds only r).andThen fun r =>
        exec n c rest { r with frame := r.frame.name label }
    | .call place next rule level label =>
      let r := r.goTo place
      let inner : Scope := { c with stack := next :: c.stack, rule, level }
      let (tree, state) := inner.finish (exec n inner (c.net.steps rule) (inner.begin r.state))
      exec n c rest ⟨(r.frame.add tree).name label, state⟩
    | .choose place decision alts =>
      (c.syncAtStart place r).andThen fun r =>
        c.choose decision r fun i r => exec n c ((alts[i]?).getD [] ++ rest) r
    | .optionally place decision alts =>
      (c.syncAtStart place r).andThen fun r =>
        c.chooseAmong decision alts.length r (fun i r => exec n c ((alts[i]?).getD [] ++ rest) r)
          (exec n c rest)
    | .many again place back decision body =>
      (if again then c.syncAtTurn back r else c.syncAtStart place r).andThen fun r =>
        c.chooseAmong decision 1 r
          (fun _ r => exec n c (body ++ .many true place back decision body :: rest) r)
          (exec n c rest)
    | .some place back decision body =>
      (c.syncAtStart place r).andThen fun r =>
        exec n c (body ++ .many true place back decision body :: rest) r
    | .become form => exec n c rest { r with frame := { r.frame with form } }
    | .climb again place back decision inner innerDecision ops =>
      (if again then c.syncAtTurn back r else c.syncAtStart place r).andThen fun r =>
        c.chooseAmong decision 1 r
          (fun _ r =>
            let r := r.onState (State.log (.exit r.frame.form))
            let take (i : Nat) (r : Run) : Outcome :=
              match ops[i]? with
              | none => .done r
              | some (form, level, guard, steps) =>
                let r := (c.takeOperand form r).goTo guard
                if c.level ≤ level then
                  exec n c
                    (steps ++ .climb true place back decision inner innerDecision ops :: rest) r
                else .failed .tooLow r
            if ops.length = 1 then take 0 r
            else (c.syncAtStart inner r).andThen fun r => c.choose innerDecision r take)
          (exec n c rest)

/-- A parse tree with all that was said and done while it was made. `next` is the first token that
was left. -/
structure Parsed where
  tree : ParseTree
  complaints : List Complaint
  events : List Event
  next : Token
deriving Inhabited

/-- A parser: a network and what is known of its decisions. -/
structure Engine where
  net : Network
  memory : Memory
deriving Inhabited

namespace Engine

def ofNetwork (net : Network) : Engine := ⟨net, .ofNetwork net⟩

/-- Long enough for every parse of a source: a token is read after a bounded number of steps. -/
def fuelFor (e : Engine) (source : Source) : Nat := (source.size + 2) * (e.net.places.size + 2)

/-- Parses a source from a rule that nothing calls. -/
def parseRule (e : Engine) (rule : RuleName) (source : Source) : Parsed :=
  let c : Scope := ⟨e.net, source, [], rule, 0⟩
  let s : State := ⟨0, 0, rule.start, false, none, [], [], [], e.memory⟩
  let s := s.fetch source 0
  let (tree, s) := c.finish (exec (e.fuelFor source) c (e.net.steps rule) (c.begin s))
  ⟨tree, s.complaints.reverse, s.events.reverse, source.token s.pos⟩

end Engine

/-- The parser of Java. -/
def javaEngine : Engine := .ofNetwork javaNetwork

/-- Parses a text from a rule. -/
def parseFrom (rule : RuleName) (text : String) : Parsed :=
  javaEngine.parseRule rule (.ofText text)

/-- Parses a compilation unit. -/
def parse (text : String) : Parsed := parseFrom .compilationUnit text

end Coupling.Java
