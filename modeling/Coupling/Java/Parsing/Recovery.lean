import Coupling.Java.Parsing.State

/-!
# Error recovery

What a parse does when the current token does not fit. Where a token is wanted, one superfluous
token in front of it is skipped, or a single missing one is made up. Where a choice or a loop
begins, a token that cannot come there is skipped if the next one can. At the end of a turn of a
loop, tokens are skipped up to one that can follow. Where nothing helps, the rule is given up, and
its caller goes on after the tokens are skipped up to one at which some open call can go on.
-/

namespace Coupling.Java

namespace Scope

/-- The tokens expected at a place. -/
def expectedAt (c : Scope) (place : Nat) : KindSet := c.net.expected (c.net.look place) c.stack

/-- The tokens expected at the current place. -/
def expected (c : Scope) (r : Run) : KindSet := c.expectedAt r.state.place

def current (c : Scope) (r : Run) : Token := c.source.token r.state.pos

/-- Complains, unless the parse is recovering already. -/
def complain (c : Scope) (f : Fault) (r : Run) : Run :=
  if r.state.recovering then r else r.onState (State.complain (.atToken (c.current r) f))

/-- Complains that the current token should not be there. -/
def unwanted (c : Scope) (r : Run) : Run :=
  c.complain (.extraneous (c.current r).shown (c.expected r)) r

/-- Skips the current token if the next one is expected here. -/
def skipOne? (c : Scope) (r : Run) : Bool × Run :=
  let r := r.onState (State.fetch c.source (r.state.pos + 1))
  if (c.expected r).contains (c.source.kind (r.state.pos + 1)) then
    (true, ((c.unwanted r).consume c.source).onState State.recovered)
  else (false, r)

/-- Gives up at the current token. -/
def giveUp (c : Scope) (r : Run) : Outcome := .failed (.mismatch (c.expected r)) r

/-- Gets over a token that is not of the wanted kinds: skips it, or makes up the wanted one when the
current token can come after it. A made-up token is a leaf if its kind is known. -/
def bridge (c : Scope) (next : Nat) (only : Option Kind) (r : Run) : Outcome :=
  match c.skipOne? r with
  | (true, r) => .done (r.consume c.source)
  | (false, r) =>
    if (c.expectedAt next).contains (r.kind c.source) then
      let r := c.complain (.missing (c.expected r) (c.current r).shown) r
      match only with
      | some k => .done { r with frame := r.frame.add (.missing k) }
      | none => .done r
    else c.giveUp r

/-- Reads a token of the wanted kinds. -/
def readToken (c : Scope) (place next : Nat) (kinds : KindSet) (only : Option Kind) (r : Run) :
    Outcome :=
  let r := r.goTo place
  if kinds.contains (r.kind c.source) then .done ((r.onState State.recovered).consume c.source)
  else c.bridge next only r

/-- Checks that the current token can come where a choice or loop begins. -/
def syncAtStart (c : Scope) (place : Nat) (r : Run) : Outcome :=
  let r := r.goTo place
  let look := c.net.look place
  if r.state.recovering || look.kinds.contains (r.kind c.source) || look.ends then .done r
  else
    match c.skipOne? r with
    | (true, r) => .done r
    | (false, r) => c.giveUp r

/-- Checks that the current token can come after a turn of a loop, and skips those that cannot. -/
def syncAtTurn (c : Scope) (place : Nat) (r : Run) : Outcome :=
  let r := r.goTo place
  let look := c.net.look place
  if r.state.recovering || look.kinds.contains (r.kind c.source) || look.ends then .done r
  else
    let r := c.unwanted r
    .done (r.consumeUntil c.source ((c.expected r).union (c.net.resumption c.stack)) c.source.size)

/-- The number of the alternative to take, counted from 0. -/
def decide (c : Scope) (decision : Nat) (r : Run) : Except Failure Nat × Run :=
  match (c.net.decision decision).byToken with
  | some sets =>
    match sets.findIdx? fun s => s.contains (r.kind c.source) with
    | some i => (.ok i, r)
    | none => (.error (.noViable r.state.pos r.state.pos), r)
  | none =>
    let (v, memory) := predict c.net c.source r.state.pos decision c.stack c.level r.state.memory
    let r := { r with state := { r.state with memory } }
    match v with
    | .choose alt reached => (.ok (alt - 1), r.onState (State.fetch c.source reached))
    | .noViable offending reached =>
      (.error (.noViable r.state.pos offending), r.onState (State.fetch c.source reached))

/-- Says why a rule is given up, unless the parse is recovering already. -/
def report (c : Scope) (why : Failure) (r : Run) : Run :=
  if r.state.recovering then r
  else
    match why with
    | .noViable first offending =>
      let text := if c.source.kind first = .eof then "<EOF>" else c.source.span first offending
      let r := r.onState (State.fetch c.source c.source.size)
      r.onState (State.complain (.atToken (c.source.token offending) (.noViable text)))
    | .mismatch expected => c.complain (.mismatched (c.current r).shown expected) r
    | .tooLow => c.complain (.tooLow c.rule.name) r
    | .exhausted => r

/-- Skips to a token at which some open call can go on. A second fault at the same token and place
skips at least one. -/
def recover (c : Scope) (r : Run) : Run :=
  let r := if r.state.lastFault = some r.state.pos ∧ r.state.place ∈ r.state.faultPlaces
    then r.consume c.source else r
  let r := r.onState fun s =>
    { s with lastFault := some s.pos, faultPlaces := s.place :: s.faultPlaces }
  r.consumeUntil c.source (c.net.resumption c.stack) c.source.size

end Scope

end Coupling.Java
