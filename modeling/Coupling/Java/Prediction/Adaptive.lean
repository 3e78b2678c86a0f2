import Coupling.Java.Prediction.Configs
import Coupling.Java.Token

/-!
# Adaptive prediction

Which alternative of a decision the coming tokens select. Prediction first reads on without regard
to the callers. When one alternative is left, it is chosen. When several have come to the same
places with the same stacks, prediction starts over with the exact call stack and reads until one
alternative is left or the least one is viable everywhere. When no alternative can read the next
token, the least one that had already left the rule of the decision is chosen, and otherwise there
is no viable one.
-/

namespace Coupling.Java

/-- What prediction keeps between decisions: stack sets, and for each decision the configurations
before any token. -/
structure Memory where
  pool : Pool
  starts : Array Configs
deriving Inhabited

/-- The alternative predicted and the last token looked at; or the token at which no alternative
could go on. -/
inductive Verdict where
  | choose (alt : Nat) (reached : Nat)
  | noViable (offending : Nat) (reached : Nat)
deriving Repr, Inhabited

namespace Prediction

/-- The configurations of each alternative before any token, alternatives counted from 1. -/
def start (k : Closing) (targets : List Nat) (callers : Nat) (pool : Pool) : Configs × Pool :=
  let w := (targets.zipIdx 1).foldl (fun (w : Work) t =>
    close k true ⟨t.1, t.2, callers, none, false, false⟩ { w with met := ∅ }) ⟨pool, ∅, .empty⟩
  (w.found, w.pool)

/-- Whether the decision is the loop of a climbing rule. -/
def climbingRule (net : Network) (d : Decision) : Option RuleName :=
  if net.climbs.any fun c => c.entry == d.place then some d.rule else none

/-- Applies the level to the configurations before any token of a climbing loop: those that enter
the loop at too low a level go, and those that leave it go where entering does the same. -/
def filterByLevel (level : Nat) (s : Configs) (pool : Pool) : Configs × Pool :=
  let entering := s.items.toList.filterMap fun c =>
    if c.alt == 1 then
      match c.guard with
      | some l => if level ≤ l then some { c with guard := none } else none
      | none => some c
    else none
  let leaving := s.items.toList.filter fun c =>
    c.alt != 1 && (c.kept ||
      !(match entering.reverse.find? fun e => e.place == c.place with
        | some e => e.callers == c.callers
        | none => false))
  Configs.addAll true (entering ++ leaving) .empty pool

/-- What a configuration becomes by reading a token. -/
def moves (net : Network) (kind : Kind) (c : Config) : List Config :=
  if net.isStop c.place then []
  else (net.edges c.place).filterMap fun
    | .read ks t => if ks.contains kind then some { c with place := t } else none
    | _ => none

/-- Closes configurations one after the other. -/
def closeAll (k : Closing) (s : Configs) (pool : Pool) : Configs × Pool :=
  let w := s.items.foldl (fun w c => close k false c w) ⟨pool, ∅, .empty⟩
  (w.found, w.pool)

/-- The configurations at which a rule stops. -/
def stops (net : Network) (s : Configs) : List Config :=
  s.items.toList.filter fun c => net.isStop c.place

/-- The configurations after a token. -/
def advance (k : Closing) (s : Configs) (kind : Kind) (pool : Pool) : Configs × Pool :=
  let atEnd := kind == .eof
  let k := { k with pastEnd := atEnd }
  let stopped := if k.full || atEnd then stops k.net s else []
  let (moved, pool) := Configs.addAll (!k.full)
    (s.items.toList.flatMap (moves k.net kind)) .empty pool
  let settled := stopped.isEmpty && !atEnd && moved.uniqueAlt?.isSome
  let (reached, pool) := if settled then (moved, pool) else closeAll k moved pool
  let (reached, pool) := if atEnd then Configs.addAll (!k.full) (stops k.net reached) .empty pool
    else (reached, pool)
  if k.full && !(stops k.net reached).isEmpty then (reached, pool)
  else Configs.addAll (!k.full) stopped reached pool

/-- The least alternative that left the rule of the decision, levels that hold before those that
do not. -/
def finished? (net : Network) (pool : Pool) (level : Nat) (s : Configs) : Option Nat :=
  let done := s.items.toList.filter fun c =>
    c.outside || (net.isStop c.place && (pool.node c.callers).bottom)
  let holds (c : Config) : Bool := match c.guard with
    | some l => level ≤ l
    | none => true
  match Configs.leastAlt? (done.filter holds) with
  | some a => some a
  | none => Configs.leastAlt? (done.filter fun c => !holds c)

/-- The alternatives among `alts` whose asked levels hold; none when no level is asked for. An
alternative that can do without a level needs none. -/
def byLevel (level : Nat) (s : Configs) (alts : List Nat) : Option (List Nat) :=
  if s.items.any fun c => alts.contains c.alt && c.guard.isSome then
    let guards (a : Nat) := (s.items.toList.filter fun c => c.alt == a).map Config.guard
    let free (a : Nat) : Bool := (guards a).any Option.isNone
    if alts.all free then none
    else some (alts.filter fun a => free a || (guards a).any fun
      | some l => decide (level ≤ l)
      | none => true)
  else none

/-- Reads on with the exact call stack. -/
def exact (k : Closing) (source : Source) : Nat → Configs → Nat → Pool → Verdict × Pool
  | 0, _, i, pool => (.noViable i i, pool)
  | n + 1, s, i, pool =>
    let kind := source.kind i
    let (reached, pool) := advance k s kind pool
    if reached.isEmpty then
      match finished? k.net pool k.level s with
      | some a => (.choose a i, pool)
      | none => (.noViable i i, pool)
    else
      match reached.uniqueAlt? with
      | some a => (.choose a i, pool)
      | none =>
        match reached.soleViable? with
        | some a => (.choose a i, pool)
        | none => exact k source n reached (if kind == .eof then i else i + 1) pool

/-- Where a decision is taken. -/
structure Situation where
  net : Network
  source : Source
  first : Nat
  decision : Decision
  stack : List Nat
  level : Nat

/-- Starts over with the exact call stack. -/
def restart (q : Situation) (pool : Pool) : Verdict × Pool :=
  let k : Closing := ⟨q.net, true, false, q.level, climbingRule q.net q.decision⟩
  let (callers, pool) := pool.ofStack q.stack
  let (s, pool) := start k q.decision.targets callers pool
  exact k q.source (q.source.size + 2) s q.first pool

/-- Reads on without regard to the callers. -/
def withoutCallers (k : Closing) (q : Situation) : Nat → Configs → Nat → Pool → Verdict × Pool
  | 0, _, i, pool => (.noViable i i, pool)
  | n + 1, s, i, pool =>
    let kind := q.source.kind i
    let (reached, pool) := advance k s kind pool
    if reached.isEmpty then
      match finished? q.net pool q.level s with
      | some a => (.choose a i, pool)
      | none => (.noViable i i, pool)
    else
      match reached.uniqueAlt? with
      | some a =>
        match byLevel q.level reached [a] with
        | none => (.choose a i, pool)
        | some [] => (.noViable q.first i, pool)
        | some _ => (.choose a i, pool)
      | none =>
        let allStop := reached.items.all fun c => q.net.isStop c.place
        if allStop || (reached.conflicts && !reached.hasPlaceOfOneAlt) then
          let alts := (reached.items.toList.map Config.alt).eraseDups
          match byLevel q.level reached alts with
          | some [a] => (.choose a i, pool)
          | _ =>
            match restart q pool with
            | (.choose a j, pool) => (.choose a (max i j), pool)
            | (.noViable o j, pool) => (.noViable o (max i j), pool)
        else withoutCallers k q n reached (if kind == .eof then i else i + 1) pool

end Prediction

open Prediction in
/-- The configurations of every decision before any token, without regard to the callers. -/
def Memory.ofNetwork (net : Network) : Memory :=
  net.decisions.foldl (fun (m : Memory) d =>
    let k : Closing := ⟨net, false, false, 0, climbingRule net d⟩
    let (s, pool) := start k d.targets 0 m.pool
    { pool, starts := m.starts.push s }) ⟨.initial, #[]⟩

open Prediction in
/-- The alternative that the tokens from `first` on select at a decision, inside the calls whose
followers are `stack` and at the level of the rule. -/
def predict (net : Network) (source : Source) (first decision : Nat) (stack : List Nat)
    (level : Nat) (memory : Memory) : Verdict × Memory :=
  let d := net.decision decision
  let q : Situation := ⟨net, source, first, d, stack, level⟩
  let k : Closing := ⟨net, false, false, level, climbingRule net d⟩
  let s := (memory.starts[decision]?).getD .empty
  let (s, pool) := if k.climbing.isSome then filterByLevel level s memory.pool else (s, memory.pool)
  let (v, pool) := withoutCallers k q (source.size + 2) s first pool
  (v, { memory with pool })

end Coupling.Java
