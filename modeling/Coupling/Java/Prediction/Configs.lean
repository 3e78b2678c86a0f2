import Std.Data.HashMap
import Std.Data.HashSet
import Coupling.Java.Grammar.Network
import Coupling.Java.Prediction.Stacks

/-!
# Configurations

A configuration is one way in which the text read so far may have gone: the alternative it began
with, the place it has come to, and the call stacks it may be in. A `Configs` keeps one
configuration for each alternative, place and asked level, uniting the stacks. `close` adds every
configuration that can be reached without reading.
-/

namespace Coupling.Java

/-- A way the text may have gone. `guard` is a level still to be asked for, `outside` says that the
rule of the decision has been left, and `kept` that it was left from an outermost call. -/
structure Config where
  place : Nat
  alt : Nat
  callers : Nat
  guard : Option Nat
  outside : Bool
  kept : Bool
deriving DecidableEq, Repr, Inhabited

/-- What makes two configurations one: the place, the alternative and the level. -/
def Config.key (c : Config) : Nat × Nat × Option Nat := (c.place, c.alt, c.guard)

/-- Configurations in order of arrival. -/
structure Configs where
  items : Array Config
  numbers : Std.HashMap (Nat × Nat × Option Nat) Nat
deriving Inhabited

namespace Configs

def empty : Configs := ⟨#[], ∅⟩
def isEmpty (s : Configs) : Bool := s.items.isEmpty

/-- Adds a configuration, or unites its stacks with those of the one already there. -/
def add (anyCaller : Bool) (pool : Pool) (s : Configs) (c : Config) : Configs × Pool :=
  match s.numbers[c.key]? with
  | none => (⟨s.items.push c, s.numbers.insert c.key s.items.size⟩, pool)
  | some i =>
    match s.items[i]? with
    | none => (s, pool)
    | some old =>
      let (callers, pool) := pool.union anyCaller old.callers c.callers
      let both :=
        { old with callers, outside := old.outside || c.outside, kept := old.kept || c.kept }
      (⟨s.items.setIfInBounds i both, s.numbers⟩, pool)

/-- Adds configurations one after the other. -/
def addAll (anyCaller : Bool) (cs : List Config) (s : Configs) (pool : Pool) : Configs × Pool :=
  cs.foldl (fun (acc : Configs × Pool) c => acc.1.add anyCaller acc.2 c) (s, pool)

/-- The alternative all configurations agree on. -/
def uniqueAlt? (s : Configs) : Option Nat :=
  match s.items[0]? with
  | none => none
  | some c => if s.items.all fun d => d.alt == c.alt then some c.alt else none

/-- The least of some alternatives. -/
def leastAlt? (cs : List Config) : Option Nat := (cs.map Config.alt).min?

/-- For each place and stack set, the least and the greatest alternative that reached it. -/
def ranges (s : Configs) : Std.HashMap (Nat × Nat) (Nat × Nat) :=
  s.items.foldl (fun m c =>
    let k := (c.place, c.callers)
    match m[k]? with
    | some (lo, hi) => m.insert k (min lo c.alt, max hi c.alt)
    | none => m.insert k (c.alt, c.alt)) ∅

/-- Whether some place was reached by one alternative only. -/
def hasPlaceOfOneAlt (s : Configs) : Bool :=
  let m : Std.HashMap Nat (Nat × Nat) := s.items.foldl (fun m c =>
    match m[c.place]? with
    | some (lo, hi) => m.insert c.place (min lo c.alt, max hi c.alt)
    | none => m.insert c.place (c.alt, c.alt)) ∅
  m.any fun _ r => r.1 == r.2

/-- Whether two alternatives have come to the same place with the same stacks. -/
def conflicts (s : Configs) : Bool := s.ranges.any fun _ r => r.1 != r.2

/-- The one alternative that is least at every place and stack set, if there is one. -/
def soleViable? (s : Configs) : Option Nat :=
  match leastAlt? s.items.toList with
  | none => none
  | some a => if s.ranges.all fun _ r => r.1 == a then some a else none

end Configs

/-! ## What is reached without reading -/

/-- How configurations are closed. `full` says that the stacks are exact, `pastEnd` that the end of
the text has been read and may be read again, `level` is that of the rule in which the decision
stands, and `climbing` the rule whose loop the decision is. -/
structure Closing where
  net : Network
  full : Bool
  pastEnd : Bool
  level : Nat
  climbing : Option RuleName

/-- Configurations under way: those found, and those met after leaving a rule. -/
structure Work where
  pool : Pool
  met : Std.HashSet (Nat × Nat × Nat × Option Nat × Bool)
  found : Configs
deriving Inhabited

namespace Work

def add (k : Closing) (w : Work) (c : Config) : Work :=
  let (found, pool) := w.found.add (!k.full) w.pool c
  { w with found, pool }

/-- Goes on from a configuration unless it was met before. -/
def visit (recur : Config → Work → Work) (c : Config) (w : Work) : Work :=
  let key := (c.place, c.alt, c.callers, c.guard, c.kept)
  if w.met.contains key then w else recur c { w with met := w.met.insert key }

end Work

/-- Whether every stack of a set returns to the end of a primary or operator of the climbing rule
whose loop is entered at `c.place`. Entering the loop anew is then of no use: the caller's loop
reads the same operators. -/
def returnsToLoop (k : Closing) (pool : Pool) (c : Config) : Bool :=
  match k.net.climbs.find? fun cl => cl.entry == c.place with
  | none => false
  | some cl =>
    let n := pool.node c.callers
    !n.bottom && !n.frames.isEmpty && n.frames.all fun f =>
      f.1 == cl.primaryEnd || f.1 == cl.operatorEnd ||
        (match k.net.edges f.1 with
          | [.free t] => t == cl.primaryEnd || t == cl.operatorEnd
          | _ => false)

/-- The level asked for when two are. -/
def bothLevels (a : Option Nat) (b : Nat) : Option Nat :=
  match a with
  | some a => some (min a b)
  | none => some b

/-- Whether a place keeps its configurations: one reads there, or nothing follows. -/
def keepsConfigs (net : Network) (p : Nat) : Bool :=
  if net.isStop p then (net.followers p).isEmpty
  else match net.edges p with
    | .read _ _ :: _ => true
    | [] => true
    | _ => false

/-- The configuration after a call of the rule that stops at its place, whatever is below that
call. -/
def Config.hop (k : Closing) (c : Config) (f : Nat × Bool) : Config :=
  { c with
    place := f.1, callers := 0, outside := true
    kept := c.kept || (f.2 && (match k.climbing with
      | some r => r.stop == c.place
      | none => false)) }

/-- The configuration after the call on top of its stacks. -/
def Config.pop (c : Config) (f : Nat × Nat) : Config :=
  { c with place := f.1, callers := f.2, kept := false }

/-- Goes on from a configuration along an edge that reads nothing. -/
def followEdge (k : Closing) (recur : Bool → Int → Config → Work → Work)
    (collect : Bool) (depth : Int) (c : Config) (w : Work) : Edge → Work
  | .free t => recur collect depth { c with place := t } w
  | .read ks t =>
    if k.pastEnd && ks.contains .eof then w.visit (recur collect depth) { c with place := t } else w
  | .call r _ follow =>
    let (callers, pool) := w.pool.push follow c.callers
    recur collect (if 0 ≤ depth then depth + 1 else depth) { c with place := r.start, callers }
      { w with pool }
  | .atLevel l t =>
    if collect && depth == 0 then
      if k.full then
        if k.level ≤ l then recur collect depth { c with place := t } w else w
      else recur collect depth { c with place := t, guard := bothLevels c.guard l } w
    else recur collect depth { c with place := t } w

/-- The edges along which a configuration goes on. -/
def onward (k : Closing) (pool : Pool) (c : Config) : List Edge :=
  if returnsToLoop k pool c then (k.net.edges c.place).drop 1 else k.net.edges c.place

/-- Goes on from a configuration along every edge that reads nothing. -/
def expand (k : Closing) (recur : Bool → Int → Config → Work → Work)
    (collect : Bool) (depth : Int) (c : Config) (w : Work) : Work :=
  let w := if keepsConfigs k.net c.place then w.add k c else w
  if k.net.isStop c.place then
    (k.net.followers c.place).foldl (fun w f => w.visit (recur collect (depth - 1)) (c.hop k f)) w
  else (onward k w.pool c).foldl (followEdge k recur collect depth c) w

/-- Adds a configuration and all that it reaches without reading. `depth` counts the calls open
since the decision, and levels are asked for only while `collect` holds. The first number bounds the
length of a path. -/
def closeUpTo (k : Closing) : Nat → Bool → Int → Config → Work → Work
  | 0, _, _, _, w => w
  | n + 1, collect, depth, c, w =>
    if k.net.isStop c.place then
      let node := w.pool.node c.callers
      let w := node.frames.foldl (fun w f => closeUpTo k n collect (depth - 1) (c.pop f) w) w
      if node.bottom then
        if k.full then w.add k { c with callers := 0 }
          else expand k (closeUpTo k n) collect depth c w
      else w
    else expand k (closeUpTo k n) collect depth c w

/-- Long enough for every path without reading: back through the stacks of a pool, and then from one
caller to the next. -/
def pathBound (net : Network) (pool : Pool) : Nat :=
  (net.places.size + 2) * (net.places.size + pool.nodes.size + 2)

def close (k : Closing) (collect : Bool) (c : Config) (w : Work) : Work :=
  closeUpTo k (pathBound k.net w.pool) collect 0 c w

end Coupling.Java
