import Coupling.Java.Grammar.Rules

/-!
# The transition network of a grammar

A grammar is laid out as a network of places. Each rule has a place where it starts and one where it
stops; in between, an edge reads a token, calls a rule and goes on at the place that follows the
call, asks for a level, or is free. The network answers what can come next at a place, which is what
prediction and error recovery are about. Beside it stands the `code` of each rule: the same elements
as steps for a parser, each with the place at which it is taken.

A choice is a `Decision`. Where the tokens that can begin its alternatives are disjoint sets, the
next token decides, and the decision carries these sets.
-/

namespace Coupling.Java

/-- How one gets on from a place. -/
inductive Edge where
  | free (target : Nat)
  | read (kinds : KindSet) (target : Nat)
  | call (rule : RuleName) (level : Nat) (follow : Nat)
  | atLevel (level : Nat) (target : Nat)
deriving Repr, Inhabited

/-- A place in the network. -/
structure Place where
  rule : RuleName
  edges : List Edge
deriving Repr, Inhabited

/-- What a parser does at a place. A loop is entered once and then taken `again` from the place at
its end. -/
inductive Step where
  | read (place next : Nat) (kinds : KindSet) (only : Option Kind) (label : Option Label)
  | call (place next : Nat) (rule : RuleName) (level : Nat) (label : Option Label)
  | choose (place decision : Nat) (alts : List (List Step))
  | optionally (place decision : Nat) (alts : List (List Step))
  | many (again : Bool) (place back decision : Nat) (body : List Step)
  | some (place back decision : Nat) (body : List Step)
  | become (form : Form)
  | climb (again : Bool) (place back decision inner innerDecision : Nat)
      (ops : List (Form × Nat × Nat × List Step))
deriving Repr, Inhabited

/-- A choice between the places in `targets`. Where the tokens that begin them are disjoint sets,
`byToken` holds these sets, one for each target. -/
structure Decision where
  place : Nat
  targets : List Nat
  rule : RuleName
  byToken : Option (List KindSet)
deriving Repr, Inhabited

/-- The tokens that can be read next inside a rule, and whether the rule can end here. -/
structure Look where
  kinds : KindSet
  ends : Bool
deriving DecidableEq, Repr, Inhabited

/-- Where the loop of a climbing rule is entered, and the ends of its primaries and operators. -/
structure Climb where
  entry : Nat
  primaryEnd : Nat
  operatorEnd : Nat
deriving Repr, Inhabited

/-! ## Laying out -/

/-- What has been laid out so far. -/
structure Layout where
  places : Array Place
  decisions : Array Decision
  climbs : List Climb
deriving Inhabited

/-- Laying out one rule. -/
abbrev Build := ReaderT RuleName (StateM Layout)

namespace Build

/-- A new place. -/
def place (edges : List Edge) : Build Nat := fun r l =>
  (l.places.size, { l with places := l.places.push ⟨r, edges⟩ })

/-- Gives a place its edges. -/
def connect (p : Nat) (edges : List Edge) : Build Unit := fun r l =>
  ((), { l with places := l.places.setIfInBounds p ⟨r, edges⟩ })

/-- A new decision. -/
def decision (p : Nat) (targets : List Nat) : Build Nat := fun r l =>
  (l.decisions.size, { l with decisions := l.decisions.push ⟨p, targets, r, none⟩ })

def climbing (c : Climb) : Build Unit := fun _ l => ((), { l with climbs := c :: l.climbs })

end Build

mutual

/-- Whether every way through an element calls a rule. -/
def Element.calls : Element → Bool
  | .token _ => false
  | .oneOf _ => false
  | .call _ _ => true
  | .labelled _ e => e.calls
  | .choice alts => allCall alts
  | .optional _ => false
  | .many _ => false
  | .some alts => allCall alts

/-- Whether every way through a sequence calls a rule. -/
def seqCalls : List Element → Bool
  | [] => false
  | e :: es => e.calls || seqCalls es

def allCall : List (List Element) → Bool
  | [] => true
  | a :: as => seqCalls a && allCall as

end

/-- Whether an element is a call, labelled or not. -/
def Element.isCall : Element → Bool
  | .call _ _ => true
  | .labelled _ e => e.isCall
  | _ => false

/-- Whether a sequence ends in a call that can only be reached through another call. Such a call
returns to a place of its own, any other last call to the end of the block. -/
def endsApart (parts : List Element) : Bool :=
  match parts.reverse with
  | last :: front => last.isCall && seqCalls front
  | [] => false

mutual

/-- Lays out an element that is followed by `next`; gives the place where it starts. -/
def Element.layOut (label : Option Label) : Element → Nat → Build (Nat × Step)
  | .token k, next => do
    let p ← Build.place [.read (.single k) next]
    return (p, .read p next (.single k) (some k) label)
  | .oneOf ks, next => do
    let p ← Build.place [.read (.ofList ks) next]
    return (p, .read p next (.ofList ks) none label)
  | .call r level, next => do
    let p ← Build.place [.call r level next]
    return (p, .call p next r level label)
  | .labelled l e, next => e.layOut (some l) next
  | .choice alts, next => do
    let stop ← Build.place [.free next]
    let branches ← layOutAlts alts stop
    let start ← Build.place (branches.map fun b => .free b.1)
    let d ← Build.decision start (branches.map (·.1))
    return (start, .choose start d (branches.map (·.2)))
  | .optional alts, next => do
    let stop ← Build.place [.free next]
    let branches ← layOutAlts alts stop
    let start ← Build.place (branches.map (fun b => Edge.free b.1) ++ [.free stop])
    let d ← Build.decision start (branches.map (·.1) ++ [stop])
    return (start, .optionally start d (branches.map (·.2)))
  | .many alts, next => do
    let exit ← Build.place [.free next]
    let entry ← Build.place []
    let back ← Build.place [.free entry]
    let stop ← Build.place [.free back]
    let branches ← layOutAlts alts stop
    let start ← Build.place (branches.map fun b => .free b.1)
    Build.connect entry [.free start, .free exit]
    let d ← Build.decision entry [start, exit]
    let body ← blockBody start branches
    return (entry, .many false entry back d body)
  | .some alts, next => do
    let exit ← Build.place [.free next]
    let back ← Build.place []
    let stop ← Build.place [.free back]
    let branches ← layOutAlts alts stop
    let start ← Build.place (branches.map fun b => .free b.1)
    Build.connect back [.free start, .free exit]
    let d ← Build.decision back [start, exit]
    let body ← blockBody start branches
    return (start, .some start back d body)

/-- Lays out a sequence from its end. -/
def layOutSeq : List Element → Nat → Build (Nat × List Step)
  | [], next => return (next, [])
  | e :: es, next => do
    let (n, rest) ← layOutSeq es next
    let (p, s) ← e.layOut none n
    return (p, s :: rest)

/-- Lays out the alternatives of a block that ends at `stop`. -/
def layOutAlts : List (List Element) → Nat → Build (List (Nat × List Step))
  | [], _ => return []
  | a :: as, stop => do
    let next ← if endsApart a then Build.place [.free stop] else pure stop
    let b ← layOutSeq a next
    let bs ← layOutAlts as stop
    return b :: bs

/-- The steps of one turn of a loop: its only alternative, or a choice among several. -/
def blockBody (start : Nat) (branches : List (Nat × List Step)) : Build (List Step) := do
  match branches with
  | [b] => return b.2
  | _ =>
    let d ← Build.decision start (branches.map (·.1))
    return [.choose start d (branches.map (·.2))]

end

/-- The place where a rule starts. -/
def RuleName.start (r : RuleName) : Nat := 2 * r.index

/-- The place where a rule stops. -/
def RuleName.stop (r : RuleName) : Nat := 2 * r.index + 1

/-- Lays out one branch of a climbing rule. -/
def layOutBranch (parts : List Element) (stop : Nat) : Build (Nat × List Step) := do
  let next ← if endsApart parts then Build.place [.free stop] else pure stop
  layOutSeq parts next

/-- Lays out the operators of a climbing rule; gives the place where one of them is chosen, and for
each its form and level, the place that asks for the level, and its steps. -/
def layOutOperators (operators : List Operator) (stop : Nat) :
    Build (Nat × List (Form × Nat × Nat × List Step)) := do
  let ops ← operators.mapM fun o => do
    let (first, steps) ← layOutBranch o.parts stop
    let g ← Build.place [.atLevel o.level first]
    return (o.form, o.level, g, steps)
  let inner ← Build.place (ops.map fun o => .free o.2.2.1)
  return (inner, ops)

/-- Lays out the loop of a climbing rule; gives the place where it is entered and the end of its
operators. -/
def layOutLoop (operators : List Operator) (next : Nat) : Build (Nat × Nat × Step) := do
  let exit ← Build.place [.free next]
  let entry ← Build.place []
  let back ← Build.place [.free entry]
  let operatorEnd ← Build.place [.free back]
  let (inner, ops) ← layOutOperators operators operatorEnd
  Build.connect entry [.free inner, .free exit]
  let innerDecision ← Build.decision inner (ops.map fun o => o.2.2.1)
  let loop ← Build.decision entry [inner, exit]
  return (entry, operatorEnd, .climb false entry back loop inner innerDecision ops)

/-- Lays out the primaries of a climbing rule; gives the place where one of them is chosen. -/
def layOutPrimaries (primaries : List Primary) (stop : Nat) : Build (Nat × Step) := do
  let prims ← primaries.mapM fun p => do
    let (first, steps) ← layOutBranch p.parts stop
    return (first, Step.become p.form :: steps)
  let start ← Build.place (prims.map fun p => .free p.1)
  let d ← Build.decision start (prims.map (·.1))
  return (start, .choose start d (prims.map (·.2)))

/-- Lays out a rule between its start and its stop. -/
def Production.layOut (p : Production) : Build (List Step) := do
  let r ← read
  match p with
  | .plain [parts] =>
    let stop ← Build.place [.free r.stop]
    let (first, steps) ← layOutSeq parts stop
    Build.connect r.start [.free first]
    return steps
  | .plain alts =>
    let (first, step) ← (Element.choice alts).layOut none r.stop
    Build.connect r.start [.free first]
    return [step]
  | .climbing primaries operators =>
    let (entry, operatorEnd, loop) ← layOutLoop operators r.stop
    let primaryEnd ← Build.place [.free entry]
    let (start, choice) ← layOutPrimaries primaries primaryEnd
    Build.connect r.start [.free start]
    Build.climbing ⟨entry, primaryEnd, operatorEnd⟩
    return [choice, loop]

/-! ## What can come next -/

/-- One pass that recomputes every entry of a table, using those already recomputed. -/
def pass {α : Type} (f : Array α → Nat → α) (xs : Array α) : Array α :=
  (List.range xs.size).foldl (fun xs i => xs.setIfInBounds i (f xs i)) xs

/-- Repeats passes until nothing changes, at most `n` times. -/
def settle {α : Type} [DecidableEq α] (f : Array α → Nat → α) : Nat → Array α → Array α
  | 0, xs => xs
  | n + 1, xs =>
    let ys := pass f xs
    if ys = xs then xs else settle f n ys

def lookAt (looks : Array Look) (p : Nat) : Look := (looks[p]?).getD ⟨.empty, false⟩

namespace Look

def union (a b : Look) : Look := ⟨a.kinds.union b.kinds, a.ends || b.ends⟩

/-- What an edge contributes to the look of its place. -/
def edge (looks : Array Look) : Edge → Look
  | .free t => lookAt looks t
  | .read ks _ => ⟨ks, false⟩
  | .atLevel _ t => lookAt looks t
  | .call r _ follow =>
    let inside := lookAt looks r.start
    if inside.ends then ⟨inside.kinds.union (lookAt looks follow).kinds, (lookAt looks follow).ends⟩
    else inside

end Look

/-- The look of every place. A rule can end where it stops. -/
def looksOf (places : Array Place) : Array Look :=
  let stops := RuleName.all.map RuleName.stop
  settle (fun looks i =>
    if i < 2 * RuleName.all.length ∧ i % 2 = 1 then ⟨.empty, true⟩
    else match places[i]? with
      | some p => p.edges.foldl (fun l e => l.union (Look.edge looks e)) ⟨.empty, false⟩
      | none => ⟨.empty, false⟩)
    (places.size + stops.length) (places.map fun _ => ⟨.empty, false⟩)

/-- The places that follow the calls of each rule; a call at level 0 is outermost. -/
def callersOf (places : Array Place) : Array (List (Nat × Bool)) :=
  let calls := places.toList.flatMap fun p => p.edges.filterMap fun
    | .call r level follow => some (r, follow, level == 0)
    | _ => none
  (RuleName.all.map fun r => calls.filterMap fun c => if c.1 = r then some c.2 else none).toArray

/-- The tokens that can come at a place whatever called its rule, and whether a level is asked for
on the way. -/
structure Wide where
  kinds : KindSet
  guarded : Bool
deriving DecidableEq, Repr, Inhabited

def wideAt (ws : Array Wide) (p : Nat) : Wide := (ws[p]?).getD ⟨.empty, false⟩

namespace Wide

def union (a b : Wide) : Wide := ⟨a.kinds.union b.kinds, a.guarded || b.guarded⟩

/-- What an edge contributes. The tokens inside a called rule do not depend on its callers, but an
asked level inside it counts. -/
def edge (looks : Array Look) (inner : Array Wide) (ws : Array Wide) : Edge → Wide
  | .free t => wideAt ws t
  | .read ks _ => ⟨ks, false⟩
  | .atLevel _ _ => ⟨.empty, true⟩
  | .call r _ follow =>
    let inside := wideAt inner r.start
    if (lookAt looks r.start).ends then inside.union (wideAt ws follow) else inside

end Wide

/-- `Wide` inside a rule alone. -/
def innerWides (places : Array Place) (looks : Array Look) : Array Wide :=
  settle (fun ws i => match places[i]? with
    | some p => p.edges.foldl (fun w e => w.union (Wide.edge looks ws ws e)) ⟨.empty, false⟩
    | none => ⟨.empty, false⟩)
    (places.size + 1) (places.map fun _ => ⟨.empty, false⟩)

/-- `Wide` with whatever can follow the rule. -/
def widesOf (places : Array Place) (looks : Array Look) (callers : Array (List (Nat × Bool))) :
    Array Wide :=
  let inner := innerWides places looks
  settle (fun ws i => match places[i]? with
    | some p =>
      let own := p.edges.foldl (fun w e => w.union (Wide.edge looks inner ws e)) ⟨.empty, false⟩
      if i < 2 * RuleName.all.length ∧ i % 2 = 1 then
        ((callers[i / 2]?).getD []).foldl (fun w c => w.union (wideAt ws c.1)) own
      else own
    | none => ⟨.empty, false⟩)
    (places.size + 1) (places.map fun _ => ⟨.empty, false⟩)

/-- The sets of tokens that decide a choice, if the next token does: none empty, no level asked
for, and pairwise disjoint. -/
def tokenSets (wides : Array Wide) (targets : List Nat) : Option (List KindSet) :=
  let ws := targets.map (wideAt wides)
  if ws.any fun w => w.guarded || w.kinds.isEmpty then none
  else
    let sets := ws.map Wide.kinds
    let apart := sets.foldl (fun (acc : Bool × KindSet) s =>
      (acc.1 && s.disjoint acc.2, acc.2.union s)) (true, .empty)
    if apart.1 then some sets else none

/-! ## The network of Java -/

/-- The network of a grammar. -/
structure Network where
  places : Array Place
  looks : Array Look
  callers : Array (List (Nat × Bool))
  decisions : Array Decision
  climbs : List Climb
  code : Array (List Step)
deriving Inhabited

/-- The places where the rules start and stop. -/
def Layout.ends : Layout :=
  ⟨(RuleName.all.flatMap fun r => [(⟨r, []⟩ : Place), ⟨r, []⟩]).toArray, #[], []⟩

/-- Lays out rules one after the other; gives the steps of each. -/
def layOutRules (grammar : RuleName → Production) (rules : List RuleName)
    (start : Array (List Step) × Layout) :
    Array (List Step) × Layout :=
  rules.foldl (fun acc r =>
    let laid := ((grammar r).layOut.run r).run acc.2
    (acc.1.push laid.1, laid.2)) start

namespace Network

/-- Lays out every rule of a grammar. -/
def ofGrammar (grammar : RuleName → Production) : Network :=
  let laid := layOutRules grammar RuleName.all (#[], .ends)
  let places := laid.2.places
  let looks := looksOf places
  let callers := callersOf places
  let wides := widesOf places looks callers
  { places, looks, callers, climbs := laid.2.climbs, code := laid.1,
    decisions := laid.2.decisions.map fun d => { d with byToken := tokenSets wides d.targets } }

def look (net : Network) (p : Nat) : Look := lookAt net.looks p

def steps (net : Network) (r : RuleName) : List Step := (net.code[r.index]?).getD []

def decision (net : Network) (d : Nat) : Decision := (net.decisions[d]?).getD default

/-- The edges out of a place; a rule's stop leads to whatever follows its calls. -/
def edges (net : Network) (p : Nat) : List Edge := ((net.places[p]?).getD default).edges

/-- Whether a place is where its rule stops. -/
def isStop (_ : Network) (p : Nat) : Bool := p < 2 * RuleName.all.length && p % 2 == 1

/-- The places after the calls of the rule that stops at `p`. -/
def followers (net : Network) (p : Nat) : List (Nat × Bool) := (net.callers[p / 2]?).getD []

/-- The tokens expected at a look inside the calls whose followers are `stack`. -/
def expected (net : Network) : Look → List Nat → KindSet
  | ⟨ks, false⟩, _ => ks
  | ⟨ks, true⟩, [] => ks.union (.single .eof)
  | ⟨ks, true⟩, f :: stack => ks.union (net.expected (net.look f) stack)

/-- The tokens at which some open call can go on. -/
def resumption (net : Network) (stack : List Nat) : KindSet :=
  stack.foldl (fun ks f => ks.union (net.look f).kinds) .empty

end Network

/-- The network of Java. -/
def javaNetwork : Network := .ofGrammar production

end Coupling.Java
