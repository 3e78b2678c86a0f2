import Coupling.Java.Grammar.Rules
import Coupling.Java.ParseTree

/-!
# The parts of a node

By which symbols the children of a node can be asked for. These are the tokens and rules on the
right-hand sides that make nodes of its form; a symbol that some right-hand side can hold more than
once has a list of parts, any other at most one.
-/

namespace Coupling.Java

/-- What a child can be. -/
inductive GrammarSymbol where
  | kind (k : Kind)
  | rule (r : RuleName)
deriving DecidableEq, Repr, Inhabited

namespace GrammarSymbol

def name : GrammarSymbol → String
  | .kind k => k.symbol
  | .rule r => r.name

def fits (s : GrammarSymbol) (t : ParseTree) : Bool :=
  match s with
  | .kind k => t.kind? == some k
  | .rule r => t.rule? == some r

end GrammarSymbol

/-- How often symbols occur, where twice stands for any number above one. -/
abbrev Tally := List (GrammarSymbol × Nat)

namespace Tally

def count (t : Tally) (s : GrammarSymbol) : Nat := ((t.find? fun x => x.1 = s).map (·.2)).getD 0

/-- Combines two tallies symbol by symbol. -/
def combine (f : Nat → Nat → Nat) (a b : Tally) : Tally :=
  a.map (fun x => (x.1, f x.2 (count b x.1))) ++ b.filter fun x => !(a.any fun y => y.1 = x.1)

def both (a b : Tally) : Tally := combine (fun x y => min 2 (x + y)) a b
def either (a b : Tally) : Tally := combine max a b

end Tally

mutual

/-- How often an element can hold each symbol. -/
def Element.tally : Element → Tally
  | .token k => [(.kind k, 1)]
  | .oneOf ks => ks.map fun k => (.kind k, 1)
  | .call r _ => [(.rule r, 1)]
  | .labelled _ e => e.tally
  | .choice alts => altsTally alts
  | .optional alts => altsTally alts
  | .many alts => (altsTally alts).map fun x => (x.1, 2)
  | .some alts => (altsTally alts).map fun x => (x.1, 2)

def seqTally : List Element → Tally
  | [] => []
  | e :: es => e.tally.both (seqTally es)

def altsTally : List (List Element) → Tally
  | [] => []
  | a :: as => (seqTally a).either (altsTally as)

end

/-- The right-hand sides of a rule with the forms they make. An operator also holds its left
operand. -/
def branches (r : RuleName) : List (Form × Tally) :=
  match production r with
  | .plain alts => alts.map fun a => (.rule r, seqTally a)
  | .climbing primaries operators =>
    primaries.map (fun p => (p.form, seqTally p.parts)) ++
      operators.map fun o => (o.form, Tally.both [(.rule r, 1)] (seqTally o.parts))

/-- The symbols by which the children of a node can be asked for; true where there can be
several. -/
def Form.parts (f : Form) : List (GrammarSymbol × Bool) :=
  let sides := (branches f.ruleName).filterMap fun b => if b.1 = f then some b.2 else none
  (sides.foldl Tally.either []).map fun x => (x.1, decide (1 < x.2))

/-- The levels of a climbing rule's operators, in order. -/
def operatorLevels (r : RuleName) : List Nat :=
  match production r with
  | .plain _ => []
  | .climbing _ operators => operators.map Operator.level

/-- The operators of all climbing rules, numbered in the order of the rules. -/
def numberedOperators : List (RuleName × Nat) :=
  RuleName.all.flatMap fun r => (operatorLevels r).map fun l => (r, l)

/-- Whether the operator with a number may follow an operand at a level; none if the rule has no
such operator. -/
def mayFollow (r : RuleName) (level : Int) (number : Int) : Option Bool :=
  if number < 0 then none
  else match numberedOperators[number.toNat]? with
    | some (owner, l) => if owner = r then some (decide (level ≤ (l : Int))) else none
    | none => none

end Coupling.Java
