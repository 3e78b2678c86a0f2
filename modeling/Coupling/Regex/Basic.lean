import Coupling.Text.Alnum
import Coupling.Text.Blank
import Coupling.Text.Digit
import Coupling.Text.Lowercase

/-!
# Regular expressions

Expressions with character sets, groups and references to them, counted repetition, anchors and
assertions. `run` matches an expression from a place on and goes on with what is asked of the place
where the match ends. If that fails, the match is tried in another way: the ways to match come in
the order in which the expression names them, so an assertion keeps what the groups of the first one
have matched.
-/

namespace Coupling

/-- Which letters are taken for each other although they differ in case. -/
inductive Folding where
  | exact
  | ascii
  | all
deriving DecidableEq, Repr, Inhabited

namespace Folding

/-- The small letter that stands for a letter and for those that are taken for it. -/
def small : Folding → Char → Char
  | .exact, c => c
  | .ascii, c => c.toLower
  | .all, c => if c.toNat = 0x130 then 'i' else Text.small c

/-- Small letters that have the same capital. -/
def twins : List (List Nat) := [
  [0x69, 0x131], [0x73, 0x17f], [0xb5, 0x3bc], [0x345, 0x3b9, 0x1fbe], [0x390, 0x1fd3],
  [0x3b0, 0x1fe3], [0x3b2, 0x3d0], [0x3b5, 0x3f5], [0x3b8, 0x3d1], [0x3ba, 0x3f0], [0x3c0, 0x3d6],
  [0x3c1, 0x3f1], [0x3c2, 0x3c3], [0x3c6, 0x3d5], [0x432, 0x1c80], [0x434, 0x1c81], [0x43e, 0x1c82],
  [0x441, 0x1c83], [0x442, 0x1c84, 0x1c85], [0x44a, 0x1c86], [0x463, 0x1c87], [0x1c88, 0xa64b],
  [0x1e61, 0x1e9b], [0xfb05, 0xfb06]]

/-- All letters that a letter is taken for. -/
def variants (f : Folding) (c : Char) : List Char :=
  match f with
  | .exact => [c]
  | .ascii => [c.toLower, c.toUpper]
  | .all =>
    let n := (f.small c).toNat
    let smalls := (twins.find? (·.contains n)).getD [n]
    let capitals := smalls.flatMap Text.capitalsFor
    (smalls ++ capitals ++ if n = 0x69 || n = 0x131 then [0x130] else []).map Char.ofNat

end Folding

/-- A test of one character. -/
inductive CharTest where
  | char (c : Char)
  | range (first last : Char)
  | digit (ascii : Bool)
  | blank (ascii : Bool)
  | word (ascii : Bool)
  | outside (t : CharTest)
deriving DecidableEq, Repr, Inhabited

namespace CharTest

/-- Whether a character, or one it is taken for, passes a test. -/
def holds (f : Folding) (c : Char) : CharTest → Bool
  | .char d => (f.variants c).contains d
  | .range a b => (f.variants c).any fun d => a ≤ d && d ≤ b
  | .digit ascii => if ascii then (f.small c).isDigit else Text.isDigit (f.small c)
  | .blank ascii =>
    let c := f.small c
    Text.isBlank c && (!ascii || ((9 ≤ c.toNat && c.toNat ≤ 13) || c == ' '))
  | .word ascii =>
    let c := f.small c
    if ascii then c.isAlphanum || c == '_' else Text.isWordChar c
  | .outside t => !t.holds f c

end CharTest

/-- A set of characters. -/
structure CharSet where
  negated : Bool
  tests : List CharTest
  folding : Folding := .exact
deriving DecidableEq, Repr, Inhabited

def CharSet.has (s : CharSet) (c : Char) : Bool := s.tests.any (·.holds s.folding c) != s.negated

/-- A place without extent. -/
inductive Anchor where
  | textStart
  | textEnd
  /-- The end of the text, or before a line feed that ends it. -/
  | lastLineEnd
  | lineStart
  | lineEnd
  | wordEdge (ascii : Bool)
  | noWordEdge (ascii : Bool)
deriving DecidableEq, Repr, Inhabited

/-- A regular expression. -/
inductive Regex where
  | empty
  | one (set : CharSet)
  | seq (a b : Regex)
  | either (a b : Regex)
  /-- So many times; with `lazy`, rather less often than more. -/
  | times (least : Nat) (most : Option Nat) (lazy : Bool) (r : Regex)
  | group (number : Option Nat) (r : Regex)
  /-- Without another try once it has matched. -/
  | atomic (r : Regex)
  /-- The text that a group has matched. -/
  | again (number : Nat) (folding : Folding)
  | anchor (a : Anchor)
  | ahead (negated : Bool) (r : Regex)
  | behind (negated : Bool) (width : Nat) (r : Regex)
  /-- One of two expressions, by whether a group has matched. -/
  | ifGroup (number : Nat) (yes no : Regex)
deriving DecidableEq, Repr, Inhabited

namespace Regex

/-- A place in a text: what is before it, the nearest character first, what is after it, and what
the groups have matched. -/
structure Spot where
  before : List Char
  after : List Char
  groups : List (Nat × List Char)
deriving DecidableEq, Repr, Inhabited

namespace Spot

def start (s : String) : Spot := ⟨[], s.toList, []⟩

/-- Whether a word ends or starts at a place. -/
def atWordEdge (ascii : Bool) (s : Spot) : Bool :=
  let inWord (c : Option Char) : Bool := c.any fun c => (CharTest.word ascii).holds .exact c
  inWord s.before.head? != inWord s.after.head?

def isAt (s : Spot) : Anchor → Bool
  | .textStart => s.before.isEmpty
  | .textEnd => s.after.isEmpty
  | .lastLineEnd => s.after.isEmpty || s.after == ['\n']
  | .lineStart => s.before.isEmpty || s.before.head? == some '\n'
  | .lineEnd => s.after.isEmpty || s.after.head? == some '\n'
  | .wordEdge ascii => s.atWordEdge ascii
  -- An empty text has no place inside of or between words.
  | .noWordEdge ascii => !(s.before.isEmpty && s.after.isEmpty) && !s.atWordEdge ascii

/-- Passes so many characters. -/
def forward (n : Nat) (s : Spot) : Spot :=
  { s with before := (s.after.take n).reverse ++ s.before, after := s.after.drop n }

/-- Goes back so many characters, if there are so many. -/
def back? (n : Nat) (s : Spot) : Option Spot :=
  if n ≤ s.before.length then
    some { s with before := s.before.drop n, after := (s.before.take n).reverse ++ s.after }
  else none

/-- Notes what a group has matched since a place. -/
def close (number : Option Nat) (s from_ : Spot) : Spot :=
  match number with
  | none => s
  | some n =>
    let text := from_.after.take (from_.after.length - s.after.length)
    { s with groups := (n, text) :: s.groups.filter (·.1 != n) }

end Spot

/-- What is asked of a place, and where the match ends that fulfils it. -/
abbrev Goal := Spot → Option Spot

/-- Between `least` and `most` rounds, then the goal. A round beyond the least number is not begun
where the one before it was begun. -/
def rounds (step : Spot → Goal → Option Spot) (lazy : Bool) (goal : Goal) :
    Nat → Nat → Option Nat → Option Nat → Goal
  | 0, _, _, _, _ => none
  | fuel + 1, least + 1, most, last, s =>
    step s (rounds step lazy goal fuel least (most.map (· - 1)) last)
  | fuel + 1, 0, most, last, s =>
    let left := s.after.length
    let again := if most == some 0 || last == some left then none
      else step s (rounds step lazy goal fuel 0 (most.map (· - 1)) (some left))
    if lazy then (goal s).or again else again.or (goal s)

/-- Matches an expression from a place on such that the goal is fulfilled where it ends. -/
def run : Regex → Spot → Goal → Option Spot
  | .empty, s, goal => goal s
  | .one set, s, goal =>
    match s.after with
    | c :: cs => if set.has c then goal { s with before := c :: s.before, after := cs } else none
    | [] => none
  | .seq a b, s, goal => run a s fun t => run b t goal
  | .either a b, s, goal => (run a s goal).or (run b s goal)
  | .times least most lazy r, s, goal =>
    rounds (run r) lazy goal (least + s.after.length + 2) least most none s
  | .group n r, s, goal => run r s fun t => goal (t.close n s)
  | .atomic r, s, goal => (run r s some).bind goal
  | .again n folding, s, goal =>
    match s.groups.find? (·.1 == n) with
    | none => none
    | some (_, text) =>
      let here := s.after.take text.length
      if here.map folding.small == text.map folding.small then goal (s.forward text.length)
        else none
  | .anchor a, s, goal => if s.isAt a then goal s else none
  | .ahead negated r, s, goal =>
    match run r s some with
    | none => if negated then goal s else none
    | some t => if negated then none else goal { s with groups := t.groups }
  | .behind negated width r, s, goal =>
    match (s.back? width).bind fun t => run r t some with
    | none => if negated then goal s else none
    | some t => if negated then none else goal { s with groups := t.groups }
  | .ifGroup n yes no, s, goal =>
    if s.groups.any (·.1 == n) then run yes s goal else run no s goal

/-- Whether an expression matches a whole text. -/
def matchesAll (r : Regex) (s : String) : Bool :=
  (run r (.start s) fun t => if t.after.isEmpty then some t else none).isSome

/-- The least and the largest length of a match, given those of the groups; a length without bound
counts as one that no text has. -/
def widths (groups : Nat → Nat × Nat) : Regex → Nat × Nat
  | .empty | .anchor _ | .ahead _ _ | .behind _ _ _ => (0, 0)
  | .one _ => (1, 1)
  | .seq a b =>
    let (l, h) := widths groups a
    let (l', h') := widths groups b
    (l + l', h + h')
  | .either a b | .ifGroup _ a b =>
    let (l, h) := widths groups a
    let (l', h') := widths groups b
    (min l l', max h h')
  | .times least most _ r =>
    let (l, h) := widths groups r
    (l * least, h * most.getD (2 ^ 64))
  | .group _ r | .atomic r => widths groups r
  | .again n _ => groups n

end Regex

end Coupling
