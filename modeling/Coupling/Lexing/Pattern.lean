/-!
# Lexical patterns

A pattern denotes a set of texts. `Matches` says which, and `step` reads one character: the texts
that `p.step c` matches are those that `p` matches after a leading `c`. Two facts are kept in the
form of the pattern: what `step` returns is `void` exactly when no text is left that could still
match, so a scanner knows at once that it is stuck, and `through` ends at the first occurrence of
its closing text and never at a later one.
-/

namespace Coupling.Lexing

/-- A set of characters: the ranges listed, or every character outside them. -/
inductive CharClass where
  | within (ranges : List (Char × Char))
  | outside (ranges : List (Char × Char))
deriving DecidableEq, Repr

namespace CharClass

def inRanges (ranges : List (Char × Char)) (c : Char) : Bool :=
  ranges.any fun r => r.1 ≤ c && c ≤ r.2

def contains : CharClass → Char → Bool
  | .within rs, c => inRanges rs c
  | .outside rs, c => !inRanges rs c

/-- The class of one character. -/
def single (c : Char) : CharClass := .within [(c, c)]

/-- The class of the characters of a text. -/
def ofChars (s : String) : CharClass := .within (s.toList.map fun c => (c, c))

end CharClass

/-- A lexical pattern. `through close read` matches up to and including the first `close`, where
`read` is the part of a `close` that may already have begun. -/
inductive Pattern where
  | void
  | empty
  | one (cls : CharClass)
  | seq (p q : Pattern)
  | either (p q : Pattern)
  | many (p : Pattern)
  | through (close read : List Char)
deriving DecidableEq, Repr

namespace Pattern

/-- The longest suffix of `w` that begins `close`. -/
def overlap (close : List Char) : List Char → List Char
  | [] => []
  | c :: w => if (c :: w).isPrefixOf close then c :: w else overlap close w

/-- Whether the empty text matches. -/
def nullable : Pattern → Bool
  | .void => false
  | .empty => true
  | .one _ => false
  | .seq p q => p.nullable && q.nullable
  | .either p q => p.nullable || q.nullable
  | .many _ => true
  | .through _ _ => false

/-- `seq` that keeps `void` visible and drops `empty` in front. -/
def andThen (p q : Pattern) : Pattern :=
  match p with
  | .void => .void
  | .empty => q
  | p => if q = .void then .void else .seq p q

/-- `either` that drops `void` and repetition. -/
def orElse (p q : Pattern) : Pattern :=
  if p = .void then q else if q = .void ∨ p = q then p else .either p q

/-- What is left to match after the character `c`. -/
def step (c : Char) : Pattern → Pattern
  | .void => .void
  | .empty => .void
  | .one cls => if cls.contains c then .empty else .void
  | .seq p q =>
    if p.nullable then orElse (andThen (p.step c) q) (q.step c) else andThen (p.step c) q
  | .either p q => orElse (p.step c) (q.step c)
  | .many p => andThen (p.step c) (.many p)
  | .through close read =>
    let w := read ++ [c]
    if w = close then .empty else .through close (overlap close w)

/-! ## Building patterns -/

def ofChars : List Char → Pattern
  | [] => .empty
  | [c] => .one (.single c)
  | c :: cs => .seq (.one (.single c)) (ofChars cs)

/-- The pattern of one fixed text. -/
def text (s : String) : Pattern := ofChars s.toList

def anyOf (s : String) : Pattern := .one (.ofChars s)
def range (lo hi : Char) : Pattern := .one (.within [(lo, hi)])
def optional (p : Pattern) : Pattern := .either p .empty
def atLeastOne (p : Pattern) : Pattern := .seq p (.many p)

def all : List Pattern → Pattern
  | [] => .empty
  | [p] => p
  | p :: ps => .seq p (all ps)

def choice : List Pattern → Pattern
  | [] => .void
  | [p] => p
  | p :: ps => .either p (choice ps)

/-! ## Meaning -/

/-- The texts that a pattern denotes. -/
inductive Matches : Pattern → List Char → Prop
  | empty : Matches .empty []
  | one {cls : CharClass} {c : Char} : cls.contains c = true → Matches (.one cls) [c]
  | seq {p q : Pattern} {s t : List Char} :
      Matches p s → Matches q t → Matches (.seq p q) (s ++ t)
  | left {p q : Pattern} {s : List Char} : Matches p s → Matches (.either p q) s
  | right {p q : Pattern} {s : List Char} : Matches q s → Matches (.either p q) s
  | done {p : Pattern} : Matches (.many p) []
  | more {p : Pattern} {s t : List Char} :
      Matches p s → Matches (.many p) t → Matches (.many p) (s ++ t)
  | through {close read s : List Char} :
      close <:+ read ++ s → s ≠ [] →
      (∀ t, t <+: s → t ≠ [] → t ≠ s → ¬ close <:+ read ++ t) →
      Matches (.through close read) s

end Pattern

end Coupling.Lexing
