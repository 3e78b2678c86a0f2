import Coupling.Lexing.Pattern

/-!
# Longest match

A lexicon is a list of rules, each a pattern with the kind it yields. `scan` reads the longest
prefix that some rule matches; of the rules that match it the first one gives the kind. When no
rule matches any prefix, `scan` gives the part of the text up to and including the character at
which every rule is stuck.
-/

namespace Coupling.Lexing

/-- A rule of a lexicon. -/
structure LexRule (κ : Type) where
  kind : κ
  pattern : Pattern

/-- What a scan found at the head of a text, with the number of characters it covers. -/
inductive Scan (κ : Type) where
  | lexeme (kind : κ) (length : Nat)
  | stuck (length : Nat)
deriving DecidableEq, Repr

namespace Scan

variable {κ : Type}

def length : Scan κ → Nat
  | .lexeme _ n => n
  | .stuck n => n

/-- The rules that can still match, each with what is left of its pattern after `c`. -/
def advance (c : Char) (live : List (LexRule κ)) : List (LexRule κ) :=
  live.filterMap fun r =>
    let p := r.pattern.step c
    if p = .void then none else some ⟨r.kind, p⟩

/-- The kind of the first rule that matches what has been read. -/
def accepted (live : List (LexRule κ)) : Option κ :=
  (live.find? fun r => r.pattern.nullable).map LexRule.kind

/-- Reads on while some rule is live. `read` counts the characters read and `best` is the longest
match so far. -/
def run (live : List (LexRule κ)) (read : Nat) (best : Option (κ × Nat)) : List Char → Scan κ
  | [] => finish read
  | c :: cs =>
    match advance c live with
    | [] => finish (read + 1)
    | live' =>
      let best' := match accepted live' with
        | some k => some (k, read + 1)
        | none => best
      run live' (read + 1) best' cs
where
  finish (reached : Nat) : Scan κ :=
    match best with
    | some (k, n) => .lexeme k n
    | none => .stuck reached

end Scan

/-- The longest match at the head of a text. -/
def scan {κ : Type} (rules : List (LexRule κ)) (text : List Char) : Scan κ :=
  Scan.run rules 0 none text

end Coupling.Lexing
