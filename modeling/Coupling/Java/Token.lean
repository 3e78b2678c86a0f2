import Coupling.Java.Lexicon

/-!
# Tokens and lexing

`lex` cuts a text into pieces, each a lexeme or a stretch that no rule could match, until nothing
is left. The pieces are non-empty and follow each other without a gap, so together they are the
text. A piece carries its position, which counts characters, and the line and column of its first
character; a line ends after a line feed only. A `Source` is what a parser reads: the tokens off the
hidden channel up to and including the end of the text, each with the complaints the lexer makes
before it reaches that token.
-/

namespace Coupling.Java

open Coupling.Lexing

/-- A place in a text: characters before it, line from 1 and column from 0. -/
structure Position where
  offset : Nat
  line : Nat
  column : Nat
deriving DecidableEq, Repr, Inhabited

namespace Position

def start : Position := ⟨0, 1, 0⟩

def advance (p : Position) (c : Char) : Position :=
  if c = '\n' then ⟨p.offset + 1, p.line + 1, 0⟩ else ⟨p.offset + 1, p.line, p.column + 1⟩

/-- The place after a text that begins at `p`. -/
def after (p : Position) (cs : List Char) : Position := cs.foldl advance p

end Position

/-- A lexeme in its place, or the end of the text, which has no characters. -/
structure Token where
  kind : Kind
  text : String
  start : Position
  length : Nat
deriving DecidableEq, Repr, Inhabited

namespace Token

/-- The offset after the last character. -/
def stop (t : Token) : Nat := t.start.offset + t.length

def hidden (t : Token) : Bool := Lexicon.hidden t.kind

/-- How a token is shown: the end of the text has a name of its own. -/
def shown (t : Token) : String := if t.kind = .eof then "<EOF>" else t.text

end Token

/-- A piece of a text: a token, or a stretch at which lexing was stuck. -/
inductive Piece where
  | token (t : Token)
  | dropped (text : String) (start : Position)
deriving DecidableEq, Repr, Inhabited

namespace Piece

def text : Piece → String
  | .token t => t.text
  | .dropped s _ => s

def start : Piece → Position
  | .token t => t.start
  | .dropped _ p => p

def token? : Piece → Option Token
  | .token t => some t
  | .dropped _ _ => none

end Piece

/-- The piece a scan stands for. -/
def pieceAt (p : Position) (found : Scan Kind) (cs : List Char) : Piece :=
  match found with
  | .lexeme k _ => .token ⟨k, String.ofList cs, p, cs.length⟩
  | .stuck _ => .dropped (String.ofList cs) p

/-- The pieces of a text that begins at `p`. At least one character goes into each piece. -/
def piecesFrom (p : Position) (cs : List Char) : List Piece :=
  match h : cs with
  | [] => []
  | _ :: _ =>
    let found := scan Lexicon.rules cs
    let n := max 1 found.length
    pieceAt p found (cs.take n) :: piecesFrom (p.after (cs.take n)) (cs.drop n)
termination_by cs.length
decreasing_by
  subst h
  simp only [List.length_drop, List.length_cons]
  omega

/-- The pieces of a text. -/
def pieces (text : String) : List Piece := piecesFrom .start text.toList

/-- The end of a text, as a token. -/
def endToken (text : String) : Token := ⟨.eof, "", Position.start.after text.toList, 0⟩

/-- All tokens of a text, hidden ones included, and the end last. -/
def tokens (text : String) : List Token := (pieces text).filterMap Piece.token? ++ [endToken text]

/-! ## What a parser reads -/

/-- A token off the hidden channel, with the pieces since the token before it. -/
structure Reading where
  token : Token
  before : List Piece
deriving Repr, Inhabited

/-- Groups pieces by the tokens a parser reads; `before` is what has been passed since the last. -/
def readings (last : Token) : List Piece → List Piece → List Reading
  | before, [] => [⟨last, before.reverse⟩]
  | before, .token t :: rest =>
    if t.hidden then readings last (.token t :: before) rest
    else ⟨t, before.reverse⟩ :: readings last [] rest
  | before, .dropped s p :: rest => readings last (.dropped s p :: before) rest

/-- The tokens a parser reads, in order, the end of the text last. -/
structure Source where
  readings : Array Reading
deriving Inhabited

namespace Source

def ofText (text : String) : Source :=
  ⟨(Java.readings (endToken text) [] (pieces text)).toArray⟩

def size (s : Source) : Nat := s.readings.size

/-- The token at an index; past the end it is the end of the text again. -/
def reading (s : Source) (i : Nat) : Reading :=
  match s.readings[i]? with
  | some r => r
  | none => s.readings.back?.getD default

def token (s : Source) (i : Nat) : Token := (s.reading i).token
def kind (s : Source) (i : Nat) : Kind := (s.token i).kind

/-- The text of the tokens from one index to another, hidden ones between them included and the
end of the text left out. -/
def span (s : Source) (i j : Nat) : String :=
  let parts := (List.range (j + 1 - i)).map fun k =>
    let r := s.reading (i + k)
    let between := if k = 0 then ""
      else String.join ((r.before.filterMap Piece.token?).map Token.text)
    between ++ r.token.text
  String.join parts

end Source

end Coupling.Java
