import Coupling.Java.Kind
import Coupling.Lexing.Scan

/-!
# The lexicon of Java

One rule for each kind, in the order of the kinds. A kind with a fixed spelling has that spelling
as its pattern; the other patterns are written out below. White space and comments are lexemes too,
but stand on the hidden channel.
-/

namespace Coupling.Java.Lexicon

open Coupling.Lexing
open Coupling.Lexing.Pattern

def hexDigit : Pattern := .one (.within [('0', '9'), ('a', 'f'), ('A', 'F')])
def octalDigit : Pattern := range '0' '7'
def binaryDigit : Pattern := range '0' '1'
def digit : Pattern := range '0' '9'

/-- Digits that may hold underscores inside, never at an end. -/
def grouped (d : Pattern) : Pattern :=
  .seq d (optional (.seq (.many (.either d (text "_"))) d))

def digits : Pattern := grouped digit
def hexDigits : Pattern := grouped hexDigit
def exponent : Pattern := all [anyOf "eE", optional (anyOf "+-"), digits]
def longMark : Pattern := optional (anyOf "lL")
def floatMark : Pattern := anyOf "fFdD"

def escapeSequence : Pattern :=
  let slash := .seq (text "\\") (optional (text "u005c"))
  choice
    [.seq slash (anyOf "btnfr\"'\\"),
     all [slash, optional (.seq (optional (range '0' '3')) octalDigit), octalDigit],
     all [text "\\", atLeastOne (text "u"), hexDigit, hexDigit, hexDigit, hexDigit]]

/-- Letters of names: ASCII letters, `$`, `_`, and every character beyond ASCII. -/
def letters : List (Char × Char) :=
  [('a', 'z'), ('A', 'Z'), ('$', '$'), ('_', '_'), ('\x80', Char.ofNat 0x10ffff)]

def decimal : Pattern :=
  .seq (.either (text "0")
    (.seq (range '1' '9') (.either (optional digits) (.seq (atLeastOne (text "_")) digits))))
      longMark

def hexadecimal : Pattern := all [text "0", anyOf "xX", grouped hexDigit, longMark]
def octal : Pattern := all [text "0", .many (text "_"), grouped octalDigit, longMark]
def binary : Pattern := all [text "0", anyOf "bB", grouped binaryDigit, longMark]

def floating : Pattern :=
  .either
    (all [.either (all [digits, text ".", optional digits]) (.seq (text ".") digits),
      optional exponent, optional floatMark])
    (.seq digits (.either (.seq exponent (optional floatMark)) floatMark))

def hexFloating : Pattern :=
  all [text "0", anyOf "xX",
    .either (.seq hexDigits (optional (text "."))) (all [optional hexDigits, text ".", hexDigits]),
    anyOf "pP", optional (anyOf "+-"), digits, optional floatMark]

def character : Pattern :=
  all [text "'", .either (.one (.outside [('\x27', '\x27'), ('\\', '\\'), ('\r', '\r'),
    ('\n', '\n')]))
    escapeSequence, text "'"]

def string : Pattern :=
  all [text "\"", .many (.either
    (.one (.outside [('\x22', '\x22'), ('\\', '\\'), ('\r', '\r'), ('\n', '\n')]))
    escapeSequence), text "\""]

/-- A text block ends at the first triple quote after its opening line. -/
def textBlock : Pattern :=
  all [text "\"\"\"", .many (anyOf " \t"), anyOf "\r\n", .through "\"\"\"".toList []]

def blanks : Pattern := atLeastOne (anyOf " \t\r\n\x0c")
def comment : Pattern := .seq (text "/*") (.through "*/".toList [])
def lineComment : Pattern := .seq (text "//") (.many (.one (.outside [('\r', '\r'), ('\n', '\n')])))
def name : Pattern := .seq (.one (.within letters)) (.many (.one (.within (('0', '9') :: letters))))

/-- The pattern of a kind. The end of the text is no lexeme. -/
def pattern (k : Kind) : Pattern :=
  match k with
  | .decimalLiteral => decimal
  | .hexLiteral => hexadecimal
  | .octLiteral => octal
  | .binaryLiteral => binary
  | .floatLiteral => floating
  | .hexFloatLiteral => hexFloating
  | .boolLiteral => .either (text "true") (text "false")
  | .charLiteral => character
  | .stringLiteral => string
  | .textBlock => textBlock
  | .blanks => blanks
  | .comment => comment
  | .lineComment => lineComment
  | .identifier => name
  | k => match k.spelling? with
    | some s => text s
    | none => .void

/-- The rules, in the order of the kinds. -/
def rules : List (LexRule Kind) :=
  (Kind.all.drop 1).map fun k => ⟨k, pattern k⟩

/-- White space and comments are kept apart from the tokens a parser reads. -/
def hidden (k : Kind) : Bool :=
  k = .blanks || k = .comment || k = .lineComment

end Coupling.Java.Lexicon
