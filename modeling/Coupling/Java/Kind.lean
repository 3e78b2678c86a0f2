/-!
# Token kinds

The kinds of Java tokens in the order of the lexical rules, with `eof` for the end of the text.
A kind with a fixed spelling (keyword, separator, operator) is shown by that spelling in quotes,
every other kind by its symbolic name. `KindSet` is a set of kinds that lists its members in this
order, which is the order messages use.
-/

namespace Coupling.Java

/-- What a token is. The order of the constructors is the order of the lexical rules. -/
inductive Kind where
  | eof | kwAbstract | kwAssert | kwBoolean | kwBreak | kwByte | kwCase | kwCatch | kwChar
  | kwClass | kwConst | kwContinue | kwDefault | kwDo | kwDouble | kwElse | kwEnum | kwExtends
  | kwFinal | kwFinally | kwFloat | kwFor | kwIf | kwGoto | kwImplements | kwImport
  | kwInstanceof | kwInt | kwInterface | kwLong | kwNative | kwNew | kwPackage | kwPrivate
  | kwProtected | kwPublic | kwReturn | kwShort | kwStatic | kwStrictfp | kwSuper | kwSwitch
  | kwSynchronized | kwThis | kwThrow | kwThrows | kwTransient | kwTry | kwVoid | kwVolatile
  | kwWhile | kwModule | kwOpen | kwRequires | kwExports | kwOpens | kwTo | kwUses | kwProvides
  | kwWith | kwTransitive | kwVar | kwYield | kwRecord | kwSealed | kwPermits | kwNonSealed
  | decimalLiteral | hexLiteral | octLiteral | binaryLiteral | floatLiteral | hexFloatLiteral
  | boolLiteral | charLiteral | stringLiteral | textBlock | nullLiteral | lparen | rparen
  | lbrace | rbrace | lbrack | rbrack | semi | comma | dot | assign | gt | lt | bang | tilde
  | question | colon | equal | le | ge | notEqual | andAnd | orOr | inc | dec | add | sub | mul
  | div | bitAnd | bitOr | caret | mod | addAssign | subAssign | mulAssign | divAssign
  | andAssign | orAssign | xorAssign | modAssign | lshiftAssign | rshiftAssign | urshiftAssign
  | arrow | colonColon | atSign | ellipsis | blanks | comment | lineComment | identifier
deriving DecidableEq, Repr, Inhabited

namespace Kind

/-- Every kind, the end of the text first. -/
def all : List Kind := (List.range 129).map ofNat

/-- The position of a kind in `all`. -/
def index (k : Kind) : Nat := k.ctorIdx

/-- The names of the kinds in token listings, in order. -/
def symbols : List String := [
  "EOF", "ABSTRACT", "ASSERT", "BOOLEAN", "BREAK", "BYTE", "CASE", "CATCH", "CHAR", "CLASS",
  "CONST", "CONTINUE", "DEFAULT", "DO", "DOUBLE", "ELSE", "ENUM", "EXTENDS", "FINAL", "FINALLY",
  "FLOAT", "FOR", "IF", "GOTO", "IMPLEMENTS", "IMPORT", "INSTANCEOF", "INT", "INTERFACE", "LONG",
  "NATIVE", "NEW", "PACKAGE", "PRIVATE", "PROTECTED", "PUBLIC", "RETURN", "SHORT", "STATIC",
  "STRICTFP", "SUPER", "SWITCH", "SYNCHRONIZED", "THIS", "THROW", "THROWS", "TRANSIENT", "TRY",
  "VOID", "VOLATILE", "WHILE", "MODULE", "OPEN", "REQUIRES", "EXPORTS", "OPENS", "TO", "USES",
  "PROVIDES", "WITH", "TRANSITIVE", "VAR", "YIELD", "RECORD", "SEALED", "PERMITS", "NON_SEALED",
  "DECIMAL_LITERAL", "HEX_LITERAL", "OCT_LITERAL", "BINARY_LITERAL", "FLOAT_LITERAL",
  "HEX_FLOAT_LITERAL", "BOOL_LITERAL", "CHAR_LITERAL", "STRING_LITERAL", "TEXT_BLOCK",
  "NULL_LITERAL", "LPAREN", "RPAREN", "LBRACE", "RBRACE", "LBRACK", "RBRACK", "SEMI", "COMMA",
  "DOT", "ASSIGN", "GT", "LT", "BANG", "TILDE", "QUESTION", "COLON", "EQUAL", "LE", "GE",
  "NOTEQUAL", "AND", "OR", "INC", "DEC", "ADD", "SUB", "MUL", "DIV", "BITAND", "BITOR", "CARET",
  "MOD", "ADD_ASSIGN", "SUB_ASSIGN", "MUL_ASSIGN", "DIV_ASSIGN", "AND_ASSIGN", "OR_ASSIGN",
  "XOR_ASSIGN", "MOD_ASSIGN", "LSHIFT_ASSIGN", "RSHIFT_ASSIGN", "URSHIFT_ASSIGN", "ARROW",
  "COLONCOLON", "AT", "ELLIPSIS", "WS", "COMMENT", "LINE_COMMENT", "IDENTIFIER"]

/-- The name a kind has in token listings. -/
def symbol (k : Kind) : String := (symbols[k.index]?).getD ""

/-- The keywords in the order of their kinds. -/
def keywords : List String := [
  "abstract", "assert", "boolean", "break", "byte", "case", "catch", "char", "class", "const",
  "continue", "default", "do", "double", "else", "enum", "extends", "final", "finally", "float",
  "for", "if", "goto", "implements", "import", "instanceof", "int", "interface", "long", "native",
  "new", "package", "private", "protected", "public", "return", "short", "static", "strictfp",
  "super", "switch", "synchronized", "this", "throw", "throws", "transient", "try", "void",
  "volatile", "while", "module", "open", "requires", "exports", "opens", "to", "uses", "provides",
  "with", "transitive", "var", "yield", "record", "sealed", "permits", "non-sealed"]

/-- The null literal, the separators and the operators in the order of their kinds. -/
def signs : List String := [
  "null", "(", ")", "\x7b", "\x7d", "[", "]", ";", ",", ".", "=", ">", "<", "!", "~", "?", ":",
  "==", "<=", ">=", "!=", "&&", "||", "++", "--", "+", "-", "*", "/", "&", "|", "^", "%", "+=",
  "-=", "*=", "/=", "&=", "|=", "^=", "%=", "<<=", ">>=", ">>>=", "->", "::", "@", "..."]

/-- The one spelling of a keyword, separator or operator. -/
def spelling? (k : Kind) : Option String :=
  if Kind.nullLiteral.index ≤ k.index then signs[k.index - Kind.nullLiteral.index]?
  else if k = .eof then none
  else keywords[k.index - Kind.kwAbstract.index]?

/-- How messages show a kind. -/
def display (k : Kind) : String :=
  match k.spelling? with
  | some s => "'" ++ s ++ "'"
  | none => if k = .eof then "<EOF>" else k.symbol

end Kind

/-- A set of kinds, one bit for each kind at its index. -/
structure KindSet where
  bits : Nat
deriving DecidableEq, Repr, Inhabited

namespace KindSet

def empty : KindSet := ⟨0⟩
def single (k : Kind) : KindSet := ⟨1 <<< k.index⟩
def contains (s : KindSet) (k : Kind) : Bool := s.bits.testBit k.index
def union (s t : KindSet) : KindSet := ⟨s.bits ||| t.bits⟩
def ofList (ks : List Kind) : KindSet := ks.foldl (fun s k => s.union (single k)) empty
def disjoint (s t : KindSet) : Bool := s.bits &&& t.bits == 0
def isEmpty (s : KindSet) : Bool := s.bits == 0

/-- The members in the order of the kinds, the end of the text first. -/
def toList (s : KindSet) : List Kind := Kind.all.filter s.contains

/-- One member alone, several in braces. -/
def display (s : KindSet) : String :=
  match s.toList with
  | [k] => k.display
  | ks => "\x7b" ++ ", ".intercalate (ks.map Kind.display) ++ "\x7d"

end KindSet

end Coupling.Java
