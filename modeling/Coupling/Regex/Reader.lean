import Coupling.Data.Number
import Coupling.Regex.Basic
import Coupling.Table

/-!
# Reading regular expressions

`Regex.ofText` reads the text of a regular expression. An opening brace that starts no count stands
for itself, and so does a closing bracket that starts a set. Flags for the whole expression stand at
its start. Characters are written as themselves or by their numbers, not by their names.
-/

namespace Coupling.Regex

/-- How an expression is read. -/
structure Flags where
  ignoreCase : Bool := false
  multiline : Bool := false
  dotAll : Bool := false
  verbose : Bool := false
  ascii : Bool := false
  /-- Nothing can be repeated. -/
  template : Bool := false
deriving DecidableEq, Repr, Inhabited

namespace Flags

/-- Switches the flag of a letter. -/
def switch (on : Bool) (f : Flags) : Char → Flags
  | 'i' => { f with ignoreCase := on }
  | 'm' => { f with multiline := on }
  | 's' => { f with dotAll := on }
  | 'x' => { f with verbose := on }
  | 'a' => { f with ascii := on }
  | 'u' => { f with ascii := !on }
  | 't' => { f with template := on }
  | _ => f

def folding (f : Flags) : Folding :=
  if !f.ignoreCase then .exact else if f.ascii then .ascii else .all

end Flags

/-- What is left of the text and what is known of its groups. -/
structure Reading where
  rest : List Char
  /-- The number of the next group. -/
  groups : Nat := 1
  names : Table Nat := ∅
  /-- The groups that are not closed yet. -/
  opened : List Nat := []
  /-- The lengths of what closed groups match. -/
  widths : List (Nat × Nat × Nat) := []
  /-- In an assertion of what stands before: the first group that it cannot refer to. -/
  behind : Option Nat := none
  /-- The largest number of a group that a condition asks for. -/
  asked : Nat := 0
  /-- Whether a fault is found when the text has been read. -/
  late : Bool := false
deriving Inhabited

/-- A step in reading; a fault leaves what is known up to it. -/
abbrev Read := ExceptT Data.Fault (StateM Reading)

namespace Read

/-- The largest number of repetitions. -/
def mostRounds : Nat := 4294967295

def refuse {α : Type} : Read α := throw .badPattern

def peek : Read (Option Char) := return (← get).rest.head?

def skip : Read Unit := modify fun r => { r with rest := r.rest.drop 1 }

/-- The next character, which must be there. -/
def next : Read Char := do
  match ← peek with
  | some c => do
    skip
    return c
  | none => refuse

/-- Passes a character if it is next. -/
def accept (c : Char) : Read Bool := do
  if (← peek) == some c then
    skip
    return true
  return false

def expect (c : Char) : Read Unit := do if !(← accept c) then refuse

/-- The characters of a kind that come next, at most so many. -/
def takeWhile (most : Nat) (p : Char → Bool) : Read (List Char) := do
  let r ← get
  let taken := (r.rest.take most).takeWhile p
  set { r with rest := r.rest.drop taken.length }
  return taken

/-- What comes before a character, which is passed too; it must not be empty. -/
def upTo (c : Char) : Read (List Char) := do
  let r ← get
  let taken := r.rest.takeWhile (· != c)
  if taken.length = r.rest.length || taken.isEmpty then refuse
  set { r with rest := r.rest.drop (taken.length + 1) }
  return taken

def isHex (c : Char) : Bool := c.isDigit || ('a' ≤ c && c ≤ 'f') || ('A' ≤ c && c ≤ 'F')

def isOctal (c : Char) : Bool := '0' ≤ c && c ≤ '7'

def digit (c : Char) : Nat :=
  if c.isDigit then c.toNat - 48 else if 'a' ≤ c then c.toNat - 87 else c.toNat - 55

def value (base : Nat) (cs : List Char) : Nat := cs.foldl (fun n c => n * base + digit c) 0

/-- The character with a number. -/
def charOf (n : Nat) : Read Char := if n.isValidChar then pure (Char.ofNat n) else refuse

/-- A character by so many hexadecimal digits. -/
def hexChar (width : Nat) : Read Char := do
  let cs ← takeWhile width isHex
  if cs.length = width then charOf (value 16 cs) else refuse

/-- The classes of characters that an escape names. -/
def classOf (f : Flags) : Char → Option CharTest
  | 'd' => some (.digit f.ascii)
  | 'D' => some (.outside (.digit f.ascii))
  | 's' => some (.blank f.ascii)
  | 'S' => some (.outside (.blank f.ascii))
  | 'w' => some (.word f.ascii)
  | 'W' => some (.outside (.word f.ascii))
  | _ => none

/-- The characters that an escape names, the backspace only in a set. -/
def controlOf : Char → Option Char
  | 'a' => some '\x07'
  | 'f' => some '\x0c'
  | 'n' => some '\n'
  | 'r' => some '\r'
  | 't' => some '\t'
  | 'v' => some '\x0b'
  | '\\' => some '\\'
  | _ => none

/-- A character by its number, after the letter that says how it is written; an escaped sign stands
for itself. -/
def numbered (c : Char) : Read Char :=
  match c with
  | 'x' => hexChar 2
  | 'u' => hexChar 4
  | 'U' => hexChar 8
  | c => if c.isAlpha then refuse else pure c

/-- A character or class after a backslash in a set. -/
def setEscape (f : Flags) : Read CharTest := do
  let c ← next
  match controlOf c, classOf f c with
  | some d, _ => return .char d
  | _, some t => return t
  | none, none =>
    if c = 'b' then return .char '\x08'
    else if isOctal c then
      let n := value 8 (c :: (← takeWhile 2 isOctal))
      if n > 255 then refuse else return .char (← charOf n)
    else if c.isDigit then refuse
    else return .char (← numbered c)

/-- The rest of a set, of which some tests are read. -/
def setItems (f : Flags) : Nat → List CharTest → Read (List CharTest)
  | 0, _ => refuse
  | fuel + 1, tests => do
    let item (c : Char) : Read CharTest := if c = '\\' then setEscape f else pure (.char c)
    let c ← next
    if c = ']' && !tests.isEmpty then return tests.reverse
    let low ← item c
    if ← accept '-' then
      let d ← next
      if d = ']' then return (.char '-' :: low :: tests).reverse
      match low, ← item d with
      | .char a, .char b => if b < a then refuse else setItems f fuel (.range a b :: tests)
      | _, _ => refuse
    else setItems f fuel (low :: tests)

/-- One character of a set of tests. -/
def single (f : Flags) (negated : Bool) (tests : List CharTest) : Regex :=
  .one ⟨negated, tests, f.folding⟩

/-- Whether a closed group can be referred to. -/
def isClosed (r : Reading) (n : Nat) : Bool := n < r.groups && !r.opened.contains n && n != 0

/-- A reference to a group, which must be closed. -/
def reference (f : Flags) (n : Nat) : Read Regex := do
  let r ← get
  if isClosed r n && r.behind.all (n < ·) then return .again n f.folding else refuse

/-- What a backslash and what follows it stand for. -/
def escape (f : Flags) : Read Regex := do
  let c ← next
  match c with
  | 'A' => return .anchor .textStart
  | 'Z' => return .anchor .textEnd
  | 'b' => return .anchor (.wordEdge f.ascii)
  | 'B' => return .anchor (.noWordEdge f.ascii)
  | _ =>
    match controlOf c, classOf f c with
    | some d, _ => return single f false [.char d]
    | _, some t => return single f false [t]
    | none, none =>
      if c = '0' then return single f false [.char (← charOf (value 8 (← takeWhile 2 isOctal)))]
      else if c.isDigit then
        let more ← takeWhile 1 Char.isDigit
        let ds := c :: more
        let third := (← peek).any isOctal
        if more.length = 1 && ds.all isOctal && third then
          let n := value 8 (ds ++ [← next])
          if n > 255 then refuse else return single f false [.char (← charOf n)]
        else reference f (value 10 ds)
      else return single f false [.char (← numbered c)]

/-- Whether a text can name a group. -/
def isName (cs : List Char) : Bool :=
  match cs with
  | [] => false
  | c :: cs => Text.isWordChar c && !Text.isDigit c && cs.all Text.isWordChar

/-- How often something is repeated: after an opening brace, if it starts a count. -/
def count : Read (Option (Nat × Option Nat)) := do
  let r ← get
  if r.rest.head? = some '\x7d' then return none
  let low ← takeWhile r.rest.length Char.isDigit
  let high ← if ← accept ',' then takeWhile r.rest.length Char.isDigit else pure low
  if !(← accept '\x7d') then
    set r
    return none
  let least := value 10 low
  if !low.isEmpty && least ≥ mostRounds then throw .outOfRange
  if high.isEmpty then return some (least, none)
  let most := value 10 high
  if most ≥ mostRounds then throw .outOfRange
  if most < least then refuse
  return some (least, some most)

/-- Notes a fault that is found when the text has been read. -/
def failLate : Read Unit := modify fun r => { r with late := true }

/-- Repeats the last of the items read; the newest is first. -/
def repeatLast (f : Flags) (least : Nat) (most : Option Nat) : List Regex → Read (List Regex)
  | [] | .anchor _ :: _ | .times _ _ _ _ :: _ | .atomic _ :: _ => refuse
  | r :: items => do
    if f.template then failLate
    if ← accept '?' then return .times least most true r :: items
    if ← accept '+' then return .atomic (.times least most false (.atomic r)) :: items
    return .times least most false r :: items

def isFlag (c : Char) : Bool := "imsxaut".toList.contains c

/-- The letters of flags that are switched on and off after `(?`; none are switched off if they are
for the whole expression. -/
def flagLetters : Read (List Char × Option (List Char)) := do
  let length := (← get).rest.length
  let on ← takeWhile length isFlag
  if on.contains 'a' && on.contains 'u' then refuse
  let c ← next
  if c = ')' && !on.isEmpty then return (on, none)
  if on.contains 't' then refuse
  if c = ':' && !on.isEmpty then return (on, some [])
  let off ← takeWhile length isFlag
  expect ':'
  if c != '-' || off.isEmpty || off.any (fun d => on.contains d || "aut".toList.contains d)
    then refuse
  return (on, some off)

/-- What stands after the next of a character; one after a backslash does not count. -/
def afterNext (stop : Char) (atEnd : Option (List Char)) : List Char → Option (List Char)
  | [] => atEnd
  | ['\\'] => none
  | '\\' :: _ :: cs => afterNext stop atEnd cs
  | c :: cs => if c = stop then some cs else afterNext stop atEnd cs

/-- Passes the rest of a comment up to a sign, or to the end of the text if it can end there. -/
def passComment (stop : Char) (atEnd : Option (List Char)) : Read Unit := do
  let r ← get
  match afterNext stop atEnd r.rest with
  | some rest => set { r with rest }
  | none => refuse

/-- Whether a character is passed where blanks have no meaning. -/
def isPassed (f : Flags) (c : Char) : Bool := f.verbose && (CharTest.blank true).holds .exact c

/-- Opens a group. -/
def openGroup (name : Option (List Char)) : Read Nat := do
  let r ← get
  let names ← match name with
    | none => pure r.names
    | some cs => do
      let s := String.ofList cs
      if !isName cs || r.names.contains s then refuse
      pure (r.names.put s r.groups)
  set { r with groups := r.groups + 1, opened := r.groups :: r.opened, names }
  return r.groups

/-- The lengths of what an expression matches. -/
def widthsOf (r : Regex) : Read (Nat × Nat) := do
  let known := (← get).widths
  return r.widths fun n => ((known.find? (·.1 == n)).map (·.2)).getD (0, 0)

def closeGroup (n : Nat) (r : Regex) : Read Unit := do
  let width ← widthsOf r
  modify fun r => { r with opened := r.opened.filter (· != n), widths := (n, width) :: r.widths }

/-- The group that a condition asks for, by its name or its number. -/
def condition : Read Nat := do
  let name := String.ofList (← upTo ')')
  let r ← get
  let n ← if isName name.toList then
      match r.names.get? name with
      | some n => pure n
      | none => refuse
    else match Data.readWhole name with
      | .ok n => do
        if n ≤ 0 then refuse
        set { r with asked := max r.asked n.toNat }
        pure n.toNat
      | .error _ => refuse
  if r.behind.any fun b => !isClosed r n || b ≤ n then refuse
  return n

/-- Items in order as one expression; the newest is first. -/
def joined (items : List Regex) : Regex :=
  match items with
  | [] => .empty
  | r :: rs => rs.foldl (fun acc r => .seq r acc) r

/-- A sign that stands for one character, or for a place. -/
def sign (f : Flags) (c : Char) : Regex :=
  match c with
  | '.' => .one ⟨true, if f.dotAll then [] else [.char '\n'], .exact⟩
  | '^' => .anchor (if f.multiline then .lineStart else .textStart)
  | '$' => .anchor (if f.multiline then .lineEnd else .lastLineEnd)
  | c => single f false [.char c]

mutual

/-- Expressions with bars between them. -/
def alternatives : Nat → Flags → Read Regex
  | 0, _ => refuse
  | fuel + 1, f => do
    let first ← sequence fuel f []
    if ← accept '|' then return .either first (← alternatives fuel f)
    return first

/-- The rest of a sequence, of which some items are read. -/
def sequence : Nat → Flags → List Regex → Read Regex
  | 0, _, _ => refuse
  | fuel + 1, f, items => do
    match ← peek with
    | none => return joined items
    | some c =>
      if c = '|' || c = ')' then return joined items
      skip
      if isPassed f c then sequence fuel f items
      else if f.verbose && c = '#' then
        passComment '\n' (some [])
        sequence fuel f items
      else match c with
        | '\\' => sequence fuel f ((← escape f) :: items)
        | '[' => do
          let negated ← accept '^'
          let tests ← setItems f ((← get).rest.length + 1) []
          sequence fuel f (single f negated tests :: items)
        | '*' => sequence fuel f (← repeatLast f 0 none items)
        | '+' => sequence fuel f (← repeatLast f 1 none items)
        | '?' => sequence fuel f (← repeatLast f 0 (some 1) items)
        | '\x7b' => do
          match ← count with
          | some (least, most) => sequence fuel f (← repeatLast f least most items)
          | none => sequence fuel f (sign f c :: items)
        | '(' => do
          match ← group fuel f with
          | some r => sequence fuel f (r :: items)
          | none => sequence fuel f items
        | c => sequence fuel f (sign f c :: items)

/-- What stands in parentheses, the opening one read; nothing for a comment. -/
def group : Nat → Flags → Read (Option Regex)
  | 0, _ => refuse
  | fuel + 1, f => do
    if !(← accept '?') then return some (← numberedGroup fuel f none)
    if (← peek).any fun c => isFlag c || c == '-' then
      match ← flagLetters with
      | (on, some off) =>
        let f := off.foldl (Flags.switch false) (on.foldl (Flags.switch true) f)
        return some (.group none (← inner fuel f))
      | (_, none) => refuse
    match ← next with
    | ':' => return some (.group none (← inner fuel f))
    | '>' => return some (.group none (.atomic (← inner fuel f)))
    | '#' => do
      passComment ')' none
      return none
    | '=' => return some (.ahead false (← inner fuel f))
    | '!' => return some (.ahead true (← inner fuel f))
    | '<' => do
      let d ← next
      if d != '=' && d != '!' then refuse
      let outer := (← get).behind
      modify fun r => { r with behind := some (outer.getD r.groups) }
      let r ← inner fuel f
      modify fun r => { r with behind := outer }
      let (least, most) ← widthsOf r
      if least != most then failLate
      return some (.behind (d == '!') least r)
    | 'P' => do
      let d ← next
      if d = '<' then return some (← numberedGroup fuel f (some (← upTo '>')))
      else if d = '=' then
        let cs ← upTo ')'
        match (← get).names.get? (String.ofList cs) with
        | some n => return some (← reference f n)
        | none => refuse
      else refuse
    | '(' => do
      let n ← condition
      let yes ← sequence fuel f []
      let no ← if ← accept '|' then sequence fuel f [] else pure .empty
      expect ')'
      return some (.ifGroup n yes no)
    | _ => refuse

/-- What stands before a closing parenthesis. -/
def inner : Nat → Flags → Read Regex
  | 0, _ => refuse
  | fuel + 1, f => do
    let r ← alternatives fuel f
    expect ')'
    return r

/-- A group with a number. -/
def numberedGroup : Nat → Flags → Option (List Char) → Read Regex
  | 0, _, _ => refuse
  | fuel + 1, f, name => do
    let n ← openGroup name
    let r ← inner fuel f
    closeGroup n r
    return .group (some n) r

end

/-- The letters of the flags for the whole expression, with which it starts; some are known. -/
def leading : Nat → List Char → Read (List Char)
  | 0, letters => return letters
  | fuel + 1, letters => do
    let f := letters.foldl (Flags.switch true) {}
    let r ← get
    match r.rest with
    | '(' :: '?' :: '#' :: rest => do
      set { r with rest }
      passComment ')' none
      leading fuel letters
    | '(' :: '?' :: c :: rest => do
      if !isFlag c then return letters
      set { r with rest := c :: rest }
      match ← flagLetters with
      | (more, none) => leading fuel (letters ++ more)
      | (_, some _) => do
        set r
        return letters
    | c :: rest => do
      if isPassed f c then
        set { r with rest }
        leading fuel letters
      else if f.verbose && c = '#' then
        set { r with rest }
        passComment '\n' (some [])
        leading fuel letters
      else return letters
    | [] => return letters

/-- The whole text, of so many characters. -/
def whole (length : Nat) : Read Regex := do
  let letters ← leading (length + 1) []
  if letters.contains 'a' && letters.contains 'u' then failLate
  let r ← alternatives (4 * length + 8) (letters.foldl (Flags.switch true) {})
  let left ← get
  if left.late || left.groups ≤ left.asked || !left.rest.isEmpty then refuse
  return r

end Read

/-- The expression that a text stands for. -/
def ofText (s : String) : Data.Result Regex :=
  ((Read.whole s.toList.length).run.run { rest := s.toList }).1

end Coupling.Regex
