import Coupling.Sql.Token

/-!
# Tables of database statements

`tables` names the tables that statements read and write. A table counts as often as it is named,
and inside a statement the last one comes first; the definitions of a `WITH` count as if they stood
after the statement that uses them. A statement is read as far as it makes sense and the rest of it
is passed over.
-/

namespace Coupling.Sql

open Data (Result)

/-- Tables in the order in which they are named; `none` is a table whose name is missing. -/
abbrev Named := List (Option String)

/-- What is left to read. -/
abbrev Read := StateM (List Token)

/-- A word in capitals. -/
def capitals (s : String) : String := String.ofList (s.toList.map Char.toUpper)

/-- Words that are neither names nor operands. -/
def reserved : List String :=
  ["FROM", "WHERE", "HAVING", "LIMIT", "OFFSET", "UNION", "INTERSECT", "EXCEPT", "JOIN", "INNER",
    "LEFT", "RIGHT", "FULL", "CROSS", "OUTER", "NATURAL", "ON", "USING", "SET", "SELECT", "AND",
    "OR", "IN", "IS", "LIKE", "ILIKE", "RLIKE", "REGEXP", "BETWEEN", "WHEN", "THEN", "ELSE", "END",
    "AS", "INTO", "WITH", "VALUES", "NOT", "INSERT", "DELETE", "UPDATE", "CREATE", "DROP",
    "QUALIFY", "LATERAL", "BY", "ASC", "DESC", "ESCAPE"]

/-- Words between two operands. -/
def wordOperators : List String :=
  ["AND", "OR", "IN", "IS", "LIKE", "ILIKE", "RLIKE", "REGEXP", "BETWEEN", "ESCAPE",
    "DIV", "COLLATE"]

/-- Signs between two operands. -/
def signOperators : List String :=
  ["=", "<", ">", "<=", ">=", "<>", "!=", "<=>", "+", "-", "*", "/", "%", "||", "&", "|", "^", "::",
    ":=", "->", "->>", "#>", "#>>", "=>", ":"]

/-- Words before an operand. -/
def leadingWords : List String := ["NOT", "DISTINCT", "ALL", "EXISTS", "ANY", "SOME"]

/-- Statements that are taken as they are. -/
def commands : List String :=
  ["ALTER", "ANALYZE", "BEGIN", "CALL", "COMMIT", "COPY", "DESCRIBE", "EXPLAIN", "OPTIMIZE",
    "PREPARE", "ROLLBACK", "SET", "SHOW", "TRUNCATE", "USE", "VACUUM"]

namespace Read

def peek : Read (Option Token) := return (← get).head?

def skip : Read Unit := modify List.tail

/-- The next token as a word in capitals. -/
def peekWord : Read (Option String) := do
  match ← peek with
  | some (.word w) => return some (capitals w)
  | _ => return none

def isNextWord (w : String) : Read Bool := return (← peekWord) == some w

def isNextSign (s : String) : Read Bool := return (← peek) == some (.sign s)

/-- Passes a word if it is next. -/
def accept (w : String) : Read Bool := do
  if ← isNextWord w then
    skip
    return true
  return false

/-- Passes a sign if it is next. -/
def acceptSign (s : String) : Read Bool := do
  if ← isNextSign s then
    skip
    return true
  return false

/-- Passes some words that follow each other, all of them or none. -/
def acceptAll (ws : List String) : Read Bool := do
  let ts ← get
  let found := (ts.take ws.length).filterMap fun
    | .word w => some (capitals w)
    | _ => none
  if found == ws then
    set (ts.drop ws.length)
    return true
  return false

/-- Passes one of some words. -/
def acceptAny (ws : List String) : Read Bool := do
  match ← peekWord with
  | some w =>
    if ws.contains w then
      skip
      return true
    return false
  | none => return false

/-- A name. -/
def identifier : Read (Option String) := do
  match ← peek with
  | some (.word w) =>
    if reserved.contains (capitals w) then return none
    skip
    return some w
  | some (.name n) => do
    skip
    return some n
  | _ => return none

/-- The last of some names with points between them; any word can stand after a point. -/
def lastName : Nat → String → Read (Option String)
  | 0, n => return some n
  | fuel + 1, n => do
    if ← acceptSign "." then
      match ← peek with
      | some (.word w) => do
        skip
        lastName fuel w
      | some (.name m) => do
        skip
        lastName fuel m
      | _ => return none
    else return some n

/-- What follows the bracket that closes the current one. -/
def afterGroup : Nat → List Token → List Token
  | _, [] => []
  | depth, .sign "(" :: ts => afterGroup (depth + 1) ts
  | 0, .sign ")" :: ts => ts
  | depth + 1, .sign ")" :: ts => afterGroup depth ts
  | depth, _ :: ts => afterGroup depth ts

/-- Passes what is left of the current brackets. -/
def closeGroup : Read Unit := modify (afterGroup 0)

/-- Passes brackets with all that is in them. -/
def skipGroup : Read Unit := do if ← acceptSign "(" then closeGroup

/-- Whether the next word starts a clause together with the one after it. -/
def isClauseNext : Read Bool := do
  match ← get with
  | .word a :: .word b :: _ =>
    return (capitals a == "GROUP" || capitals a == "ORDER") && capitals b == "BY"
  | _ => return false

/-- Passes an alias: any token after `AS`, or a name. -/
def skipAlias : Read Unit := do
  if ← accept "AS" then skip
  else if !(← isClauseNext) then
    let _ ← identifier

/-- The words before a join. -/
def joinStart : Read Bool := do
  let ts ← get
  let _ ← accept "NATURAL"
  let _ ← acceptAny ["LEFT", "RIGHT", "FULL"]
  let _ ← acceptAny ["INNER", "OUTER", "CROSS", "SEMI", "ANTI"]
  if ← accept "JOIN" then return true
  set ts
  return false

/-- The words between two queries. -/
def setOperator : Read Bool := do
  if ← acceptAny ["UNION", "INTERSECT", "EXCEPT"] then
    let _ ← acceptAny ["ALL", "DISTINCT"]
    return true
  return false

/-- Whether a query comes next. -/
def isQueryNext : Read Bool := do
  match ← peekWord with
  | some w => return w == "SELECT" || w == "WITH" || w == "VALUES"
  | none => return false

/-- Whether a query in brackets comes next. -/
def isQueryInGroup : Read Bool := do
  match ← get with
  | .sign "(" :: .word w :: _ => return capitals w == "SELECT" || capitals w == "WITH"
  | _ => return false

/-- An operator between two operands. -/
def operator : Read Bool := do
  match ← peek with
  | some (.sign s) =>
    if signOperators.contains s then
      skip
      return true
    return false
  | some (.word _) => do
    if ← acceptAny wordOperators then return true
    let ts ← get
    if ← accept "NOT" then
      if ← acceptAny wordOperators then return true
      set ts
    return false
  | _ => return false

mutual

/-- An operand; `none` if there is none. -/
def operand : Nat → Read (Option Named)
  | 0 => return none
  | fuel + 1 => do
    match ← peek with
    | some .literal => do
      skip
      return some []
    | some (.sign s) =>
      if s == "*" || s == "?" then
        skip
        return some []
      else if s == "-" || s == "+" || s == "~" || s == "@" || s == ":" then
        skip
        operand fuel
      else if s == "(" then
        skip
        return some (← group fuel)
      else return none
    | some (.name _) => do
      skip
      return some (← afterName fuel)
    | some (.word w) => do
      let k := capitals w
      let called := (← get)[1]? == some (.sign "(")
      if k == "CASE" then
        skip
        return some (← cases fuel)
      else if k == "INTERVAL" then
        skip
        let inner ← operand fuel
        let _ ← identifier
        return some (inner.getD [])
      else if leadingWords.contains k then
        skip
        return some ((← operand fuel).getD [])
      else if reserved.contains k && !((k == "LEFT" || k == "RIGHT" || k == "VALUES") && called)
        then return none
      else
        skip
        return some (← afterName fuel)
    | none => return none

/-- What follows a name in an expression: more names after points, arguments in brackets, a
window. -/
def afterName : Nat → Read Named
  | 0 => return []
  | fuel + 1 => do
    if ← acceptSign "." then
      skip
      afterName fuel
    else if ← acceptSign "(" then
      let inner ← group fuel
      if ← accept "OVER" then
        if ← acceptSign "(" then return inner ++ (← group fuel)
        let _ ← identifier
      return inner
    else return []

/-- The branches of a `CASE` up to its end. -/
def cases : Nat → Read Named
  | 0 => return []
  | fuel + 1 => do
    if ← accept "END" then return []
    let marked ← acceptAny ["WHEN", "THEN", "ELSE"]
    match ← expression fuel with
    | some ts => return ts ++ (← cases fuel)
    | none => if marked then cases fuel else return []

/-- Operands with operators between them; `none` if there is no operand. -/
def expression : Nat → Read (Option Named)
  | 0 => return none
  | fuel + 1 => do
    match ← operand fuel with
    | none => return none
    | some first => do
      if ← operator then return some (first ++ (← expression fuel).getD [])
      return some first

/-- Expressions with commas between them, each with an alias or an order. -/
def expressions : Nat → Read Named
  | 0 => return []
  | fuel + 1 => do
    match ← expression fuel with
    | none => return []
    | some first => do
      skipAlias
      let _ ← acceptAny ["ASC", "DESC"]
      if ← acceptSign "," then return first ++ (← expressions fuel)
      return first

/-- What stands in brackets, after the opening one: a query or expressions. Another query can be
joined to it. -/
def group : Nat → Read Named
  | 0 => return []
  | fuel + 1 => do
    let inner ← if ← isQueryNext then query fuel else do
      let _ ← acceptAll ["PARTITION", "BY"]
      let items ← expressions fuel
      let ordered ← if ← acceptAll ["ORDER", "BY"] then expressions fuel else pure []
      pure (items ++ ordered)
    closeGroup
    if ← setOperator then return inner ++ (← query fuel)
    return inner

/-- A table or a query in brackets, with its alias. -/
def table : Nat → Read Named
  | 0 => return []
  | fuel + 1 => do
    let _ ← accept "LATERAL"
    let found ← if ← acceptSign "(" then
        if ← isQueryNext then group fuel else do
          let inner ← table fuel
          let more ← joins fuel
          closeGroup
          pure (inner ++ more)
      else if ← accept "UNNEST" then
        if ← acceptSign "(" then group fuel else pure []
      else do
        match ← identifier with
        | some n => pure [← lastName fuel n]
        | none => pure [none]
    skipAlias
    skipGroup
    return found

/-- Tables with commas between them. -/
def tableList : Nat → Read Named
  | 0 => return []
  | fuel + 1 => do
    let first ← table fuel
    if ← acceptSign "," then return first ++ (← tableList fuel)
    return first

/-- Joins, each with its condition. -/
def joins : Nat → Read Named
  | 0 => return []
  | fuel + 1 => do
    if ← joinStart then
      let joined ← table fuel
      let condition ← if ← accept "ON" then expression fuel
        else if ← accept "USING" then operand fuel
        else pure none
      return joined ++ condition.getD [] ++ (← joins fuel)
    return []

/-- What follows the items of a selection: its tables and then each clause in its place. -/
def clauses : Nat → Read Named
  | 0 => return []
  | fuel + 1 => do
    let read ← if ← accept "FROM" then tableList fuel else pure []
    let joined ← joins fuel
    let condition ← if ← accept "WHERE" then expression fuel else pure none
    let grouped ← if ← acceptAll ["GROUP", "BY"] then expressions fuel else pure []
    let having ← if ← accept "HAVING" then expression fuel else pure none
    let ordered ← if ← acceptAll ["ORDER", "BY"] then expressions fuel else pure []
    let limit ← if ← accept "LIMIT" then expression fuel else pure none
    let offset ← if ← accept "OFFSET" then expression fuel else pure none
    return read ++ joined ++ condition.getD [] ++ grouped ++ having.getD [] ++ ordered ++
      limit.getD [] ++ offset.getD []

/-- Definitions of a `WITH`. -/
def definitions : Nat → Read Named
  | 0 => return []
  | fuel + 1 => do
    let _ ← identifier
    skipGroup
    let _ ← accept "AS"
    let inner ← if ← acceptSign "(" then group fuel else pure []
    if ← acceptSign "," then return inner ++ (← definitions fuel)
    return inner

/-- A query and those joined to it. -/
def query : Nat → Read Named
  | 0 => return []
  | fuel + 1 => do
    if ← accept "WITH" then
      let _ ← accept "RECURSIVE"
      let defined ← definitions fuel
      let body ← statement fuel
      return body.getD [] ++ defined
    let first ← if ← accept "SELECT" then do
        let _ ← acceptAny ["ALL", "DISTINCT"]
        let items ← expressions fuel
        pure (items ++ (← clauses fuel))
      else if ← accept "VALUES" then expressions fuel
      else if ← acceptSign "(" then do
        let inner ← group fuel
        pure (inner ++ (← clauses fuel))
      else pure []
    if ← setOperator then return first ++ (← query fuel)
    return first

/-- A statement; `none` if there is none. -/
def statement : Nat → Read (Option Named)
  | 0 => return none
  | fuel + 1 => do
    match ← peekWord with
    | some w => do
      if ← isQueryNext then return some (← query fuel)
      else if commands.contains w then return some []
      else if w == "INSERT" then
        skip
        let _ ← acceptAny ["INTO", "OVERWRITE"]
        let _ ← accept "TABLE"
        return some (← filled fuel)
      else if w == "UPDATE" then
        skip
        let changed ← table fuel
        let values ← if ← accept "SET" then expressions fuel else pure []
        let read ← if ← accept "FROM" then tableList fuel else pure []
        let condition ← if ← accept "WHERE" then expression fuel else pure none
        return some (changed ++ values ++ read ++ condition.getD [])
      else if w == "DELETE" then
        skip
        let _ ← accept "FROM"
        let changed ← table fuel
        let condition ← if ← accept "WHERE" then expression fuel else pure none
        return some (changed ++ condition.getD [])
      else if w == "CREATE" then
        skip
        created fuel
      else if w == "DROP" then
        skip
        if ← acceptAny ["TABLE", "VIEW"] then
          let _ ← acceptAll ["IF", "EXISTS"]
          return some (← table fuel)
        return none
      else expression fuel
    | none => do
      if ← isNextSign "(" then return some (← query fuel)
      expression fuel

/-- A table with its columns, and the query that fills it. -/
def filled : Nat → Read Named
  | 0 => return []
  | fuel + 1 => do
    let name ← match ← identifier with
      | some n => lastName fuel n
      | none => pure none
    if !(← isQueryInGroup) then skipGroup
    let _ ← accept "AS"
    return name :: (← query fuel)

/-- What a `CREATE` makes; `none` if it is neither a table nor a view nor an index. -/
def created : Nat → Read (Option Named)
  | 0 => return none
  | fuel + 1 => do
    let _ ← acceptAll ["OR", "REPLACE"]
    let _ ← acceptAny ["TEMPORARY", "TEMP", "UNIQUE"]
    if ← acceptAny ["TABLE", "VIEW"] then
      let _ ← acceptAll ["IF", "NOT", "EXISTS"]
      return some (← filled fuel)
    else if ← accept "INDEX" then
      let _ ← identifier
      let _ ← accept "ON"
      return some (← table fuel)
    return none

end

end Read

/-- The statements between semicolons; the last one may end with a semicolon. -/
def splitStatements : List Token → List (List Token)
  | [] => [[]]
  | [.sign ";"] => [[]]
  | .sign ";" :: ts => [] :: splitStatements ts
  | t :: ts =>
    match splitStatements ts with
    | [] => [[t]]
    | s :: ss => (t :: s) :: ss

/-- The tables of one statement, which must be there and name its tables. -/
def statementTables (ts : List Token) : Result (List String) :=
  match ((Read.statement (8 * ts.length + 8)).run ts).1 with
  | none => .error .noOperation
  | some named =>
    match named.reverse.mapM id with
    | some names => .ok names
    | none => .error .noOperation

/-- The tables that the statements of a text name. -/
def tables (sql : String) : Result (List String) := do
  return (← (splitStatements (← tokens sql)).mapM statementTables).flatten

end Coupling.Sql
