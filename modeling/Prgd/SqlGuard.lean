import Prgd.NetGuard

/-!
# SQL checks

`checkSql` of the database tool: a tokenizer, a few rules for read only connections
and a flat scan that collects the tables of a statement, which must be among the
`allowedTables` of the connection. The case mappings are parameters, as in the
network guard.
-/
namespace Prgd.SqlGuard
open NetGuard (Casing)

inductive TokenKind where
  | word | ident | punct | str | num
  deriving DecidableEq

structure Token where
  kind : TokenKind
  value : Text
  deriving DecidableEq

/-! ## Tokens -/

/-- The rest of a string literal: its value, and how far its closing quote is. -/
def literal : Text → Option (Text × ℕ)
  | [] => none
  | '\\' :: d :: cs => (literal cs).map fun r => (d :: r.1, r.2 + 2)
  | '\'' :: '\'' :: cs => (literal cs).map fun r => ('\'' :: r.1, r.2 + 2)
  | '\'' :: _ => some ([], 1)
  | c :: cs => (literal cs).map fun r => (c :: r.1, r.2 + 1)

theorem literal_backslash (d : Char) (cs : Text) :
    literal ('\\' :: d :: cs) = (literal cs).map fun r => (d :: r.1, r.2 + 2) := rfl

theorem literal_quotes (cs : Text) :
    literal ('\'' :: '\'' :: cs) = (literal cs).map fun r => ('\'' :: r.1, r.2 + 2) := rfl

/-- The rest of a quoted identifier. -/
def quoted (close : Char) : Text → Option (Text × ℕ)
  | [] => none
  | [c] => if c = close then some ([], 1) else none
  | c :: d :: cs =>
      if c = close then
        if d = close then (quoted close cs).map fun r => (close :: r.1, r.2 + 2)
        else some ([], 1)
      else (quoted close (d :: cs)).map fun r => (c :: r.1, r.2 + 1)

theorem quoted_singleton (close c : Char) :
    quoted close [c] = if c = close then some ([], 1) else none := rfl

theorem quoted_cons_cons (close c d : Char) (cs : Text) :
    quoted close (c :: d :: cs) =
      if c = close then
        if d = close then (quoted close cs).map fun r => (close :: r.1, r.2 + 2)
        else some ([], 1)
      else (quoted close (d :: cs)).map fun r => (c :: r.1, r.2 + 1) := rfl

/-- `\$[A-Za-z_]*\$` at the start of a text that begins with a dollar sign. -/
def dollarTag (cs : Text) : Option Text :=
  let name := cs.takeWhile fun c => Text.isLetter c || c == '_'
  match cs.drop name.length with
  | '$' :: _ => some ('$' :: name ++ ['$'])
  | _ => none

/-- `\d+(\.\d+)?` -/
def number (cs : Text) : Text :=
  let whole := cs.takeWhile Text.isDigit
  match cs.drop whole.length with
  | '.' :: rest =>
      let frac := rest.takeWhile Text.isDigit
      if frac = [] then whole else whole ++ '.' :: frac
  | _ => whole

/-- The quote of identifiers in MySQL. -/
def graveAccent : Char := Char.ofNat 96

def isWordPart (c : Char) : Bool := Text.isWord c || c == '$'

/-- What stands at a character: a token or nothing, and how many characters it takes. -/
def token (c : Char) (cs : Text) : Except Text (Option Token × ℕ) :=
  if Text.isSpace c then .ok (none, 1)
  else if Text.startsWith (c :: cs) "--".toList ∨ c = '#' then
    match Text.breakOn ['\n'] (c :: cs) with
    | none => .ok (none, (c :: cs).length)
    | some (line, _) => .ok (none, line.length + 1)
  else if Text.startsWith (c :: cs) "/*".toList then
    if cs[1]? = some '!' ∨ cs[1]? = some '+' then
      .error "executable comments are not allowed".toList
    else match Text.breakOn "*/".toList (cs.drop 1) with
      | none => .error "unclosed comment".toList
      | some (comment, _) => .ok (none, comment.length + 4)
  else if c = '\'' then
    match literal cs with
    | none => .error "unclosed string literal".toList
    | some (v, n) => .ok (some ⟨.str, v⟩, n + 1)
  else if (c = 'E' ∨ c = 'e') ∧ cs.head? = some '\'' then
    match literal cs.tail with
    | none => .error "unclosed string literal".toList
    | some (v, n) => .ok (some ⟨.str, v⟩, n + 2)
  else
    match if c = '$' then dollarTag cs else none with
    | some tag =>
        match Text.breakOn tag ((c :: cs).drop tag.length) with
        | none => .error "unclosed dollar quoted string".toList
        | some (v, _) => .ok (some ⟨.str, v⟩, v.length + 2 * tag.length)
    | none =>
        if c = '"' ∨ c = graveAccent ∨ c = '[' then
          match quoted (if c = '[' then ']' else c) cs with
          | none => .error "unclosed quoted identifier".toList
          | some (v, n) => .ok (some ⟨.ident, v⟩, n + 1)
        else if Text.isDigit c then
          .ok (some ⟨.num, number (c :: cs)⟩, (number (c :: cs)).length)
        else if Text.isLetter c ∨ c = '_' then
          let w := c :: cs.takeWhile isWordPart
          .ok (some ⟨.word, w⟩, w.length)
        else .ok (some ⟨.punct, [c]⟩, 1)

/-- The loop of `tokenizeSql`; `skip` characters of the last token are still to be passed. -/
def tokens : ℕ → Text → Except Text (List Token)
  | _, [] => .ok []
  | skip + 1, _ :: cs => tokens skip cs
  | 0, c :: cs => do
      let (t, taken) ← token c cs
      return t.toList ++ (← tokens (taken - 1) cs)

def tokenizeSql (sql : Text) : Except Text (List Token) := tokens 0 sql

example : (tokenizeSql "SELECT 'it''s'".toList).toOption =
    some [⟨.word, "SELECT".toList⟩, ⟨.str, "it's".toList⟩] := by decide

def Token.isPunct (t : Token) (c : Char) : Bool := t.kind = .punct ∧ t.value = [c]

def Token.isName (t : Token) : Bool := t.kind = .word ∨ t.kind = .ident

/-- The next token is this character. -/
def starts (c : Char) (ts : List Token) : Bool := ts.head?.any fun t => t.isPunct c

/-! ## Names and words -/

def writeWords : List String :=
  ["insert", "update", "delete", "merge", "upsert", "drop", "alter", "create", "truncate", "grant",
    "revoke", "copy", "call", "execute", "exec", "prepare", "lock", "vacuum", "analyze", "analyse",
    "refresh", "reindex", "cluster", "notify", "listen", "outfile", "dumpfile"]

def dangerousFunctions : List String :=
  ["pg_read_file", "pg_read_binary_file", "pg_ls_dir", "pg_stat_file", "lo_import", "lo_export",
    "lo_get", "dblink", "dblink_exec", "pg_sleep", "pg_terminate_backend", "pg_cancel_backend",
    "set_config", "pg_reload_conf", "pg_rotate_logfile", "query_to_xml", "load_file", "sleep",
    "benchmark", "sys_exec", "sys_eval", "nextval", "setval", "txid_current"]

def readStarts : List String :=
  ["select", "with", "show", "explain", "describe", "desc", "values", "table"]

def systemSchemas : List String :=
  ["information_schema", "pg_catalog", "mysql", "performance_schema", "sys"]

/-- The words that end a list of tables for the scan. -/
def clauseWords : List String :=
  ["where", "group", "order", "limit", "having", "union", "on", "select", "offset", "fetch",
    "window", "using"]

section
variable (casing : Casing)

/-- `lower`: the word in lower case, empty for every other token. -/
def lower (t : Token) : Text := if t.kind = .word then casing.toLowerCase t.value else []

/-- The token is one of these words. -/
def isOneOf (ws : List String) (t : Token) : Bool :=
  (ws.map String.toList).contains (lower casing t)

def nameParts : List Token → List Text × List Token
  | [] => ([], [])
  | t :: ts =>
      if t.isName then
        match ts with
        | [] => ([casing.toLowerCase t.value], [])
        | dot :: rest =>
            if dot.isPunct '.' then
              let (parts, after) := nameParts rest
              (casing.toLowerCase t.value :: parts, after)
            else ([casing.toLowerCase t.value], dot :: rest)
      else ([], t :: ts)

/-- A possibly qualified name, and the tokens behind it. -/
def readName (ts : List Token) : Option (Text × List Token) :=
  match nameParts casing ts with
  | ([], _) => none
  | (parts, rest) => some (Text.join ['.'] parts, rest)

/-! ## Read only -/

/-- A write word that is neither a function call nor a qualified column. -/
def writeWord (prev : Option Token) : List Token → Option Text
  | [] => none
  | t :: ts =>
      if isOneOf casing writeWords t ∧ ¬starts '(' ts ∧ ¬(prev.any fun p => p.isPunct '.') then
        some (lower casing t)
      else writeWord (some t) ts

/-- The loop over row locks and `SELECT INTO`. -/
def lockOrInto : List Token → Option Text
  | t :: u :: ts =>
      if isOneOf casing ["for"] t ∧ isOneOf casing ["update", "share", "no"] u then
        some "row locks (FOR UPDATE / FOR SHARE) are not allowed".toList
      else if isOneOf casing ["into"] t then
        some "SELECT INTO is not allowed on a read only connection".toList
      else lockOrInto (u :: ts)
  | _ => none

def readOnlyText (what : Text) : Text := "this connection is read only; ".toList ++ what

def readOnlyIssue (ts : List Token) : Option Text :=
  let words := (ts.filter fun t => t.kind = .word).map (lower casing)
  if ¬(words.head?.any fun w => (readStarts.map String.toList).contains w) then
    some (readOnlyText ((words.head?.map casing.toUpperCase).getD "the statement".toList ++
      " is not a read".toList))
  else
    match writeWord casing none ts with
    | some bad => some (readOnlyText (casing.toUpperCase bad ++ " is not allowed".toList))
    | none => lockOrInto casing ts

def dangerousCall : List Token → Option Text
  | [] => none
  | t :: ts =>
      if isOneOf casing dangerousFunctions t ∧ starts '(' ts then
        some (lower casing t ++ "() is not allowed".toList)
      else dangerousCall ts

/-! ## Tables -/

/-- The names that a token introduces as common table expressions, as the scan sees it. -/
def cteAt (t : Token) (ts : List Token) : List Text :=
  let name := readName casing ts
  (if (isOneOf casing ["with"] t ∨ t.isPunct ',') ∧ ts.head?.any Token.isName then
    match name with
    | some (n, rest) =>
        if (rest.head?.any fun u => isOneOf casing ["as"] u) ∨ starts '(' rest then [n] else []
    | none => []
  else []) ++
  if isOneOf casing ["recursive"] t then (name.map Prod.fst).toList else []

def cteNames : List Token → List Text
  | t :: u :: v :: ts => cteAt casing t (u :: v :: ts) ++ cteNames (u :: v :: ts)
  | _ => []

structure Found where
  tables : List Text
  functionsInFrom : List Text

def isSource (first : Bool) (t : Token) : Bool :=
  isOneOf casing ["from", "join", "into", "update"] t ∨ isOneOf casing ["table"] t ∧ first

/-- The loop that collects tables: `first` at the first token, `depthFrom` in a list. -/
def scan (cte : List Text) : Bool → Bool → List Token → Found → Found
  | _, _, [], found => found
  | first, depthFrom, t :: ts, found =>
      let source := isSource casing first t
      if source ∨ depthFrom ∧ t.isPunct ',' then
        let depthFrom := if source then isOneOf casing ["from"] t else depthFrom
        match readName casing ts with
        | none => scan cte false depthFrom ts found
        | some (n, rest) =>
            if starts '(' rest then
              scan cte false depthFrom ts
                { found with functionsInFrom := found.functionsInFrom ++ [n] }
            else if n ∈ cte ∨ n ∈ found.tables then scan cte false depthFrom ts found
            else scan cte false depthFrom ts { found with tables := found.tables ++ [n] }
      else scan cte false (if isOneOf casing clauseWords t then false else depthFrom) ts found

def found (ts : List Token) : Found := scan casing (cteNames casing ts) true false ts ⟨[], []⟩

def allowedNames (allowedTables : List Text) : List Text :=
  (allowedTables.map fun t => casing.toLowerCase (Text.trim t)).filter fun t => t ≠ []

def inSystemSchema (n : Text) : Bool :=
  (Text.split n ['.']).head?.any fun s => (systemSchemas.map String.toList).contains s

/-- `ok`: the name is listed, or its last part is and its schema is not one of the system. -/
def allows (allowedTables : List Text) (n : Text) : Bool :=
  let allowed := allowedNames casing allowedTables
  allowed.contains n ||
    (n.contains '.' && ((Text.split n ['.']).getLast?.any fun p => allowed.contains p) &&
      !inSystemSchema n)

def tablesIssue (allowedTables : List Text) (f : Found) : Option Text :=
  if f.functionsInFrom ≠ [] then
    some ("functions in FROM (".toList ++ Text.join ", ".toList f.functionsInFrom ++
      ") are not allowed when the connection limits tables".toList)
  else
    match f.tables.find? fun t =>
      inSystemSchema t && !(allowedNames casing allowedTables).contains t with
    | some sys => some (sys ++ " is not in the connection's allowed tables".toList)
    | none =>
        let denied := f.tables.filter fun t => !allows casing allowedTables t
        if denied ≠ [] then
          some ("not in the connection's allowed tables: ".toList ++ Text.join ", ".toList denied)
        else none

/-! ## The check -/

structure SqlCheck where
  ok : Bool
  reason : Option Text := none
  tables : List Text := []
  deriving DecidableEq

def refused (reason : Text) : SqlCheck := { ok := false, reason := some reason }

/-- The tokens of one statement, without a trailing semicolon. -/
def statement (sql : Text) : Except Text (List Token) := do
  let ts ← tokenizeSql sql
  if ts.dropLast.any fun t => t.isPunct ';' then .error "only one statement per query".toList
  else
    let ts := if ts.getLast?.any fun t => t.isPunct ';' then ts.dropLast else ts
    if ts = [] then .error "empty query".toList else .ok ts

def checkSql (sql : Text) (readOnly : Bool) (allowedTables : List Text) : SqlCheck :=
  match statement sql with
  | .error e => refused e
  | .ok ts =>
      match if readOnly then readOnlyIssue casing ts else none with
      | some reason => refused reason
      | none =>
          match dangerousCall casing ts with
          | some reason => refused reason
          | none =>
              let f := found casing ts
              match if allowedTables = [] then none else tablesIssue casing allowedTables f with
              | some reason => { ok := false, reason := some reason, tables := f.tables }
              | none => { ok := true, tables := f.tables }

end

end Prgd.SqlGuard
