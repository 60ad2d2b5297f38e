import BatchMigrate.Sql.Fault
import BatchMigrate.Sql.Token

/-!
# SQL statements

The statements that scripts may use, and how tokens are read as statements. A text is cut at its semicolons into
clauses; a clause is read as a whole before it is run. A clause carries the text that is left after the clause before
it, because faults report that text.
-/

namespace BatchMigrate.Sql

/-- A statement. -/
inductive Statement
  | createTable (name : Text) (ifNotExists : Bool)
  | dropTable (name : Text) (ifExists : Bool)
  /-- A row of an integer, and of texts after it. -/
  | insert (name : Text) (value : Int) (texts : List Text)
  /-- Takes all rows out of a table. -/
  | clear (name : Text)
  | select (value : Int)
  | beginTransaction
  | commit
  deriving DecidableEq, Repr

/-! ## Clauses -/

/-- The tokens of one statement, with the semicolon at its end if there is one. -/
structure Clause where
  tokens : List Token
  /-- The text after the clause before. -/
  sql : Text
  /-- The number of bytes before that text. -/
  base : Nat
  deriving DecidableEq, Repr

/-- Cuts tokens at the semicolons. Semicolons that end nothing are skipped. -/
def clausesFrom (sql : Text) (base : Nat) (read : List Token) : List Token → List Clause
  | [] => if read = [] then [] else [⟨read.reverse, sql, base⟩]
  | t :: rest =>
    if t.text = [';'] then
      if read = [] then clausesFrom sql base [] rest
      else ⟨(t :: read).reverse, sql, base⟩ :: clausesFrom t.after (t.offset + 1) [] rest
    else clausesFrom sql base (t :: read) rest

/-- The clauses of a text. -/
def clauses (sql : Text) : List Clause := clausesFrom sql 0 [] (tokens sql)

/-- Where a token of the clause stands. -/
def Clause.place (c : Clause) (t : Token) : Place := ⟨c.sql, t.offset - c.base⟩

/-! ## Reading -/

/-- Reads tokens, and gives what follows. The fault is the first token that does not fit, or none at the end. -/
abbrev Reader (α : Type) := List Token → Except (Option Token) (α × List Token)

namespace Reader

/-- Reads one token that satisfies `p`. -/
def token (p : Token → Bool) : Reader Token
  | [] => .error none
  | t :: rest => if p t then .ok (t, rest) else .error (some t)

/-- Words that name nothing. -/
def reserved : List Text :=
  ["add", "all", "alter", "and", "as", "autoincrement", "between", "case", "check", "collate", "commit",
   "constraint", "create", "default", "deferrable", "delete", "distinct", "drop", "else", "escape", "except",
   "exists", "foreign", "from", "group", "having", "in", "index", "insert", "intersect", "into", "is",
   "isnull", "join", "limit", "not", "nothing", "notnull", "null", "on", "or", "order", "primary",
   "references", "returning", "select", "set", "table", "then", "to", "transaction", "union", "unique",
   "update", "using", "values", "when", "where"].map Text.of

/-- Reads a keyword. -/
def keyword (word : String) : Reader Token :=
  token fun t => t.kind = .word && Text.eqIgnoringAsciiCase t.text (.of word)

/-- A token that can be a name. -/
def isName (t : Token) : Bool := t.kind = .word && !(reserved.contains (Text.lowerAscii t.text))

/-- Reads a name. -/
def name : Reader Token := token isName

/-- Reads a symbol. -/
def symbol (c : Char) : Reader Token := token fun t => t.kind = .symbol && t.text = [c]

/-- Reads a number with an optional sign. -/
def integer : Reader Int := fun ts =>
  match ts with
  | t :: rest =>
    if t.text = ['-'] then
      (token (·.kind = .number) rest).map fun (n, rest) => (-(Text.decimalValue n.text : Int), rest)
    else if t.text = ['+'] then (token (·.kind = .number) rest).map fun (n, rest) => (Text.decimalValue n.text, rest)
    else (token (·.kind = .number) ts).map fun (n, rest) => (Text.decimalValue n.text, rest)
  | [] => .error none

/-- A quoted text. -/
def isQuoted (t : Token) : Bool := t.kind = .symbol && t.text.head? = some '\x27'

/-- The characters inside quotes, where two quotes stand for one. -/
def undouble : Text → Text
  | '\x27' :: '\x27' :: rest => '\x27' :: undouble rest
  | c :: rest => c :: undouble rest
  | [] => []

/-- The text that a quoted text stands for. -/
def unquote (t : Text) : Text := undouble t.tail.dropLast

/-- Reads quoted texts, each after a comma. -/
def texts : Reader (List Text)
  | t :: u :: rest =>
    if t.text = [','] then
      if isQuoted u then (texts rest).map fun (more, rest) => (unquote u.text :: more, rest) else .error (some u)
    else .ok ([], t :: u :: rest)
  | [t] => if t.text = [','] then .error none else .ok ([], [t])
  | [] => .ok ([], [])

/-- Reads the end of a statement. -/
def finish : Reader Unit
  | [] => .ok ((), [])
  | t :: rest => if t.text = [';'] then .ok ((), rest) else .error (some t)

/-- Reads some words if the first of them is there. -/
def optionally (first : String) (more : Reader Unit) : Reader Bool := fun ts =>
  match keyword first ts with
  | .ok (_, rest) => (more rest).map fun (_, rest) => (true, rest)
  | .error _ => .ok (false, ts)

end Reader

/-- The start of a statement that makes a table: whether the table may exist, and its name. -/
def createHead : Reader (Bool × Token) := fun ts => do
  let (_, ts) ← Reader.keyword "table" ts
  let (ifNotExists, ts) ← Reader.optionally "if" (fun ts => do
    let (_, ts) ← Reader.keyword "not" ts
    let (_, ts) ← Reader.keyword "exists" ts
    return ((), ts)) ts
  let (name, ts) ← Reader.name ts
  return ((ifNotExists, name), ts)

/-- The column of a new table with its type, in brackets, and a word that may follow them. -/
def createBody : Reader (Option Token) := fun ts => do
  let (_, ts) ← Reader.symbol '(' ts
  let (_, ts) ← Reader.name ts
  let (_, ts) ← Reader.symbol ')' (ts.dropWhile Reader.isName)
  match ts with
  | t :: rest =>
    if Reader.isName t then
      let (_, rest) ← Reader.finish rest
      return (some t, rest)
    else
      let (_, ts) ← Reader.finish ts
      return (none, ts)
  | [] => return (none, [])

/-- A statement other than one that makes a table, after its first word. -/
def simpleStatement (first : Text) : Option (Reader Statement) :=
  if first = .of "drop" then some fun ts => do
    let (_, ts) ← Reader.keyword "table" ts
    let (ifExists, ts) ← Reader.optionally "if" (fun ts => do
      let (_, ts) ← Reader.keyword "exists" ts
      return ((), ts)) ts
    let (name, ts) ← Reader.name ts
    let (_, ts) ← Reader.finish ts
    return (.dropTable name.text ifExists, ts)
  else if first = .of "insert" then some fun ts => do
    let (_, ts) ← Reader.keyword "into" ts
    let (name, ts) ← Reader.name ts
    let (_, ts) ← Reader.keyword "values" ts
    let (_, ts) ← Reader.symbol '(' ts
    let (value, ts) ← Reader.integer ts
    let (texts, ts) ← Reader.texts ts
    let (_, ts) ← Reader.symbol ')' ts
    let (_, ts) ← Reader.finish ts
    return (.insert name.text value texts, ts)
  else if first = .of "delete" then some fun ts => do
    let (_, ts) ← Reader.keyword "from" ts
    let (name, ts) ← Reader.name ts
    let (_, ts) ← Reader.finish ts
    return (.clear name.text, ts)
  else if first = .of "select" then some fun ts => do
    let (value, ts) ← Reader.integer ts
    let ts := match ts with
      | t :: rest => if Reader.isName t then rest else ts
      | [] => ts
    let (_, ts) ← Reader.finish ts
    return (.select value, ts)
  else if first = .of "begin" then some fun ts => do
    let (_, ts) ← Reader.finish ts
    return (.beginTransaction, ts)
  else if first = .of "commit" then some fun ts => do
    let (_, ts) ← Reader.finish ts
    return (.commit, ts)
  else none

namespace Clause

/-- The fault of a clause in which a token does not fit. -/
def misfit (c : Clause) : Option Token → Fault
  | none => .incomplete
  | some t => if t.kind = .illegal then .unrecognized t.text (c.place t) else .unexpected t.text (c.place t)

/-- Names that only the database itself may use. -/
def isReservedName (name : Text) : Bool := (Text.of "sqlite_").isPrefixOf (Text.lowerAscii name)

/-- The statement that makes a table, after its first word. That the name is taken shows as soon as the list of columns
begins, before the rest is read. -/
def create (c : Clause) (taken : Text → Bool) (ts : List Token) : Except Fault Statement := do
  let ((ifNotExists, name), ts) ← (createHead ts).mapError c.misfit
  if ts.head?.any (·.text = ['(']) then
    if isReservedName name.text then throw (.reservedName name.text)
    if taken name.text && !ifNotExists then throw (.tableExists name.text (c.place name))
  let (option, _) ← (createBody ts).mapError c.misfit
  match option with
  | some word => .error (.unknownOption word.text)
  | none => .ok (.createTable name.text ifNotExists)

/-- The statement of a clause, when some names of tables are taken. -/
def statement (c : Clause) (taken : Text → Bool) : Except Fault Statement :=
  match c.tokens with
  | [] => .error .incomplete
  | t :: rest =>
    if t.kind = .word && Text.lowerAscii t.text = .of "create" then c.create taken rest
    else match if t.kind = .word then simpleStatement (Text.lowerAscii t.text) else none with
      | some read => ((read rest).mapError c.misfit).map Prod.fst
      | none => .error (c.misfit (some t))

end Clause

end BatchMigrate.Sql
