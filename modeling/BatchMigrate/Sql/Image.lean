import BatchMigrate.Sql.Database
import BatchMigrate.Text.Utf8

/-!
# Databases as files

The tables of a database as bytes, and back. A file without bytes is a database without tables. Any other one begins
with a fixed line; then each table has a line with its kind and its name, followed by a line for each row, which begins
with a tab. Tabs separate the values of a row, so they are escaped inside a value, as are line feeds and backslashes.
-/

namespace BatchMigrate.Sql.Image

/-! ## Values -/

/-- A character inside a value. -/
def escape (c : Char) : Text :=
  if c = '\\' then ['\\', '\\'] else if c = '\n' then ['\\', 'n'] else if c = '\t' then ['\\', 't'] else [c]

/-- A text as a value. -/
def write (t : Text) : Text := t.flatMap escape

/-- The text that a value stands for. -/
def read? : Text → Option Text
  | [] => some []
  | '\\' :: '\\' :: rest => ('\\' :: ·) <$> read? rest
  | '\\' :: 'n' :: rest => ('\n' :: ·) <$> read? rest
  | '\\' :: 't' :: rest => ('\t' :: ·) <$> read? rest
  | c :: rest => if c = '\\' then none else (c :: ·) <$> read? rest

/-! ## Rows -/

/-- The first line. -/
def heading : Text := .of "tables\x00"

/-- The line of a row. -/
def rowLine (values : List Text) : Text := Text.intercalate ['\t'] ([] :: values.map write)

/-- The lines of a table. -/
def tableLines (name : Text) : Table → List Text
  | .numbers rows => (.of "numbers\t" ++ write name) :: rows.map fun n => rowLine [.ofInt n]
  | .versions rows =>
    (.of "versions\t" ++ write name) ::
      rows.map fun r => rowLine [.ofInt r.version, r.description, r.checksum, r.appliedOn]

/-- The integer in a row of a table of integers. -/
def number? : List Text → Option Int
  | [n] => Text.integer? n
  | _ => none

/-- The row of a version table that values stand for. -/
def versionRow? : List Text → Option VersionRow
  | [version, description, checksum, appliedOn] =>
    (Text.integer? version).map fun version => ⟨version, description, checksum, appliedOn⟩
  | _ => none

/-! ## Tables -/

/-- The table with the rows that lines of values stand for. -/
def table? (kind : Text) (rows : List (List Text)) : Option Table :=
  if kind = .of "numbers" then .numbers <$> rows.mapM number?
  else if kind = .of "versions" then .versions <$> rows.mapM versionRow?
  else none

/-- The tables in lines of values, and the rows before the first table. -/
def tables? : List (List Text) → Option (List (List Text) × Tables)
  | [] => some ([], [])
  | line :: rest => do
    let (rows, tables) ← tables? rest
    match line with
    | [] :: values => return (values :: rows, tables)
    | [kind, name] => return ([], (name, ← table? kind rows) :: tables)
    | _ => none

/-- The bytes of a file that holds the tables. -/
def ofTables (tables : Tables) : List UInt8 :=
  if tables = [] then []
  else Text.utf8 (Text.intercalate ['\n'] (heading :: tables.flatMap fun (name, table) => tableLines name table))

/-- The tables in a file, if it holds tables. -/
def toTables? (bytes : List UInt8) : Option Tables :=
  if bytes = [] then some []
  else do
    let text ← (Text.ofUtf8 bytes).toOption
    match Text.splitOn '\n' text with
    | first :: lines =>
      if first = heading then do
        let lines ← lines.mapM fun line => (Text.splitOn '\t' line).mapM read?
        match ← tables? lines with
        | ([], tables) => some tables
        | _ => none
      else none
    | [] => none

end BatchMigrate.Sql.Image
