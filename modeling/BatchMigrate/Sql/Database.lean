import BatchMigrate.Order
import BatchMigrate.Sql.Fault

/-!
# The database

Tables with their rows, and at most one open transaction, which keeps the tables as they were when it began. Names of
tables are compared without regard to the case of ASCII letters. A table has one column of integers, or it is a version
table with a row for each applied migration. What a text of SQL does to a database is left to an `Interpreter`.
-/

namespace BatchMigrate.Sql

/-- What is recorded about an applied migration. -/
structure VersionRow where
  version : Int
  description : Text
  checksum : Text
  appliedOn : Text
  deriving DecidableEq, Repr

/-- A table and its rows. -/
inductive Table
  /-- One column of integers, in the order of insertion. -/
  | numbers (rows : List Int)
  /-- A version table, in the order of the versions. -/
  | versions (rows : List VersionRow)
  deriving DecidableEq, Repr

/-- Tables by their names. -/
abbrev Tables := List (Text × Table)

namespace Tables

/-- The table of that name. -/
def get? (name : Text) (tables : Tables) : Option Table :=
  (tables.find? fun (n, _) => Text.eqIgnoringAsciiCase n name).map Prod.snd

/-- The name under which the table of that name was made. -/
def declared (name : Text) (tables : Tables) : Text :=
  ((tables.find? fun (n, _) => Text.eqIgnoringAsciiCase n name).map Prod.fst).getD name

/-- The tables with the one of that name changed. -/
def modify (name : Text) (f : Table → Table) (tables : Tables) : Tables :=
  tables.map fun (n, t) => (n, if Text.eqIgnoringAsciiCase n name then f t else t)

/-- The tables with the one of that name replaced. -/
def set (name : Text) (table : Table) (tables : Tables) : Tables := tables.modify name fun _ => table

/-- The tables with a new one. -/
def add (name : Text) (table : Table) (tables : Tables) : Tables := tables ++ [(name, table)]

/-- The tables without the one of that name. -/
def erase (name : Text) (tables : Tables) : Tables :=
  tables.filter fun (n, _) => !Text.eqIgnoringAsciiCase n name

end Tables

/-- A database. -/
structure Database where
  tables : Tables := []
  /-- The tables at the begin of the open transaction, if one is open. -/
  saved : Option Tables := none
  deriving DecidableEq, Repr

namespace Database

/-! ## Transactions -/

/-- Begins a transaction. -/
def beginTransaction (db : Database) : Except Fault Database :=
  if db.saved.isSome then .error .nestedTransaction else .ok { db with saved := some db.tables }

/-- Ends the open transaction and keeps what it did. -/
def commit (db : Database) : Except Fault Database :=
  if db.saved.isSome then .ok { db with saved := none } else .error .noTransaction

/-- Ends the open transaction, if there is one, and undoes what it did. -/
def rollback (db : Database) : Database :=
  match db.saved with
  | some tables => { tables, saved := none }
  | none => db

/-! ## Access -/

/-- There is a table of that name. -/
def hasTable (db : Database) (name : Text) : Bool := (db.tables.get? name).isSome

/-- The integers in a table, or none if there is no such table. -/
def numbers? (db : Database) (name : Text) : Option (List Int) :=
  match db.tables.get? name with
  | some (.numbers rows) => some rows
  | _ => none

/-- Adds a row to the version table of that name, which has the given rows. Its version must be a new one. -/
def addRow (db : Database) (name : Text) (rows : List VersionRow) (row : VersionRow) : Except Fault Database :=
  if rows.any (·.version = row.version) then .error (.notUnique (db.tables.declared name) (.of "version"))
  else .ok { db with tables := db.tables.set name (.versions (insertBy VersionRow.version row rows)) }

end Database

/-! ## Running SQL -/

/-- What the statements of a text do to a database: they are run one by one, up to the first that is refused, and what the
ones before it did stays. -/
class Interpreter where
  run : Database → Text → Except Fault Unit × Database

/-- Runs the statements of a text. -/
def Database.run [Interpreter] (db : Database) (sql : Text) : Except Fault Unit × Database := Interpreter.run db sql

end BatchMigrate.Sql
