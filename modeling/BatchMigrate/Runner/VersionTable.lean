import BatchMigrate.Config.Basic
import BatchMigrate.Sql.Database
import BatchMigrate.Sql.Statement

/-!
# The version table

Applied migrations are recorded in a table of the database, one row for each version. The start of its name is a
setting, so that several sets of scripts can share a database.
-/

namespace BatchMigrate.VersionTable

open Sql

/-! ## SQL -/

/-- The name of the version table. -/
def name (tablePrefix : Text) : Text := tablePrefix ++ .of "version_info"

/-- What stands before the name of the table in the statement that makes it. -/
def createHead : Text := .of "\nCREATE TABLE IF NOT EXISTS "

/-- The statement that makes a version table, unless there is one. -/
def createSql (tablePrefix : Text) : Text :=
  createHead ++ name tablePrefix ++
    .of (" (\n    version INTEGER PRIMARY KEY,\n    description TEXT NOT NULL,\n    checksum TEXT NOT NULL,\n" ++
      "    applied_on TEXT NOT NULL\n);\n")

/-- The statement that makes a version table, if its name may begin like this. -/
def createSql? (tablePrefix : Text) : Option Text :=
  if isTablePrefix tablePrefix then some (createSql tablePrefix) else none

/-- The query for all rows. -/
def rowsSql (tablePrefix : Text) : Text :=
  .of "SELECT version, description, checksum, applied_on FROM " ++ name tablePrefix

/-- The query for the largest version. -/
def maxSql (tablePrefix : Text) : Text := .of "SELECT MAX(version) FROM " ++ name tablePrefix

/-! ## Access -/

/-- Makes the version table, unless there is a table of that name. The name has to be one that a table can have. -/
def create (tablePrefix : Text) (db : Database) : Except Fault Database :=
  let name := name tablePrefix
  if !(name.head?.any beginsWord) then
    .error (.unrecognized name ⟨createSql tablePrefix, createHead.utf8.length⟩)
  else if Clause.isReservedName name then .error (.reservedName name)
  else .ok (if db.hasTable name then db else { db with tables := db.tables.add name (.versions []) })

/-- The rows of the version table, for a query in which the column of versions is named at byte `offset`. -/
def rowsFor (query : Text) (offset : Nat) (tablePrefix : Text) (db : Database) : Except Fault (List VersionRow) :=
  match db.tables.get? (name tablePrefix) with
  | some (.versions rows) => .ok rows
  | some (.numbers _) => .error (.noSuchColumn (.of "version") ⟨query, offset⟩)
  | none => .error (.noSuchTable (name tablePrefix))

/-- The rows of the version table, in the order of the versions. -/
def rows (tablePrefix : Text) (db : Database) : Except Fault (List VersionRow) :=
  rowsFor (rowsSql tablePrefix) (Text.of "SELECT ").utf8.length tablePrefix db

/-- The largest recorded version, if any is recorded. -/
def maxVersion (tablePrefix : Text) (db : Database) : Except Fault (Option Int) :=
  (rowsFor (maxSql tablePrefix) (Text.of "SELECT MAX(").utf8.length tablePrefix db).map fun rows =>
    (rows.map (·.version)).max?

/-- Adds a row for a version that has none. -/
def insert (tablePrefix : Text) (row : VersionRow) (db : Database) : Except Fault Database :=
  let name := name tablePrefix
  match db.tables.get? name with
  | some (.versions rows) => db.addRow name rows row
  | some (.numbers _) => .error (.noColumnNamed name (.of "version"))
  | none => .error (.noSuchTable name)

/-- Takes a version out of the table. -/
def forget (tablePrefix : Text) (version : Int) (db : Database) : Except Fault Database :=
  let name := name tablePrefix
  match db.tables.get? name with
  | some (.versions rows) =>
    .ok { db with tables := db.tables.set name (.versions (rows.filter (·.version ≠ version))) }
  | some (.numbers _) => .error (.noSuchColumn (.of "version") ⟨.of "DELETE FROM " ++ name, 0⟩)
  | none => .error (.noSuchTable name)

end BatchMigrate.VersionTable
