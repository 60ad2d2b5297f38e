import BatchMigrate.Sql.Database
import BatchMigrate.Sql.Statement

/-!
# Running statements

What each statement does to a database. A statement outside a transaction takes effect at once. A row with texts is a row
of a version table, which a script can write like any other row.
-/

namespace BatchMigrate.Sql

/-- The table without its rows. -/
def Table.clear : Table → Table
  | .numbers _ => .numbers []
  | .versions _ => .versions []

namespace Database

/-- Runs a statement. -/
def exec (db : Database) : Statement → Except Fault Database
  | .createTable name _ =>
    .ok (if db.hasTable name then db else { db with tables := db.tables.add name (.numbers []) })
  | .dropTable name ifExists =>
    if db.hasTable name then .ok { db with tables := db.tables.erase name }
    else if ifExists then .ok db
    else .error (.noSuchTable name)
  | .insert name value texts =>
    match db.tables.get? name, texts with
    | some (.numbers rows), [] => .ok { db with tables := db.tables.set name (.numbers (rows ++ [value])) }
    | some (.versions rows), [description, checksum, appliedOn] =>
      if -0x8000000000000000 ≤ value ∧ value ≤ 0x7FFFFFFFFFFFFFFF then
        db.addRow name rows ⟨value, description, checksum, appliedOn⟩
      else .error .mismatch
    | some (.numbers _), texts => .error (.valueCount name 1 (texts.length + 1))
    | some (.versions _), texts => .error (.valueCount name 4 (texts.length + 1))
    | none, _ => .error (.noSuchTable name)
  | .clear name =>
    if db.hasTable name then .ok { db with tables := db.tables.modify name Table.clear }
    else .error (.noSuchTable name)
  | .select _ => .ok db
  | .beginTransaction => db.beginTransaction
  | .commit => db.commit

/-- Runs clauses one by one, up to the first that is refused. What the ones before it did stays. -/
def runClauses (db : Database) : List Clause → Except Fault Unit × Database
  | [] => (.ok (), db)
  | c :: rest =>
    match c.statement db.hasTable >>= db.exec with
    | .ok db => runClauses db rest
    | .error fault => (.error fault, db)

end Database

/-- A text is cut into clauses, and each of them is a statement. -/
instance : Interpreter where
  run db sql := db.runClauses (clauses sql)

end BatchMigrate.Sql
