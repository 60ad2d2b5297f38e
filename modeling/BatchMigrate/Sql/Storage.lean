import BatchMigrate.Files.Tree
import BatchMigrate.Sql.Image

/-!
# Where a database is kept

A database lives in a file, which is made when the database is opened, or only in memory under the name `:memory:`. The
path of the file is simplified before it is looked up: a `..` takes back the name before it whether or not that name
exists.
-/

namespace BatchMigrate.Sql

/-- Where a database is kept. -/
inductive Storage
  | memory
  /-- The file that the names lead to from the root. -/
  | file (names : List Text)
  deriving DecidableEq, Repr

namespace Storage

/-- The names that a path leads along, when no folder on the way is looked at. -/
def simplify (here : List Text) : List Text → List Text
  | [] => here
  | piece :: rest =>
    if piece = [] || piece = ['.'] then simplify here rest
    else if piece = ['.', '.'] then simplify here.dropLast rest
    else simplify (here ++ [piece]) rest

/-- The place that a path names, if a file can be there. -/
def ofPath? (d : Disk) (p : Path) : Option Storage :=
  if p = .of ":memory:" then some memory
  else
    let names := simplify (if p.isAbsolute then [] else d.working) (Text.splitOn '/' p)
    match d.root.get? names.dropLast, d.root.get? names with
    | some (.folder _), some (.file _) => some (file names)
    | some (.folder _), none => some (file names)
    | _, _ => none

/-- The database that is kept there; a file that does not exist holds an empty one. -/
def load (d : Disk) : Storage → Except Fault Database
  | memory => .ok {}
  | file names =>
    match d.root.get? names with
    | some (.file bytes) =>
      match Image.toTables? bytes with
      | some tables => .ok { tables }
      | none => .error .notADatabase
    | _ => .ok {}

/-- The disk with the database, without what an open transaction did. -/
def save (db : Database) (d : Disk) : Storage → Disk
  | memory => d
  | file names => { d with root := d.root.put names (.file (Image.ofTables db.rollback.tables)) }

end Storage

end BatchMigrate.Sql
