import BatchMigrate.Migration.Load
import BatchMigrate.Runner.Plan
import BatchMigrate.Runner.VersionTable

/-!
# Applying migrations

A runner applies the scripts that its settings select to one database. Each migration runs in a transaction of its own,
together with the row that records it, so that a script that fails leaves nothing behind, and the ones before it stay
applied. What the texts of a script do to the database is up to the interpreter of SQL.
-/

namespace BatchMigrate

/-- Why a run stops. -/
inductive RunFault
  /-- The database refuses an access to the version table or the end of a transaction. -/
  | database (fault : Sql.Fault)
  /-- The settings or the scripts cannot be loaded. -/
  | loading (fault : LoadFault)
  /-- A script cannot be split. -/
  | splitting (version : Int) (fault : SplitFault)
  /-- The database refuses a batch of a script. -/
  | execution (version : Int) (batch : Nat) (fault : Sql.Fault)
  /-- The name of the version table may not begin like this. -/
  | invalidPrefix (tablePrefix : Text)
  /-- No script has the version up to which migrations are to be applied. -/
  | unknownVersion (version : Int)
  deriving DecidableEq, Repr

/-- The fault in words. -/
def RunFault.message : RunFault → String
  | database fault => "database error: " ++ fault.message
  | loading fault => "loader error: " ++ fault.message
  | splitting version fault => "migration " ++ (Text.ofInt version).str ++ ": " ++ fault.message
  | execution version batch fault =>
    "migration " ++ (Text.ofInt version).str ++ ", batch " ++ (Text.ofNat batch).str ++ ": " ++ fault.message
  | invalidPrefix start =>
    "invalid prefix '" ++ start.str ++ "': must contain only alphanumeric characters and underscores"
  | unknownVersion version => "unknown migration version: " ++ (Text.ofInt version).str

/-- Settings that have been checked, with the database that they are for. -/
structure Runner where
  config : Config
  splitter : Splitter
  db : Sql.Database

/-- What a run has applied. -/
structure ApplyReport where
  /-- The versions, in order. -/
  applied : List Int := []
  /-- How often a batch was sent to the database. -/
  batchesExecuted : Nat := 0
  deriving DecidableEq, Repr

namespace Runner

/-- A runner for the settings, whose database has a version table. -/
def connect (config : Config) (db : Sql.Database) : Except RunFault Runner := do
  if !isTablePrefix config.tablePrefix then throw (.invalidPrefix config.tablePrefix)
  let splitter ← config.splitter.splitter.mapError .loading
  let db ← (VersionTable.create config.tablePrefix db).mapError .database
  return { config, splitter, db }

variable [Sql.Interpreter]

/-! ## One script -/

/-- Sends a text to the database a number of times, up to the first time that it is refused. -/
def sendTimes (sql : Text) : Nat → Sql.Database → Except Sql.Fault Unit × Sql.Database
  | 0, db => (.ok (), db)
  | n + 1, db =>
    match db.run sql with
    | (.ok (), db) => sendTimes sql n db
    | (.error fault, db) => (.error fault, db)

/-- Carries out a plan, up to the first batch that is refused: the number of texts sent, or the number of that batch. -/
def carryOut (sent : Nat) : List PlannedBatch → Sql.Database → Except (Nat × Sql.Fault) Nat × Sql.Database
  | [], db => (.ok sent, db)
  | b :: rest, db =>
    match sendTimes b.sql b.sends db with
    | (.ok (), db) => carryOut (sent + b.sends) rest db
    | (.error fault, db) => (.error (b.number, fault), db)

/-- Carries out a plan inside a transaction, records the version, and commits. A fault undoes what is not committed. -/
def transact (tablePrefix : Text) (row : Sql.VersionRow) (plan : List PlannedBatch) (db : Sql.Database) :
    Except RunFault Nat × Sql.Database :=
  match db.beginTransaction with
  | .error fault => (.error (.database fault), db)
  | .ok db =>
    match carryOut 0 plan db with
    | (.error (batch, fault), db) => (.error (.execution row.version batch fault), db.rollback)
    | (.ok sent, db) =>
      match VersionTable.insert tablePrefix row db with
      | .error fault => (.error (.database fault), db.rollback)
      | .ok db =>
        match db.commit with
        | .error fault => (.error (.database fault), db)
        | .ok db => (.ok sent, db)

/-- Applies one migration at the time `now`: the number of texts sent to the database. -/
def applyOne (config : Config) (splitter : Splitter) (d : Disk) (now : Text) (m : Migration) (db : Sql.Database) :
    Except RunFault Nat × Sql.Database :=
  match m.readWithChecksum d with
  | .error fault => (.error (.loading (.unreadable fault)), db)
  | .ok (script, checksum) =>
    match splitter.splitText config.splitter.stripComments script with
    | .error fault => (.error (.splitting m.version fault), db)
    | .ok events =>
      transact config.tablePrefix ⟨m.version, m.description, checksum, now⟩ (PlannedBatch.ofEvents events) db

/-! ## All scripts -/

/-- Applies the migrations that are not among the recorded versions, up to the first that fails. -/
def applyAll (config : Config) (splitter : Splitter) (d : Disk) (now : Text) (recorded : List Int)
    (report : ApplyReport) : List Migration → Sql.Database → Except RunFault ApplyReport × Sql.Database
  | [], db => (.ok report, db)
  | m :: rest, db =>
    if m.version ∈ recorded then
      match m.checksum d with
      | .error fault => (.error (.loading (.unreadable fault)), db)
      | .ok _ => applyAll config splitter d now recorded report rest db
    else
      match applyOne config splitter d now m db with
      | (.error fault, db) => (.error fault, db)
      | (.ok sent, db) =>
        applyAll config splitter d now recorded
          { applied := report.applied ++ [m.version], batchesExecuted := report.batchesExecuted + sent } rest db

/-- Applies those of the loaded migrations that are not recorded. -/
def apply (r : Runner) (d : Disk) (now : Text) (migrations : List Migration) : Except RunFault ApplyReport × Runner :=
  match VersionTable.rows r.config.tablePrefix r.db with
  | .error fault => (.error (.database fault), r)
  | .ok rows =>
    let (result, db) := applyAll r.config r.splitter d now (rows.map (·.version)) {} migrations r.db
    (result, { r with db })

/-- The migrations that the settings select, in the order of their versions. -/
def load (r : Runner) (d : Disk) : Except LoadFault (List Migration) :=
  Migration.load d r.config.scriptsDir r.config.filter

/-- Applies every pending migration. -/
def up (r : Runner) (d : Disk) (now : Text) : Except RunFault ApplyReport × Runner :=
  match r.load d with
  | .error fault => (.error (.loading fault), r)
  | .ok migrations => r.apply d now migrations

/-- Applies the pending migrations up to a version, which one of the scripts must have. -/
def upTo (r : Runner) (d : Disk) (now : Text) (target : Int) : Except RunFault ApplyReport × Runner :=
  match r.load d with
  | .error fault => (.error (.loading fault), r)
  | .ok migrations =>
    if migrations.any (·.version = target) then r.apply d now (migrations.filter (·.version ≤ target))
    else (.error (.unknownVersion target), r)

/-- The largest recorded version, if any is recorded. -/
def currentVersion (r : Runner) : Except RunFault (Option Int) :=
  (VersionTable.maxVersion r.config.tablePrefix r.db).mapError .database

end Runner

end BatchMigrate
