import BatchMigrate.Runner.Basic

/-!
# The state of migrations

Each version that is loaded or recorded has one of four states, which compare the script with its row in the version
table.
-/

namespace BatchMigrate

/-- Where a migration stands. -/
inductive MigrationState
  /-- Recorded, and the script is unchanged. -/
  | applied
  /-- Not recorded. -/
  | pending
  /-- Recorded with another checksum than the script has. -/
  | modified
  /-- Recorded, and no selected script has the version. -/
  | orphaned
  deriving DecidableEq, Repr

/-- The state in one word. -/
def MigrationState.label : MigrationState → Text
  | applied => .of "applied"
  | pending => .of "pending"
  | modified => .of "modified"
  | orphaned => .of "orphaned"

/-- The state of one version. -/
structure MigrationStatus where
  version : Int
  description : Text
  state : MigrationState
  /-- The time that is recorded. -/
  appliedOn : Option Text
  deriving DecidableEq, Repr

namespace MigrationStatus

/-- The status of a script, when its version has the given row. -/
def ofMigration (d : Disk) (rows : List Sql.VersionRow) (m : Migration) : Except ReadFault MigrationStatus :=
  match rows.find? (·.version = m.version) with
  | none => .ok ⟨m.version, m.description, .pending, none⟩
  | some row => do
    let checksum ← m.checksum d
    return ⟨m.version, m.description, if row.checksum = checksum then .applied else .modified, some row.appliedOn⟩

/-- The status of the scripts, up to the first that cannot be read. -/
def ofMigrations (d : Disk) (rows : List Sql.VersionRow) : List Migration → Except ReadFault (List MigrationStatus)
  | [] => .ok []
  | m :: rest => do
    let status ← ofMigration d rows m
    return status :: (← ofMigrations d rows rest)

/-- The status of a row without a script. -/
def ofRow (row : Sql.VersionRow) : MigrationStatus := ⟨row.version, row.description, .orphaned, some row.appliedOn⟩

end MigrationStatus

/-- The scripts for a status report, for which it is no fault if nothing is found or selected. -/
def Runner.loadAny (r : Runner) (d : Disk) : Except LoadFault (List Migration) :=
  match r.load d with
  | .error (.noMigrations _) => .ok []
  | .error .noneSelected => .ok []
  | result => result

/-- The state of every version that is loaded or recorded, in the order of the versions. -/
def Runner.status (r : Runner) (d : Disk) : Except RunFault (List MigrationStatus) := do
  let migrations ← (r.loadAny d).mapError .loading
  let rows ← (VersionTable.rows r.config.tablePrefix r.db).mapError .database
  let loaded ← (MigrationStatus.ofMigrations d rows migrations).mapError (.loading ∘ .unreadable)
  let orphans := rows.filter fun row => !migrations.any (·.version = row.version)
  return (loaded ++ orphans.map MigrationStatus.ofRow).mergeSort fun a b => a.version ≤ b.version

end BatchMigrate
