import BatchMigrate.Proofs.Runner.Rows

/-!
# Times are only written down

The queries of a runner do not look at the times in the version table, and neither do scripts that do not name it: erasing
the times before a run has the same effect as erasing them after it (`Runner.applyAll_timeless`). So two runs that start
from databases with the same rows but for the times, at whatever times, have the same results and end in databases with
the same rows but for the times.
-/

namespace BatchMigrate

open Sql

namespace Sql

/-! ## Erasing times -/

/-- The row without its time. -/
def VersionRow.timeless (row : VersionRow) : VersionRow := { row with appliedOn := [] }

/-- The table without the times of its rows. -/
def Table.timeless : Table → Table
  | .numbers rows => .numbers rows
  | .versions rows => .versions (rows.map VersionRow.timeless)

end Sql

/-! ## The version table -/

namespace VersionTable

variable (tablePrefix : Text) (db : Database)

theorem map_version_timeless (rows : List VersionRow) :
    (rows.map VersionRow.timeless).map (·.version) = rows.map (·.version) := by
  rw [List.map_map]
  rfl

theorem rows_timeless : VersionTable.rows tablePrefix (db.modify (name tablePrefix) Table.timeless) =
    (VersionTable.rows tablePrefix db).map (List.map VersionRow.timeless) := by
  rw [VersionTable.rows, VersionTable.rows, rowsFor, rowsFor, Database.modify, Tables.get?_modify_self]
  cases db.tables.get? (name tablePrefix) with
  | none => rfl
  | some table => cases table <;> rfl

theorem insert_timeless (row : VersionRow) :
    insert tablePrefix row.timeless (db.modify (name tablePrefix) Table.timeless) =
      (insert tablePrefix row db).map (Database.modify (name tablePrefix) Table.timeless) := by
  simp only [insert, Database.modify, Tables.get?_modify_self]
  cases db.tables.get? (name tablePrefix) with
  | none => rfl
  | some table =>
    cases table with
    | numbers rows => rfl
    | versions rows =>
      have hany : (rows.map VersionRow.timeless).any (fun r => decide (r.version = row.timeless.version)) =
          rows.any fun r => decide (r.version = row.version) := by
        rw [List.any_map]
        rfl
      have hinsert := @map_insertBy _ VersionRow.version VersionRow.timeless (fun _ => rfl) row rows
      simp only [Option.map_some, Table.timeless, Database.addRow, hany, Tables.declared_modify]
      split
      · rfl
      · simp only [Except.map, Database.modify, Tables.modify_set, Table.timeless, hinsert]

end VersionTable

/-! ## Runs -/

namespace Runner

open PlannedBatch VersionTable

variable [Interpreter] [LawfulInterpreter]

theorem carryOut_modify {table : Text} (f : Table → Table) : ∀ {plan : List PlannedBatch},
    (∀ sql ∈ texts plan, Spares table sql) → ∀ (sent : Nat) (db : Database),
      carryOut sent plan (db.modify table f) = Prod.map id (Database.modify table f) (carryOut sent plan db)
  | [], _, _, _ => rfl
  | b :: rest, h, sent, db => by
    rw [texts_cons] at h
    obtain ⟨hfirst, hrest⟩ := List.forall_mem_append.1 h
    rw [carryOut, carryOut, sendTimes_eq_runAll, sendTimes_eq_runAll, Database.runAll_blind f hfirst]
    rcases db.runAll (List.replicate b.sends b.sql) with ⟨_ | _, db'⟩
    · rfl
    · exact carryOut_modify f hrest _ db'

/-- **One transaction.** -/
theorem transact_timeless (tablePrefix : Text) (row : VersionRow) {plan : List PlannedBatch}
    (h : ∀ sql ∈ texts plan, Spares (name tablePrefix) sql) (db : Database) :
    transact tablePrefix row.timeless plan (db.modify (name tablePrefix) Table.timeless) =
      Prod.map id (Database.modify (name tablePrefix) Table.timeless) (transact tablePrefix row plan db) := by
  rw [transact, transact, Database.beginTransaction_modify]
  cases db.beginTransaction with
  | error fault => rfl
  | ok db₁ =>
    simp only [Except.map, carryOut_modify _ h]
    rcases carryOut 0 plan db₁ with ⟨⟨batch, fault⟩ | sent, db₂⟩
    · simp only [Prod.map, id, Database.rollback_modify]
      rfl
    · simp only [Prod.map, id, insert_timeless]
      cases insert tablePrefix row db₂ with
      | error fault => simp only [Except.map, Database.rollback_modify]
      | ok db₃ =>
        simp only [Except.map, Database.commit_modify]
        cases db₃.commit <;> rfl

/-- The runner without the times in its version table. -/
def timeless (r : Runner) : Runner := { r with db := r.db.modify (name r.config.tablePrefix) Table.timeless }

variable {r : Runner} {d : Disk} (now : Text)

theorem applyOne_timeless {m : Migration} (hspares : r.SparesTable d m) (db : Database) :
    applyOne r.config r.splitter d [] m (db.modify (name r.config.tablePrefix) Table.timeless) =
      Prod.map id (Database.modify (name r.config.tablePrefix) Table.timeless)
        (applyOne r.config r.splitter d now m db) := by
  rw [applyOne, applyOne]
  rcases hread : m.readWithChecksum d with _ | ⟨script, sum⟩
  · rfl
  · dsimp only
    cases hsplit : r.splitter.splitText r.config.splitter.stripComments script with
    | error fault => rfl
    | ok events =>
      exact transact_timeless r.config.tablePrefix ⟨m.version, m.description, sum, now⟩ (hspares.texts hread hsplit) db

/-- **Several migrations.** A run at any time does what a run without times does. -/
theorem applyAll_timeless (recorded : List Int) : ∀ {ms : List Migration}, (∀ m ∈ ms, r.SparesTable d m) →
    ∀ (report : ApplyReport) (db : Database),
      applyAll r.config r.splitter d [] recorded report ms (db.modify (name r.config.tablePrefix) Table.timeless) =
        Prod.map id (Database.modify (name r.config.tablePrefix) Table.timeless)
          (applyAll r.config r.splitter d now recorded report ms db)
  | [], _, _, _ => rfl
  | m :: ms, hspares, report, db => by
    obtain ⟨hspare, hspares⟩ := List.forall_mem_cons.1 hspares
    rw [applyAll, applyAll]
    by_cases hm : m.version ∈ recorded
    · rw [if_pos hm, if_pos hm]
      cases m.checksum d with
      | error fault => rfl
      | ok sum => exact applyAll_timeless recorded hspares report db
    · rw [if_neg hm, if_neg hm, applyOne_timeless now hspare]
      rcases applyOne r.config r.splitter d now m db with ⟨_ | sent, db'⟩
      · rfl
      · exact applyAll_timeless recorded hspares _ db'

variable {ms : List Migration} (hspares : ∀ m ∈ ms, r.SparesTable d m)

include hspares

theorem apply_timeless : r.timeless.apply d [] ms = Prod.map id timeless (r.apply d now ms) := by
  have hrows := rows_timeless r.config.tablePrefix r.db
  rw [apply, apply]
  simp only [timeless] at hrows ⊢
  rw [hrows]
  cases VersionTable.rows r.config.tablePrefix r.db with
  | error fault => rfl
  | ok rows =>
    simp only [Except.map, map_version_timeless, applyAll_timeless now _ hspares]
    rfl

/-- Migrations that are applied at different times to databases with the same rows but for the times. -/
theorem applyAll_congr (now' : Text) (recorded : List Int) (report : ApplyReport) {db db' : Database}
    (h : db.modify (name r.config.tablePrefix) Table.timeless = db'.modify (name r.config.tablePrefix) Table.timeless) :
    (applyAll r.config r.splitter d now recorded report ms db).1 =
        (applyAll r.config r.splitter d now' recorded report ms db').1 ∧
      (applyAll r.config r.splitter d now recorded report ms db).2.modify (name r.config.tablePrefix) Table.timeless =
        (applyAll r.config r.splitter d now' recorded report ms db').2.modify (name r.config.tablePrefix)
          Table.timeless := by
  have heq := applyAll_timeless now recorded hspares report db
  rw [h, applyAll_timeless now' recorded hspares report db'] at heq
  exact ⟨(congrArg Prod.fst heq).symm, (congrArg Prod.snd heq).symm⟩

/-- **The time of a run** makes no difference but for the times that it writes down. -/
theorem apply_congr (now' : Text) : (r.apply d now ms).1 = (r.apply d now' ms).1 ∧
    (r.apply d now ms).2.timeless = (r.apply d now' ms).2.timeless := by
  have heq := apply_timeless now hspares
  rw [apply_timeless now' hspares] at heq
  exact ⟨(congrArg Prod.fst heq).symm, (congrArg Prod.snd heq).symm⟩

end Runner

end BatchMigrate
