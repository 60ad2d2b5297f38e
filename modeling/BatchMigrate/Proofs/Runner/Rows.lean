import BatchMigrate.Proofs.Migration.Load
import BatchMigrate.Proofs.Runner.Transaction

/-!
# How the version table grows

A script that does not name the version table cannot touch it, even if it begins and ends transactions of its own: the
table is the same in the tables as they are and in those that a rollback brings back (`Database.Holds`). So applying a
migration leaves the version table as it is or adds one row, for a version that had none (`Runner.transact_table`); and
a run over migrations adds rows for versions that had none and takes no row away (`Runner.applyAll_rows`). If the run
succeeds, these are the versions in its report, and every migration has a row afterwards.
-/

namespace BatchMigrate

open Sql

/-! ## Tables that are not touched -/

namespace Sql.Database

/-- The table of that name is the given one, and it was at the begin of the open transaction. -/
def Holds (db : Database) (name : Text) (table : Option Table) : Prop :=
  db.tables.get? name = table ∧ ∀ tables, db.saved = some tables → tables.get? name = table

variable {db db' : Database} {name : Text} {table : Option Table}

theorem Holds.runAll [Interpreter] [LawfulInterpreter] {texts : List Text} (hd : db.Holds name table)
    (h : ∀ sql ∈ texts, Spares name sql) : (db.runAll texts).2.Holds name table := runAll_frame h (P := (· = table)) hd

theorem Holds.rollback (hd : db.Holds name table) : db.rollback.tables.get? name = table :=
  Throughout.rollback (P := fun tables => tables.get? name = table) hd

theorem Holds.begun (tables : Tables) (name : Text) : Holds ⟨tables, some tables⟩ name (tables.get? name) :=
  Throughout.begun (P := fun tables' => tables'.get? name = tables.get? name) rfl

end Sql.Database

/-! ## New rows -/

namespace VersionTable

variable {tablePrefix : Text} {db db' : Database} {rows : List VersionRow}

theorem rows_eq_ok_iff : VersionTable.rows tablePrefix db = .ok rows ↔
    db.tables.get? (name tablePrefix) = some (.versions rows) :=
  ⟨rows_eq_ok, fun h => by rw [VersionTable.rows, rowsFor, h]⟩

/-- A row is only added for a version that has none. -/
theorem exists_of_insert_eq_ok {row : VersionRow} (h : insert tablePrefix row db = .ok db') :
    ∃ rows, db.tables.get? (name tablePrefix) = some (.versions rows) ∧ (∀ r ∈ rows, r.version ≠ row.version) ∧
      db'.tables.get? (name tablePrefix) = some (.versions (insertBy VersionRow.version row rows)) := by
  simp only [insert] at h
  split at h
  · rename_i rows hg
    obtain ⟨hnew, rfl⟩ := Database.addRow_eq_ok.1 h
    exact ⟨rows, hg, hnew, Tables.get?_set_self _ hg⟩
  · cases h
  · cases h

/-- The rows `after` are those `before` and one for each of the versions, none of which had a row. -/
structure Recorded (before after : List VersionRow) (versions : List Int) : Prop where
  kept : before ⊆ after
  nodup : versions.Nodup
  fresh : ∀ v ∈ versions, v ∉ before.map (·.version)
  mem_iff : ∀ v, v ∈ after.map (·.version) ↔ v ∈ before.map (·.version) ∨ v ∈ versions

namespace Recorded

variable {before middle after : List VersionRow} {earlier later : List Int}

theorem refl (rows : List VersionRow) : Recorded rows rows [] where
  kept := List.Subset.refl rows
  nodup := List.nodup_nil
  fresh _ h := by cases h
  mem_iff v := by simp

theorem insertBy {row : VersionRow} (h : ∀ r ∈ rows, r.version ≠ row.version) :
    Recorded rows (insertBy VersionRow.version row rows) [row.version] where
  kept _ hr := mem_insertBy.2 (Or.inr hr)
  nodup := List.nodup_cons.2 ⟨List.not_mem_nil, List.nodup_nil⟩
  fresh v hv hm := by
    rw [List.mem_singleton] at hv
    obtain ⟨r, hr, hrv⟩ := List.mem_map.1 hm
    exact h r hr (hrv.trans hv)
  mem_iff v := by
    simp only [List.mem_map, mem_insertBy, List.mem_singleton]
    constructor
    · rintro ⟨r, rfl | hr, rfl⟩
      · exact Or.inr rfl
      · exact Or.inl ⟨r, hr, rfl⟩
    · rintro (⟨r, hr, rfl⟩ | rfl)
      · exact ⟨r, Or.inr hr, rfl⟩
      · exact ⟨row, Or.inl rfl, rfl⟩

/-- What is recorded first has a row when the rest is recorded, so it is not recorded again. -/
theorem trans (h : Recorded before middle earlier) (h' : Recorded middle after later) :
    Recorded before after (earlier ++ later) where
  kept _ hr := h'.kept (h.kept hr)
  nodup := List.nodup_append.2 ⟨h.nodup, h'.nodup, fun v hv w hw hvw =>
    h'.fresh w hw ((h.mem_iff w).2 (Or.inr (hvw ▸ hv)))⟩
  fresh v hv hm := (List.mem_append.1 hv).elim (fun hv => h.fresh v hv hm)
    fun hv => h'.fresh v hv ((h.mem_iff v).2 (Or.inl hm))
  mem_iff v := by rw [h'.mem_iff, h.mem_iff, List.mem_append, or_assoc]

end Recorded

end VersionTable

/-! ## One migration -/

namespace Runner

open PlannedBatch VersionTable

variable [Interpreter]

/-- No statement of the script names the version table whose name begins with `q`. -/
def SparesTableOf [LawfulInterpreter] (q : Text) (r : Runner) (d : Disk) (m : Migration) : Prop :=
  r.EachBatch d m (Spares (name q))

/-- No statement of the script names the version table. -/
def SparesTable [LawfulInterpreter] (r : Runner) (d : Disk) (m : Migration) : Prop :=
  r.SparesTableOf r.config.tablePrefix d m

variable [LawfulInterpreter]

/-- **One transaction** leaves the version table as it is and fails, or adds the row, for a version that had none. A
script that commits on its own can do both: its row stays, and the end of the transaction fails. -/
theorem transact_table (tablePrefix : Text) (row : VersionRow) (plan : List PlannedBatch) (db : Database)
    (hname : ∀ sql ∈ texts plan, Spares (name tablePrefix) sql) :
    ((∃ fault, (transact tablePrefix row plan db).1 = .error fault) ∧
      (transact tablePrefix row plan db).2.tables.get? (name tablePrefix) = db.tables.get? (name tablePrefix)) ∨
    ∃ rows, db.tables.get? (name tablePrefix) = some (.versions rows) ∧ (∀ r ∈ rows, r.version ≠ row.version) ∧
      (transact tablePrefix row plan db).2.tables.get? (name tablePrefix) =
        some (.versions (insertBy VersionRow.version row rows)) := by
  have hd := (Database.Holds.begun db.tables (name tablePrefix)).runAll hname
  have hend := transact_ends row tablePrefix plan db
  generalize transact tablePrefix row plan db = final at hend ⊢
  cases hend with
  | nested => exact Or.inl ⟨⟨_, rfl⟩, rfl⟩
  | undone => exact Or.inl ⟨⟨_, rfl⟩, hd.rollback⟩
  | ended _ hinsert | committed _ hinsert =>
    obtain ⟨rows, hrows, hnew, hrow⟩ := exists_of_insert_eq_ok hinsert
    exact Or.inr ⟨rows, hd.1.symm.trans hrows, hnew, hrow⟩

section Rows

variable {r : Runner} {d : Disk} {m : Migration} (now : Text)

/-- **One migration** fails and leaves the version table as it is, or adds the row of a version that had none. -/
theorem applyOne_table (hspares : r.SparesTable d m) (db : Database) :
    ((∃ fault, (applyOne r.config r.splitter d now m db).1 = .error fault) ∧
      (applyOne r.config r.splitter d now m db).2.tables.get? (name r.config.tablePrefix) =
        db.tables.get? (name r.config.tablePrefix)) ∨
    ∃ before after, db.tables.get? (name r.config.tablePrefix) = some (.versions before) ∧
      Recorded before after [m.version] ∧
      (applyOne r.config r.splitter d now m db).2.tables.get? (name r.config.tablePrefix) = some (.versions after) := by
  rcases applyOne_eq_error_or_transact r.config r.splitter d now m db with
    ⟨fault, ha⟩ | ⟨script, sum, events, hread, hsplit, ha⟩ <;> rw [ha]
  · exact Or.inl ⟨⟨fault, rfl⟩, rfl⟩
  · rcases transact_table r.config.tablePrefix ⟨m.version, m.description, sum, now⟩ (ofEvents events) db
        (hspares.texts hread hsplit) with hfailed | ⟨rows, hrows, hnew, hrow⟩
    · exact Or.inl hfailed
    · exact Or.inr ⟨rows, _, hrows, .insertBy hnew, hrow⟩

/-- **A run over migrations** records versions that had no row. If it succeeds, these are the versions in its report,
which are those of the migrations that it was not told to be recorded. -/
theorem applyAll_rows (recorded : List Int) : ∀ {ms : List Migration} {db : Database} {rows : List VersionRow}
    (report : ApplyReport), (∀ m ∈ ms, r.SparesTable d m) →
      db.tables.get? (name r.config.tablePrefix) = some (.versions rows) →
      ∃ after versions, Recorded rows after versions ∧
        (applyAll r.config r.splitter d now recorded report ms db).2.tables.get? (name r.config.tablePrefix) =
          some (.versions after) ∧
        ∀ final, (applyAll r.config r.splitter d now recorded report ms db).1 = .ok final →
          final.applied = report.applied ++ versions ∧
            versions = (ms.filter fun m => m.version ∉ recorded).map (·.version)
  | [], db, rows, report, _, hrows => by
    refine ⟨rows, [], .refl rows, hrows, fun final h => ?_⟩
    cases h
    exact ⟨(List.append_nil _).symm, rfl⟩
  | m :: ms, db, rows, report, hspares, hrows => by
    obtain ⟨hspare, hspares⟩ := List.forall_mem_cons.1 hspares
    rw [applyAll]
    by_cases hm : m.version ∈ recorded
    · rw [if_pos hm, List.filter_cons_of_neg (by simpa using hm)]
      split
      · exact ⟨rows, [], .refl rows, hrows, fun final h => by cases h⟩
      · exact applyAll_rows recorded report hspares hrows
    · rw [if_neg hm, List.filter_cons_of_pos (by simpa using hm)]
      have hone := applyOne_table now hspare db
      rcases ha : applyOne r.config r.splitter d now m db with ⟨fault | sent, db₁⟩
      · rw [ha] at hone
        rcases hone with ⟨_, hsame⟩ | ⟨before, after, hbefore, hrec, hafter⟩
        · exact ⟨rows, [], .refl rows, hsame.trans hrows, fun final h => by cases h⟩
        · rw [hrows] at hbefore
          cases hbefore
          exact ⟨after, [m.version], hrec, hafter, fun final h => by cases h⟩
      · rw [ha] at hone
        rcases hone with ⟨⟨_, hfault⟩, _⟩ | ⟨before, middle, hbefore, hrec, hmiddle⟩
        · cases hfault
        · rw [hrows] at hbefore
          cases hbefore
          obtain ⟨after, versions, hrest, hafter, hok⟩ := applyAll_rows recorded
            { applied := report.applied ++ [m.version], batchesExecuted := report.batchesExecuted + sent } hspares hmiddle
          refine ⟨after, [m.version] ++ versions, hrec.trans hrest, hafter, fun final h => ?_⟩
          obtain ⟨happlied, hversions⟩ := hok final h
          exact ⟨by rw [happlied, List.append_assoc], by rw [hversions]; rfl⟩

/-! ## Runs -/

/-- What a run does to the rows of the version table: it fails and there are none, or it records versions. -/
theorem apply_rows {ms : List Migration} (hspares : ∀ m ∈ ms, r.SparesTable d m) {rows : List VersionRow}
    (hrows : VersionTable.rows r.config.tablePrefix r.db = .ok rows) :
    ∃ after versions, Recorded rows after versions ∧
      VersionTable.rows r.config.tablePrefix (r.apply d now ms).2.db = .ok after ∧
      ∀ report, (r.apply d now ms).1 = .ok report → report.applied = versions ∧
        versions = (ms.filter fun m => m.version ∉ rows.map (·.version)).map (·.version) := by
  obtain ⟨after, versions, hrec, hafter, hok⟩ := applyAll_rows now (rows.map (·.version)) {}
    hspares (rows_eq_ok hrows)
  rw [apply, hrows]
  exact ⟨after, versions, hrec, rows_eq_ok_iff.2 hafter, hok⟩

end Rows

end Runner

end BatchMigrate
