import BatchMigrate.Proofs.Runner.Atomic
import BatchMigrate.Proofs.Runner.Rows

/-!
# Migrations that are applied

A run over loaded migrations applies those that are pending, one after the other (`Runner.completeAll`), all of them if it
succeeds (`Runner.completeAll_of_applyAll`) and those before the one that fails otherwise (`Runner.exists_of_applyAll`).
This needs no law of SQL. If no script writes rows of the version table itself (`VersionTable.KeepsRows`,
`Runner.LeavesRows`), each migration that is applied adds its own row and nothing else to the table, and so do several
(`Runner.completeAll_rows`).
-/

namespace BatchMigrate

open Sql

/-! ## Rows that a text leaves -/

namespace VersionTable

/-- The rows with others, added one after the other. -/
def insertRows (added rows : List VersionRow) : List VersionRow :=
  added.foldl (fun rows row => insertBy VersionRow.version row rows) rows

theorem perm_insertRows : ∀ added rows : List VersionRow, (insertRows added rows).Perm (added ++ rows)
  | [], _ => List.Perm.refl _
  | row :: added, rows => by
    have hrest := perm_insertRows added (insertBy VersionRow.version row rows)
    exact hrest.trans (((perm_insertBy VersionRow.version row rows).append_left added).trans List.perm_middle)

/-- If a version table of that name is among the tables, it has the rows. -/
def Confined (name : Text) (rows : List VersionRow) (tables : Tables) : Prop :=
  ∀ rows', tables.get? name = some (.versions rows') → rows' = rows

/-- The text writes no row of the version table of that name, and takes none out of it. It may drop the table. -/
def KeepsRows [Interpreter] (name sql : Text) : Prop :=
  ∀ (rows : List VersionRow) (db : Database), db.Throughout (Confined name rows) →
    (db.run sql).2.Throughout (Confined name rows)

end VersionTable

namespace Runner

open PlannedBatch VersionTable

/-- The row is the one that records the migration at the time `now`. -/
def IsRowOf (d : Disk) (now : Text) (m : Migration) (row : VersionRow) : Prop :=
  ∃ sum, m.checksum d = .ok sum ∧ row = ⟨m.version, m.description, sum, now⟩

theorem versions_of_isRowOf {d : Disk} {now : Text} {ms : List Migration} {added : List VersionRow}
    (h : List.Forall₂ (IsRowOf d now) ms added) : added.map (·.version) = ms.map (·.version) := by
  induction h with
  | nil => rfl
  | cons hrow _ ih =>
    obtain ⟨_, _, rfl⟩ := hrow
    rw [List.map_cons, List.map_cons, ih]

variable {r : Runner} {d : Disk} {now : Text} {m : Migration}

section Runs

variable [Interpreter] {db db' : Database}

/-! ## One migration -/

/-- **A transaction that ends well** adds its row to the version table, and nothing else. -/
theorem transact_row {tablePrefix : Text} {row : VersionRow} {plan : List PlannedBatch} {sent : Nat}
    {rows : List VersionRow} (hkeeps : ∀ sql ∈ texts plan, KeepsRows (name tablePrefix) sql)
    (h : (transact tablePrefix row plan db).1 = .ok sent)
    (hrows : db.tables.get? (name tablePrefix) = some (.versions rows)) :
    (transact tablePrefix row plan db).2.tables.get? (name tablePrefix) =
      some (.versions (insertBy VersionRow.version row rows)) := by
  have hfirst : Confined (name tablePrefix) rows db.tables := fun rows' hrows' => by
    cases hrows.symm.trans hrows'
    rfl
  have honly := Database.runAll_invariant (fun sql hsql => hkeeps sql hsql rows) (.begun hfirst)
  have hend := transact_ends row tablePrefix plan db
  generalize transact tablePrefix row plan db = final at hend h ⊢
  cases hend with
  | nested | undone | ended => cases h
  | committed _ hinsert =>
    obtain ⟨rows', hrows', _, hrow⟩ := exists_of_insert_eq_ok hinsert
    cases honly.1 rows' hrows'
    exact hrow

/-- **A migration that is applied** adds its row to the version table, and nothing else. -/
theorem applyOne_of_ok {sent : Nat} {rows : List VersionRow}
    (hkeeps : r.EachBatch d m (KeepsRows (name r.config.tablePrefix)))
    (h : applyOne r.config r.splitter d now m db = (.ok sent, db'))
    (hrows : db.tables.get? (name r.config.tablePrefix) = some (.versions rows)) :
    ∃ row, IsRowOf d now m row ∧
      db'.tables.get? (name r.config.tablePrefix) = some (.versions (insertBy VersionRow.version row rows)) := by
  rcases applyOne_eq_error_or_transact r.config r.splitter d now m db with
    ⟨_, ha⟩ | ⟨script, sum, events, hread, hsplit, ha⟩ <;> rw [ha] at h
  · cases h
  · have hrow := transact_row (hkeeps.texts hread hsplit) (congrArg Prod.fst h) hrows
    rw [h] at hrow
    exact ⟨_, ⟨sum, (Migration.readWithChecksum_eq_ok hread).2, rfl⟩, hrow⟩

/-! ## Several migrations -/

/-- The database after migrations that are all applied, one after the other. -/
def completeAll (r : Runner) (d : Disk) (now : Text) : List Migration → Database → Option Database
  | [], db => some db
  | m :: rest, db =>
    match applyOne r.config r.splitter d now m db with
    | (.ok _, db) => completeAll r d now rest db
    | (.error _, _) => none

theorem completeAll_cons {sent : Nat} (h : applyOne r.config r.splitter d now m db = (.ok sent, db'))
    (ms : List Migration) : r.completeAll d now (m :: ms) db = r.completeAll d now ms db' := by
  rw [completeAll, h]

/-- **A run that fails** stops at one of the pending migrations, when those before it have been applied. -/
theorem exists_of_applyAll {recorded : List VersionRow} {fault : RunFault} : ∀ {ms : List Migration}
    {db left : Database} (report : ApplyReport), (∀ m ∈ ms, m.Readable d) →
      applyAll r.config r.splitter d now (recorded.map (·.version)) report ms db = (.error fault, left) →
      ∃ before m after db', pending recorded ms = before ++ m :: after ∧
        r.completeAll d now before db = some db' ∧
        applyOne r.config r.splitter d now m db' = (.error fault, left)
  | [], _, _, _, _, h => by cases h
  | m :: ms, db, left, report, hread, h => by
    obtain ⟨hreadm, hread⟩ := List.forall_mem_cons.1 hread
    rw [applyAll] at h
    by_cases hm : m.version ∈ recorded.map (·.version)
    · obtain ⟨_, sum, _, hsum, _⟩ := hreadm.exists_script
      rw [if_pos hm, hsum] at h
      rw [pending_cons_of_mem hm]
      exact exists_of_applyAll report hread h
    · rw [if_neg hm] at h
      rw [pending_cons_of_not_mem hm]
      rcases hone : applyOne r.config r.splitter d now m db with ⟨fault' | sent, db₁⟩
      · rw [hone] at h
        cases h
        exact ⟨[], m, _, db, rfl, rfl, hone⟩
      · rw [hone] at h
        obtain ⟨before, n, after, db', hpending, hcomplete, hfails⟩ := exists_of_applyAll _ hread h
        exact ⟨m :: before, n, after, db', by rw [hpending, List.cons_append],
          (completeAll_cons hone before).trans hcomplete, hfails⟩

/-- **The rows of several migrations** that are applied. -/
theorem completeAll_rows : ∀ {ms : List Migration} {db db' : Database} {rows : List VersionRow},
    (∀ m ∈ ms, r.EachBatch d m (KeepsRows (name r.config.tablePrefix))) →
      db.tables.get? (name r.config.tablePrefix) = some (.versions rows) → r.completeAll d now ms db = some db' →
      ∃ added, List.Forall₂ (IsRowOf d now) ms added ∧
        db'.tables.get? (name r.config.tablePrefix) = some (.versions (insertRows added rows))
  | [], _, _, _, _, hrows, h => by
    cases h
    exact ⟨[], .nil, hrows⟩
  | m :: ms, db, db', rows, hkeeps, hrows, h => by
    obtain ⟨hkeep, hkeeps⟩ := List.forall_mem_cons.1 hkeeps
    rcases hone : applyOne r.config r.splitter d now m db with ⟨fault | sent, db₁⟩
    · rw [completeAll, hone] at h
      cases h
    · rw [completeAll_cons hone] at h
      obtain ⟨row, hrow, hrows₁⟩ := applyOne_of_ok hkeep hone hrows
      obtain ⟨added, hadded, hrows'⟩ := completeAll_rows hkeeps hrows₁ h
      exact ⟨row :: added, .cons hrow hadded, hrows'⟩

end Runs

/-! ## Statements that write rows -/

/-- No statement of the script writes rows of the version table, or takes some out of it. -/
def LeavesRows (r : Runner) (d : Disk) (m : Migration) : Prop :=
  r.EachBatch d m (AllStatements fun st => st.edits (name r.config.tablePrefix) = false)

/-- Where no statement writes rows of the version table, its rows stay. -/
theorem LeavesRows.keepsRows (h : r.LeavesRows d m) : r.EachBatch d m (KeepsRows (name r.config.tablePrefix)) :=
  h.mono fun _ hleaves _ _ hd =>
    hd.run (fun he heffect hconfined rows' hrows => hconfined rows' (heffect.versions he hrows)) hleaves

end Runner

end BatchMigrate
