import BatchMigrate.Proofs.Runner.Completed

/-!
# Migrations that fail

A script may hold any statements: it may name the version table, and begin and end transactions of its own. A migration
that fails leaves the database as it was, unless its script holds `commit` (`Runner.applyOne_of_error`). A script that
commits ends the transaction around it; the row that is then written takes effect at once, and the run fails because
there is no transaction left to end (`Runner.up_upTo_error_commits`). The migrations before the one that fails have been
applied, and have added their rows if their scripts leave the rows of the version table alone (`Runner.LeavesRows`).
-/

namespace BatchMigrate

open Sql

/-! ## Texts -/

/-- Without `commit`, an open transaction stays open. -/
theorem Sql.Database.saved_runAll_of_open {texts : List Text} {tables : Tables} {db : Database}
    (h : ∀ sql ∈ texts, AllStatements (· ≠ .commit) sql) (hs : db.saved = some tables) :
    (db.runAll texts).2.saved = some tables := by
  refine runAll_invariant (I := (·.saved = some tables)) (fun sql hsql db hs => ?_) hs
  refine run_invariant (I := (·.saved = some tables)) (fun {db db' st} hst he hs => ?_) (h sql hsql) hs
  cases hc : st.controlsTransaction with
  | false => rw [saved_exec hc he, hs]
  | true =>
    cases st with
    | beginTransaction =>
      rw [Database.exec, Database.beginTransaction, hs] at he
      cases he
    | commit => exact absurd rfl hst
    | _ => cases hc

/-! ## One transaction -/

namespace Runner

open PlannedBatch VersionTable

section Transaction

variable {tablePrefix : Text} {row : VersionRow} {plan : List PlannedBatch} {db : Database}

/-- **A transaction that fails** leaves the database as it was, if its script does not commit on its own. -/
theorem transact_undone (hcommit : ∀ sql ∈ texts plan, AllStatements (· ≠ .commit) sql) {fault : RunFault}
    (h : (transact tablePrefix row plan db).1 = .error fault) : (transact tablePrefix row plan db).2 = db := by
  -- without `commit` the transaction is open until its end
  have hopen : (Database.runAll ⟨db.tables, some db.tables⟩ (texts plan)).2.saved = some db.tables :=
    Database.saved_runAll_of_open hcommit rfl
  have hend := transact_ends row tablePrefix plan db
  generalize transact tablePrefix row plan db = final at hend h ⊢
  cases hend with
  | nested => rfl
  | undone hidle => rw [Database.rollback, hopen, ← hidle]
  | ended _ _ hclosed => cases hopen.symm.trans hclosed
  | committed => cases h

end Transaction

/-! ## One migration -/

/-- No statement of the script is `commit`. -/
def NeverCommits (r : Runner) (d : Disk) (m : Migration) : Prop := r.EachBatch d m (AllStatements (· ≠ .commit))

variable {r : Runner} {d : Disk} {now : Text} {m : Migration} {fault : RunFault}

/-- **A migration that fails** leaves the database as it was, if its script does not commit on its own. -/
theorem applyOne_of_error {db db' : Database} (hcommit : r.NeverCommits d m)
    (h : applyOne r.config r.splitter d now m db = (.error fault, db')) : db' = db := by
  rcases applyOne_eq_error_or_transact r.config r.splitter d now m db with
    ⟨_, ha⟩ | ⟨script, sum, events, hread, hsplit, ha⟩ <;> rw [ha] at h
  · cases h
    rfl
  · have hundone := transact_undone (hcommit.texts hread hsplit) (congrArg Prod.fst h)
    rwa [h] at hundone

/-! ## Runs that stop -/

/-- A run from the database `start`, whose version table has the rows, stops with the fault at the migration `m` and
leaves the database `left`. The migrations before that one have led to the database `db`. -/
structure StopsAt (r : Runner) (d : Disk) (now : Text) (start : Database) (rows : List VersionRow)
    (before : List Migration) (m : Migration) (fault : RunFault) (left db : Database) : Prop where
  completed : r.completeAll d now before start = some db
  /-- The new rows are those of the migrations before, and the version that fails has none. -/
  recorded : (∀ n ∈ before, r.LeavesRows d n) → ∃ added, List.Forall₂ (IsRowOf d now) before added ∧
    VersionTable.rows r.config.tablePrefix db = .ok (insertRows added rows) ∧
    m.version ∉ (insertRows added rows).map (·.version)
  fails : applyOne r.config r.splitter d now m db = (.error fault, left)
  /-- Nothing is left of the script that fails. -/
  undone : r.NeverCommits d m → left = db

/-- A run over the migrations stops with the fault at one of those that are pending, and leaves the runner `r'`. -/
def StopsIn (r : Runner) (d : Disk) (now : Text) (ms : List Migration) (fault : RunFault) (r' : Runner) : Prop :=
  ∃ rows before m after left db, VersionTable.rows r.config.tablePrefix r.db = .ok rows ∧
    pending rows ms = before ++ m :: after ∧ r.StopsAt d now r.db rows before m fault left db ∧
    r' = { r with db := left }

/-- A run, up to the target if there is one, fails before it comes to a migration. -/
inductive Refused (r : Runner) (d : Disk) (target : Option Int) : RunFault → Prop
  /-- The scripts cannot be loaded. -/
  | loading {fault : LoadFault} (h : r.load d = .error fault) : Refused r d target (.loading fault)
  /-- No script has the version. -/
  | target {ms : List Migration} {version : Int} (hload : r.load d = .ok ms) (ht : target = some version)
      (hnone : version ∉ ms.map (·.version)) : Refused r d target (.unknownVersion version)
  /-- The version table cannot be read. -/
  | table {fault : Fault} (h : VersionTable.rows r.config.tablePrefix r.db = .error fault) :
      Refused r d target (.database fault)

/-- A version that comes after others and has no row has none when theirs are added. -/
theorem not_mem_insertRows {rows added : List VersionRow} {before after ms : List Migration}
    (hms : ms.Pairwise (·.version < ·.version)) (hpending : pending rows ms = before ++ m :: after)
    (hadded : List.Forall₂ (IsRowOf d now) before added) : m.version ∉ (insertRows added rows).map (·.version) := by
  have hm : m ∈ pending rows ms := by
    rw [hpending]
    exact List.mem_append_right _ List.mem_cons_self
  have hpair : (before ++ m :: after).Pairwise (·.version < ·.version) := hpending ▸ hms.filter _
  rw [((perm_insertRows added rows).map _).mem_iff, List.map_append, versions_of_isRowOf hadded, List.mem_append]
  rintro (hbefore | hrow)
  · obtain ⟨n, hn, hversion⟩ := List.mem_map.1 hbefore
    have hlt : n.version < m.version := (List.pairwise_append.1 hpair).2.2 n hn m List.mem_cons_self
    exact Int.ne_of_lt hlt hversion
  · exact (mem_pending.1 hm).2 hrow

theorem apply_stops {ms : List Migration} {r' : Runner} (target : Option Int) (hread : ∀ m ∈ ms, m.Readable d)
    (hms : ms.Pairwise (·.version < ·.version)) (h : r.apply d now ms = (.error fault, r')) :
    (r.Refused d target fault ∧ r' = r) ∨ r.StopsIn d now ms fault r' := by
  unfold apply at h
  cases hrows : VersionTable.rows r.config.tablePrefix r.db with
  | error fault' =>
    rw [hrows] at h
    cases h
    exact Or.inl ⟨.table hrows, rfl⟩
  | ok rows =>
    simp only [hrows] at h
    rcases hall : applyAll r.config r.splitter d now (rows.map (·.version)) {} ms r.db with ⟨result, left⟩
    rw [hall] at h
    cases h
    obtain ⟨before, m, after, db, hpending, hcompleted, hfails⟩ := exists_of_applyAll {} hread hall
    have hstops : r.StopsAt d now r.db rows before m fault left db := by
      refine ⟨hcompleted, fun hleaves => ?_, hfails, fun hcommit => applyOne_of_error hcommit hfails⟩
      obtain ⟨added, hadded, htable⟩ :=
        completeAll_rows (fun n hn => (hleaves n hn).keepsRows) (rows_eq_ok hrows) hcompleted
      exact ⟨added, hadded, rows_eq_ok_iff.2 htable, not_mem_insertRows hms hpending hadded⟩
    exact Or.inr ⟨rows, before, m, after, left, db, hrows, hpending, hstops, rfl⟩

/-- **Runs that fail.** Whatever the scripts hold and whatever state the database is in: a run that fails is refused and
changes nothing at all, or it stops at a pending migration. Those before that one are applied, and the version table is
the previous one with their rows, unless their scripts write rows of it themselves. If the script of the failing
migration holds no `commit`, nothing else has changed. -/
theorem up_upTo_error (r : Runner) (d : Disk) (now : Text) (hdisk : d.root.legal = true) (fault : RunFault)
    (r' : Runner) :
    (r.up d now = (.error fault, r') →
      (r.Refused d none fault ∧ r' = r) ∨ ∃ ms, r.load d = .ok ms ∧ r.StopsIn d now ms fault r') ∧
    ∀ target, r.upTo d now target = (.error fault, r') →
      (r.Refused d (some target) fault ∧ r' = r) ∨
        ∃ ms, r.load d = .ok ms ∧ r.StopsIn d now (ms.filter (·.version ≤ target)) fault r' := by
  have hread : ∀ {ms : List Migration}, r.load d = .ok ms → ∀ m ∈ ms, m.Readable d := fun hload m hm =>
    Migration.readable_of_mem_load hdisk hload hm
  refine ⟨fun h => ?_, fun target h => ?_⟩
  · unfold up at h
    split at h
    · rename_i fault' hload
      cases h
      exact Or.inl ⟨.loading hload, rfl⟩
    · rename_i ms hload
      have hends := apply_stops none (hread hload) (Migration.pairwise_load hload) h
      exact hends.imp_right fun hstops => ⟨ms, hload, hstops⟩
  · unfold upTo at h
    split at h
    · rename_i fault' hload
      cases h
      exact Or.inl ⟨.loading hload, rfl⟩
    · rename_i ms hload
      split at h
      · have hends := apply_stops (some target) (fun m hm => hread hload m (List.mem_filter.1 hm).1)
          ((Migration.pairwise_load hload).filter _) h
        exact hends.imp_right fun hstops => ⟨ms, hload, hstops⟩
      · rename_i hany
        cases h
        exact Or.inl ⟨.target hload rfl (by simpa using hany), rfl⟩

/-- A run over one script, which fails. -/
theorem up_singleton {r : Runner} {d : Disk} {now : Text} {m : Migration} {fault : RunFault} {db : Database}
    (hload : r.load d = .ok [m]) (hrows : VersionTable.rows r.config.tablePrefix r.db = .ok [])
    (hone : applyOne r.config r.splitter d now m r.db = (.error fault, db)) :
    r.up d now = (.error fault, { r with db }) := by
  rw [up, hload]
  simp only [apply, hrows, List.map_nil, applyAll, List.not_mem_nil, if_false, hone]

/-- A script whose last batch is refused, so that the table of the first one is not left. -/
theorem up_upTo_error_fillDisk :
    let fault : RunFault := .execution 1 2 (.noSuchTable (.of "u"))
    fillDisk.root.legal = true ∧ ∃ r', freshRunner.up fillDisk (.of "noon") = (.error fault, r') ∧
      ∃ ms, freshRunner.load fillDisk = .ok ms ∧ freshRunner.StopsIn fillDisk (.of "noon") ms fault r' := by
  intro fault
  have hdisk : fillDisk.root.legal = true := by decide
  obtain ⟨script, sum, hread, _, hscript⟩ :=
    (Migration.readable_of_mem_load hdisk load_fillDisk (List.mem_singleton_self _)).exists_script
  cases read_fillDisk.symm.trans hread
  have hone : applyOne freshRunner.config freshRunner.splitter fillDisk (.of "noon")
      ⟨1, .of "fill", .of "migrations/1_fill.sql", [], []⟩ freshRunner.db = (.error fault, freshRunner.db) := by
    have hcarry : carryOut 0 (ofEvents fillEvents) ⟨freshRunner.db.tables, some freshRunner.db.tables⟩ =
        (.error (2, .noSuchTable (.of "u")),
          ⟨freshRunner.db.tables ++ [(.of "t", .numbers [])], some freshRunner.db.tables⟩) := by
      decide +kernel
    rw [applyOne_eq_transact hscript splitText_fillScript, transact, Database.beginTransaction_eq_ok rfl]
    simp only [hcarry]
    rfl
  have hup := up_singleton load_fillDisk rfl hone
  refine ⟨hdisk, _, hup, ((up_upTo_error freshRunner fillDisk (.of "noon") hdisk fault _).1 hup).resolve_left ?_⟩
  rintro ⟨hrefused : Refused _ _ _ (.execution 1 2 _), -⟩
  cases hrefused

/-- A script that makes a table and ends the transaction around it. -/
def commitScript : Text := .of "create table t (x int)\nGO\ncommit\n"

/-- The events of the script. -/
def commitEvents : List Event :=
  [.batch (.of "create table t (x int)\n"), .directive ⟨.of "GO", none⟩, .batch (.of "commit\n")]

/-- A disk that holds the script. -/
def commitDisk : Disk where
  root := .folder [(.of "migrations", .folder [(.of "1_a.sql", .file commitScript.utf8)])]

/-- **A script that commits** is recorded and keeps its table although the run fails. -/
theorem up_upTo_error_commits :
    VersionTable.rows (.of "sqlbatch_") freshRunner.db = .ok [] ∧ freshRunner.db.numbers? (.of "t") = none ∧
      ∃ r' row, freshRunner.up commitDisk (.of "noon") = (.error (.database .noTransaction), r') ∧
        VersionTable.rows (.of "sqlbatch_") r'.db = .ok [row] ∧ row.version = 1 ∧
        r'.db.numbers? (.of "t") = some [] := by
  have hload : freshRunner.load commitDisk = .ok [⟨1, .of "a", .of "migrations/1_a.sql", [], []⟩] := by decide +kernel
  have hread : Migration.read ⟨1, .of "a", .of "migrations/1_a.sql", [], []⟩ commitDisk = .ok commitScript := by
    decide +kernel
  have hsplit : freshRunner.splitter.splitText freshRunner.config.splitter.stripComments commitScript =
      .ok commitEvents := by
    decide +kernel
  obtain ⟨script, sum, hread', _, hscript⟩ :=
    (Migration.readable_of_mem_load (by decide) hload (List.mem_singleton_self _)).exists_script
  cases hread.symm.trans hread'
  have hone : applyOne freshRunner.config freshRunner.splitter commitDisk (.of "noon")
      ⟨1, .of "a", .of "migrations/1_a.sql", [], []⟩ freshRunner.db = (.error (.database .noTransaction),
        ⟨[(VersionTable.name (.of "sqlbatch_"), .versions [⟨1, .of "a", sum, .of "noon"⟩]), (.of "t", .numbers [])],
          none⟩) := by
    have hcarry : carryOut 0 (ofEvents commitEvents) ⟨freshRunner.db.tables, some freshRunner.db.tables⟩ =
        (.ok 2, ⟨freshRunner.db.tables ++ [(.of "t", .numbers [])], none⟩) := by
      decide +kernel
    rw [applyOne_eq_transact hscript hsplit, transact, Database.beginTransaction_eq_ok rfl]
    simp only [hcarry]
    rfl
  exact ⟨rfl, rfl, _, _, up_singleton hload rfl hone, rfl, rfl, rfl⟩

end Runner

end BatchMigrate
