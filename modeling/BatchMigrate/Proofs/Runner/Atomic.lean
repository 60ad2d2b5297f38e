import BatchMigrate.Proofs.Migration.Load
import BatchMigrate.Proofs.Runner.Transaction
import BatchMigrate.Proofs.Script.Scan
import BatchMigrate.Proofs.Sql.Interpreter

/-!
# Each migration as a whole or not at all

`Runner.play` is what a migration does to the tables without any transaction, and `Runner.playAll` what several do one
after the other. A run over pending migrations ends in one of two ways (`Runner.Ends`): they have all been played, or
those before the first that fails. The induction goes over the loaded scripts; it carries that the version table is
there and that no script to come has a row in it, which holds because versions are distinct and no script touches the
table itself.
-/

namespace BatchMigrate

open Sql

/-- The version that a fault of a script names. -/
def RunFault.version? : RunFault → Option Int
  | splitting version _ => some version
  | execution version _ _ => some version
  | _ => none

namespace Runner

/-- The migrations that have no row. -/
def pending (rows : List VersionRow) (ms : List Migration) : List Migration :=
  ms.filter fun m => m.version ∉ rows.map (·.version)

section Pending

variable {rows : List VersionRow} {m : Migration} {rest : List Migration}

theorem mem_pending {ms : List Migration} : m ∈ pending rows ms ↔ m ∈ ms ∧ m.version ∉ rows.map (·.version) := by
  rw [pending, List.mem_filter, decide_eq_true_eq]

theorem pending_cons_of_mem (h : m.version ∈ rows.map (·.version)) :
    pending rows (m :: rest) = pending rows rest :=
  List.filter_cons_of_neg (by simpa using h)

theorem pending_cons_of_not_mem (h : m.version ∉ rows.map (·.version)) :
    pending rows (m :: rest) = m :: pending rows rest :=
  List.filter_cons_of_pos (by simpa using h)

end Pending

section Runs

variable [Interpreter] {r : Runner} {d : Disk} {now : Text} {m : Migration} {ms rest : List Migration}
  {tables final : Tables} {rows : List VersionRow}

/-! ## Playing migrations -/

/-- The tables after a migration: all texts of its script run one after the other and its row is added. None if the
script cannot be split or one of the texts is refused. -/
def play (r : Runner) (d : Disk) (now : Text) (m : Migration) (tables : Tables) : Option Tables :=
  match m.readWithChecksum d with
  | .error _ => none
  | .ok (script, sum) =>
    match r.splitter.splitText r.config.splitter.stripComments script with
    | .error _ => none
    | .ok events =>
      match (Database.mk tables none).runAll (PlannedBatch.texts (PlannedBatch.ofEvents events)) with
      | (.error _, _) => none
      | (.ok (), db) =>
        some (VersionTable.record r.config.tablePrefix ⟨m.version, m.description, sum, now⟩ db.tables)

/-- The tables after migrations that are played one after the other. -/
def playAll (r : Runner) (d : Disk) (now : Text) : List Migration → Tables → Option Tables
  | [], tables => some tables
  | m :: rest, tables => (r.play d now m tables).bind (playAll r d now rest)

/-- How a run over pending migrations ends when those of `sofar` have been applied before. -/
inductive Ends (r : Runner) (d : Disk) (now : Text) (sofar : List Int) (pending : List Migration) (tables : Tables) :
    Except RunFault ApplyReport → Database → Prop
  /-- All of them have been played, and the report names them in order. -/
  | applied {report : ApplyReport} {final : Tables} (hplay : r.playAll d now pending tables = some final)
      (hreport : report.applied = sofar ++ pending.map (·.version)) :
      Ends r d now sofar pending tables (.ok report) ⟨final, none⟩
  /-- Those before one that fails have been played, and the fault names that one. -/
  | failed {before after : List Migration} {m : Migration} {fault : RunFault} {final : Tables}
      (hpending : pending = before ++ m :: after) (hplay : r.playAll d now before tables = some final)
      (hfails : r.play d now m final = none) (hfault : fault.version? = some m.version) :
      Ends r d now sofar pending tables (.error fault) ⟨final, none⟩

/-- A migration that is played is the first of those that have been. -/
theorem Ends.cons {sofar : List Int} {result : Except RunFault ApplyReport} {db : Database}
    (hplay : r.play d now m tables = some final) (h : Ends r d now (sofar ++ [m.version]) rest final result db) :
    Ends r d now sofar (m :: rest) tables result db := by
  have hfirst : ∀ ms, r.playAll d now (m :: ms) tables = r.playAll d now ms final := fun ms => by
    rw [playAll, hplay, Option.bind_some]
  cases h with
  | applied hall hreport =>
    refine .applied ((hfirst rest).trans hall) ?_
    rw [hreport, List.map_cons, List.append_assoc]
    rfl
  | failed hpending hbefore hfails hfault =>
    exact .failed (by rw [hpending, List.cons_append]) ((hfirst _).trans hbefore) hfails hfault

/-- A run over pending migrations changes nothing but the database, and ends as it should. -/
def Completes (r : Runner) (d : Disk) (now : Text) (pending : List Migration)
    (run : Except RunFault ApplyReport × Runner) : Prop :=
  ∃ result db, run = (result, { r with db }) ∧ Ends r d now [] pending r.db.tables result db

theorem apply_of_error {fault : Fault} (h : VersionTable.rows r.config.tablePrefix r.db = .error fault) :
    r.apply d now ms = (.error (.database fault), r) := by
  rw [apply, h]

variable [LawfulInterpreter]

/-- No statement of the script begins or ends a transaction or names the version table. -/
def Abides (r : Runner) (d : Disk) (m : Migration) : Prop :=
  r.EachBatch d m fun sql => Uncontrolled sql ∧ Spares (VersionTable.name r.config.tablePrefix) sql

/-! ## One migration -/

/-- **One migration** is played as a whole, or it fails and leaves the tables as they were. -/
theorem applyOne_cases (now : Text) (hread : m.Readable d) (habides : r.Abides d m)
    (hrows : tables.get? (VersionTable.name r.config.tablePrefix) = some (.versions rows))
    (hnew : ∀ row ∈ rows, row.version ≠ m.version) :
    (∃ sent final row, row.version = m.version ∧ r.play d now m tables = some final ∧
      final.get? (VersionTable.name r.config.tablePrefix) = some (.versions (insertBy VersionRow.version row rows)) ∧
      applyOne r.config r.splitter d now m ⟨tables, none⟩ = (.ok sent, ⟨final, none⟩)) ∨
    (∃ fault, fault.version? = some m.version ∧ r.play d now m tables = none ∧
      applyOne r.config r.splitter d now m ⟨tables, none⟩ = (.error fault, ⟨tables, none⟩)) := by
  obtain ⟨script, sum, htext, _, hscript⟩ := hread.exists_script
  cases hsplit : r.splitter.splitText r.config.splitter.stripComments script with
  | error fault =>
    refine Or.inr ⟨.splitting m.version fault, rfl, ?_, ?_⟩
    · simp only [play, hscript, hsplit]
    · simp only [applyOne, hscript, hsplit]
  | ok events =>
    have hcontrol : ∀ sql ∈ PlannedBatch.texts (PlannedBatch.ofEvents events), Uncontrolled sql := fun sql h =>
      (habides.texts hscript hsplit sql h).1
    have hname : ∀ sql ∈ PlannedBatch.texts (PlannedBatch.ofEvents events),
        Spares (VersionTable.name r.config.tablePrefix) sql := fun sql h => (habides.texts hscript hsplit sql h).2
    let row : VersionRow := ⟨m.version, m.description, sum, now⟩
    rcases hrun : (Database.mk tables none).runAll (PlannedBatch.texts (PlannedBatch.ofEvents events)) with
      ⟨fault | _, db⟩
    · obtain ⟨b, _, ht⟩ := transact_of_error row r.config.tablePrefix hcontrol hrun
      refine Or.inr ⟨.execution m.version b.number fault, rfl, ?_, ?_⟩
      · simp only [play, hscript, hsplit, hrun]
      · rw [applyOne_eq_transact hscript hsplit]
        exact ht
    · have ht := transact_of_ok row hcontrol hname hrows hnew hrun
      have hkept : db.tables.get? (VersionTable.name r.config.tablePrefix) = some (.versions rows) := by
        rw [← hrows, ← Database.get?_runAll hname tables, hrun]
      refine Or.inl ⟨(PlannedBatch.texts (PlannedBatch.ofEvents events)).length,
        VersionTable.record r.config.tablePrefix row db.tables, row, rfl, ?_, VersionTable.get?_record hkept row, ?_⟩
      · simp only [play, hscript, hsplit, hrun]
        rfl
      · rw [applyOne_eq_transact hscript hsplit]
        exact ht

/-! ## All migrations -/

/-- **All migrations.** Applying loaded migrations ends as it should, from any tables in which those without a recorded
version have no row. -/
theorem applyAll_ends {recorded : List VersionRow} : ∀ {ms : List Migration} {tables : Tables} {rows : List VersionRow}
    (report : ApplyReport), (∀ m ∈ ms, m.Readable d ∧ r.Abides d m) → ms.Pairwise (·.version < ·.version) →
      tables.get? (VersionTable.name r.config.tablePrefix) = some (.versions rows) →
      (∀ m ∈ pending recorded ms, ∀ row ∈ rows, row.version ≠ m.version) →
        Ends r d now report.applied (pending recorded ms) tables
          (applyAll r.config r.splitter d now (recorded.map (·.version)) report ms ⟨tables, none⟩).1
          (applyAll r.config r.splitter d now (recorded.map (·.version)) report ms ⟨tables, none⟩).2
  | [], tables, _, report, _, _, _, _ => .applied rfl (by simp [pending])
  | m :: ms, tables, rows, report, hms, hpair, hrows, hnew => by
    obtain ⟨⟨hread, habides⟩, hrest⟩ := List.forall_mem_cons.1 hms
    obtain ⟨hfirst, hpair⟩ := List.pairwise_cons.1 hpair
    rw [applyAll]
    by_cases hm : m.version ∈ recorded.map (·.version)
    · obtain ⟨_, sum, _, hsum, _⟩ := hread.exists_script
      rw [pending_cons_of_mem hm] at hnew ⊢
      rw [if_pos hm, hsum]
      exact applyAll_ends report hrest hpair hrows hnew
    · rw [pending_cons_of_not_mem hm] at hnew ⊢
      obtain ⟨hnewm, hnewrest⟩ := List.forall_mem_cons.1 hnew
      rw [if_neg hm]
      rcases applyOne_cases now hread habides hrows hnewm with
        ⟨sent, final, row, hversion, hplay, hrow, hone⟩ | ⟨fault, hfault, hplay, hone⟩
      · rw [hone]
        refine Ends.cons hplay (applyAll_ends ⟨_, report.batchesExecuted + sent⟩ hrest hpair hrow
          fun m' hm' row' hrow' => ?_)
        -- the new row has a version that no later script has
        rcases mem_insertBy.1 hrow' with rfl | hrow'
        · rw [hversion]
          exact Int.ne_of_lt (hfirst m' (mem_pending.1 hm').1)
        · exact hnewrest m' hm' row' hrow'
      · rw [hone]
        exact .failed (List.nil_append _).symm rfl hplay hfault

/-! ## Runs -/

/-- Scripts in the order of their versions are applied as a whole or not at all. -/
theorem apply_completes {rows : List VersionRow} (hidle : r.db.saved = none)
    (hrows : VersionTable.rows r.config.tablePrefix r.db = .ok rows) (hms : ∀ m ∈ ms, m.Readable d ∧ r.Abides d m)
    (hpair : ms.Pairwise (·.version < ·.version)) : Completes r d now (pending rows ms) (r.apply d now ms) := by
  have hends : Ends r d now [] _ _ _ _ := applyAll_ends {} hms hpair (VersionTable.rows_eq_ok hrows) fun m hm row hrow heq =>
    (mem_pending.1 hm).2 (List.mem_map.2 ⟨row, hrow, heq⟩)
  have hdb : r.db = ⟨r.db.tables, none⟩ := by rw [← hidle]
  rw [← hdb] at hends
  refine ⟨_, _, ?_, hends⟩
  rw [apply, hrows]

/-- **Each migration as a whole or not at all**, on a database in which no transaction is open. If loading fails or the
target is unknown, nothing changes, and neither does it if the version table cannot be read. Otherwise the pending
migrations, in strict order of their versions, are all played, or the run stops at the first that fails and keeps those
before it. -/
theorem up_upTo_atomic (r : Runner) (d : Disk) (now : Text) (hdisk : d.root.legal = true) (hidle : r.db.saved = none)
    (habides : ∀ ms, r.load d = .ok ms → ∀ m ∈ ms, r.Abides d m) :
    (∀ fault, r.load d = .error fault →
      r.up d now = (.error (.loading fault), r) ∧ ∀ target, r.upTo d now target = (.error (.loading fault), r)) ∧
    ∀ ms, r.load d = .ok ms →
      (∀ target, target ∉ ms.map (·.version) → r.upTo d now target = (.error (.unknownVersion target), r)) ∧
      (∀ fault, VersionTable.rows r.config.tablePrefix r.db = .error fault →
        r.up d now = (.error (.database fault), r) ∧
        ∀ target ∈ ms.map (·.version), r.upTo d now target = (.error (.database fault), r)) ∧
      ∀ rows, VersionTable.rows r.config.tablePrefix r.db = .ok rows →
        ((pending rows ms).map (·.version)).Pairwise (· < ·) ∧
        Completes r d now (pending rows ms) (r.up d now) ∧
        ∀ target ∈ ms.map (·.version),
          Completes r d now (pending rows (ms.filter (·.version ≤ target))) (r.upTo d now target) := by
  refine ⟨fun fault hload => ⟨by rw [up, hload], fun target => by rw [upTo, hload]⟩, fun ms hload => ?_⟩
  have hknown : ∀ target, (ms.any fun m => decide (m.version = target)) = true ↔ target ∈ ms.map (·.version) :=
    fun target => by simp
  have hup : r.up d now = r.apply d now ms := by rw [up, hload]
  have hupTo : ∀ target ∈ ms.map (·.version),
      r.upTo d now target = r.apply d now (ms.filter (·.version ≤ target)) := fun target ht => by
    rw [upTo, hload]
    exact if_pos ((hknown target).2 ht)
  have hpair := Migration.pairwise_load hload
  have hms : ∀ m ∈ ms, m.Readable d ∧ r.Abides d m := fun m hm =>
    ⟨Migration.readable_of_mem_load hdisk hload hm, habides ms hload m hm⟩
  refine ⟨fun target ht => ?_, fun fault hrows => ⟨hup ▸ apply_of_error hrows, fun target ht => ?_⟩,
    fun rows hrows => ⟨?_, hup ▸ apply_completes hidle hrows hms hpair, fun target ht => ?_⟩⟩
  · rw [upTo, hload]
    exact if_neg fun h => ht ((hknown target).1 h)
  · rw [hupTo target ht, apply_of_error hrows]
  · exact List.pairwise_map.2 (hpair.filter _)
  · rw [hupTo target ht]
    exact apply_completes hidle hrows (fun m hm => hms m (List.mem_filter.1 hm).1) (hpair.filter _)

end Runs

/-- A script that makes one table and inserts into another. -/
def fillScript : Text := .of "create table t (x int)\nGO\ninsert into u values (3)"

/-- A disk that holds the script. -/
def fillDisk : Disk where
  root := .folder [(.of "migrations", .folder [(.of "1_fill.sql", .file fillScript.utf8)])]

/-- A runner with the usual settings and an empty version table. -/
def freshRunner : Runner where
  config := {}
  splitter := { terminator := ['\n'], terminator_ne_nil := Splitter.unix.terminator_ne_nil }
  db := { tables := [(VersionTable.name (.of "sqlbatch_"), .versions [])] }

/-- The events of the script. -/
def fillEvents : List Event :=
  [.batch (.of "create table t (x int)\n"), .directive ⟨.of "GO", none⟩, .batch (.of "insert into u values (3)\n")]

theorem load_fillDisk :
    freshRunner.load fillDisk = .ok [⟨1, .of "fill", .of "migrations/1_fill.sql", [], []⟩] := by
  decide +kernel

theorem read_fillDisk :
    Migration.read ⟨1, .of "fill", .of "migrations/1_fill.sql", [], []⟩ fillDisk = .ok fillScript := by
  decide +kernel

theorem splitText_fillScript :
    freshRunner.splitter.splitText freshRunner.config.splitter.stripComments fillScript = .ok fillEvents := by
  decide +kernel

theorem up_upTo_atomic_fillDisk :
    fillDisk.root.legal = true ∧ freshRunner.db.saved = none ∧
      (∀ ms, freshRunner.load fillDisk = .ok ms → ∀ m ∈ ms, freshRunner.Abides fillDisk m) ∧
      Completes freshRunner fillDisk (.of "noon") [⟨1, .of "fill", .of "migrations/1_fill.sql", [], []⟩]
        (freshRunner.up fillDisk (.of "noon")) := by
  have habides : ∀ ms, freshRunner.load fillDisk = .ok ms → ∀ m ∈ ms, freshRunner.Abides fillDisk m := by
    intro ms h m hm
    cases load_fillDisk.symm.trans h
    cases List.mem_singleton.1 hm
    refine .of_events read_fillDisk splitText_fillScript ?_
    decide +kernel
  have hdisk : fillDisk.root.legal = true := by decide
  obtain ⟨_, _, hrun⟩ := (up_upTo_atomic freshRunner fillDisk (.of "noon") hdisk rfl habides).2 _ load_fillDisk
  exact ⟨hdisk, rfl, habides, (hrun [] rfl).2.1⟩

end Runner

end BatchMigrate
