import BatchMigrate.Proofs.Runner.Atomic
import BatchMigrate.Proofs.Runner.Rows
import BatchMigrate.Proofs.Runner.Timeless
import BatchMigrate.Proofs.Text.Utf8

/-!
# Migrating in stages

A run over some migrations and then over more is a run over all of them (`Runner.applyAll_append`). A second run starts
from other rows than the first: it reads the rows that the first one has added, and so passes over what has been applied
(`Runner.applyAll_of_recorded`), while the versions to come are recorded for it just when they were for the first. So
migrating up to a version and then to the end comes to the same as migrating at once (`Runner.up_eq_upTo_up`).
-/

namespace BatchMigrate

open Sql

/-- What two runs have applied, one after the other. -/
def ApplyReport.append (first second : ApplyReport) : ApplyReport where
  applied := first.applied ++ second.applied
  batchesExecuted := first.batchesExecuted + second.batchesExecuted

theorem ApplyReport.append_empty (report : ApplyReport) : report.append {} = report := by
  simp only [append, List.append_nil, Nat.add_zero]

/-- Migrations in the order of their versions are those up to a version and those after it. -/
theorem Migration.filter_append_filter (target : Int) : ∀ {ms : List Migration},
    ms.Pairwise (·.version < ·.version) → ms.filter (·.version ≤ target) ++ ms.filter (target < ·.version) = ms
  | [], _ => rfl
  | m :: ms, h => by
    obtain ⟨hfirst, hrest⟩ := List.pairwise_cons.1 h
    by_cases hm : m.version ≤ target
    · have ih := filter_append_filter target hrest
      rw [List.filter_cons_of_pos (by simpa using hm), List.filter_cons_of_neg (by simpa using hm), List.cons_append, ih]
    · have hnone : ms.filter (·.version ≤ target) = [] := by
        refine List.filter_eq_nil_iff.2 fun n hn => ?_
        have := hfirst n hn
        simp only [decide_eq_true_eq]
        omega
      have hall : ms.filter (target < ·.version) = ms := by
        refine List.filter_eq_self.2 fun n hn => ?_
        have := hfirst n hn
        simp only [decide_eq_true_eq]
        omega
      rw [List.filter_cons_of_neg (by simpa using hm), List.filter_cons_of_pos (by simpa using hm), hnone, hall,
        List.nil_append]

namespace Runner

section Stages

variable [Interpreter] {config : Config} {splitter : Splitter} {d : Disk} {now : Text} {recorded : List Int}

/-! ## Runs over several lists -/

theorem applyAll_append : ∀ (before after : List Migration) (report : ApplyReport) (db : Database),
    applyAll config splitter d now recorded report (before ++ after) db =
      match applyAll config splitter d now recorded report before db with
      | (.ok report, db) => applyAll config splitter d now recorded report after db
      | (.error fault, db) => (.error fault, db)
  | [], _, _, _ => rfl
  | m :: before, after, report, db => by
    rw [List.cons_append, applyAll, applyAll]
    by_cases hm : m.version ∈ recorded
    · rw [if_pos hm, if_pos hm]
      cases m.checksum d with
      | error fault => rfl
      | ok sum => exact applyAll_append before after report db
    · rw [if_neg hm, if_neg hm]
      rcases applyOne config splitter d now m db with ⟨_ | sent, db'⟩
      · rfl
      · exact applyAll_append before after _ db'

/-- What has been reported before comes first in the report. -/
theorem applyAll_report (first : ApplyReport) : ∀ (ms : List Migration) (report : ApplyReport) (db : Database),
    applyAll config splitter d now recorded (first.append report) ms db =
      Prod.map (Except.map first.append) id (applyAll config splitter d now recorded report ms db)
  | [], _, _ => rfl
  | m :: ms, report, db => by
    rw [applyAll, applyAll]
    by_cases hm : m.version ∈ recorded
    · rw [if_pos hm, if_pos hm]
      cases m.checksum d with
      | error fault => rfl
      | ok sum => exact applyAll_report first ms report db
    · rw [if_neg hm, if_neg hm]
      rcases applyOne config splitter d now m db with ⟨_ | sent, db'⟩
      · rfl
      · have ih := applyAll_report first ms ⟨report.applied ++ [m.version], report.batchesExecuted + sent⟩ db'
        simp only [ApplyReport.append, List.append_assoc, Nat.add_assoc] at ih ⊢
        exact ih

/-- Recorded migrations are passed over. -/
theorem applyAll_of_recorded : ∀ {ms : List Migration} (report : ApplyReport) (db : Database),
    (∀ m ∈ ms, m.version ∈ recorded ∧ ∃ sum, m.checksum d = .ok sum) →
      applyAll config splitter d now recorded report ms db = (.ok report, db)
  | [], _, _, _ => rfl
  | m :: ms, report, db, h => by
    obtain ⟨⟨hm, sum, hsum⟩, hrest⟩ := List.forall_mem_cons.1 h
    rw [applyAll, if_pos hm, hsum]
    exact applyAll_of_recorded report db hrest

/-- It only matters which of the migrations are recorded. -/
theorem applyAll_congr_recorded {recorded' : List Int} : ∀ {ms : List Migration} (report : ApplyReport) (db : Database),
    (∀ m ∈ ms, m.version ∈ recorded ↔ m.version ∈ recorded') →
      applyAll config splitter d now recorded report ms db = applyAll config splitter d now recorded' report ms db
  | [], _, _, _ => rfl
  | m :: ms, report, db, h => by
    obtain ⟨hm, hrest⟩ := List.forall_mem_cons.1 h
    rw [applyAll, applyAll]
    simp only [hm, applyAll_congr_recorded _ _ hrest]

/-- A run that succeeds has read every script. -/
theorem checksum_of_applyAll : ∀ {ms : List Migration} {report final : ApplyReport} {db db' : Database},
    applyAll config splitter d now recorded report ms db = (.ok final, db') → ∀ m ∈ ms, ∃ sum, m.checksum d = .ok sum
  | [], _, _, _, _, _ => fun m hm => by cases hm
  | m :: ms, report, final, db, db', h => by
    rw [applyAll] at h
    refine List.forall_mem_cons.2 ?_
    split at h
    · split at h
      · cases h
      · rename_i sum hsum
        exact ⟨⟨sum, hsum⟩, checksum_of_applyAll h⟩
    · split at h
      · cases h
      · rename_i sent db₁ hone
        refine ⟨?_, checksum_of_applyAll h⟩
        rcases applyOne_eq_error_or_transact config splitter d now m db with
          ⟨_, ha⟩ | ⟨script, sum, events, hread, hsplit, ha⟩
        · cases ha.symm.trans hone
        · exact ⟨sum, (Migration.readWithChecksum_eq_ok hread).2⟩

/-- A run that fails before it comes to more migrations fails with them, too. -/
theorem apply_append_of_error {r r₁ : Runner} {low high : List Migration} {fault : RunFault}
    (h : r.apply d now low = (.error fault, r₁)) :
    r.apply d now (low ++ high) = (.error fault, r₁) := by
  unfold apply at h ⊢
  cases hrows : VersionTable.rows r.config.tablePrefix r.db with
  | error fault' =>
    rw [hrows] at h
    exact h
  | ok rows =>
    simp only [hrows] at h ⊢
    rcases hall : applyAll r.config r.splitter d now (rows.map (·.version)) {} low r.db with ⟨result, db⟩
    rw [hall] at h
    cases h
    rw [applyAll_append, hall]

/-! ## Two stages -/

variable [LawfulInterpreter] {r r₁ : Runner} {low high : List Migration} {first : ApplyReport}

/-- **After a run that succeeds**, each of its migrations has a row, and no other version has got one. -/
theorem exists_of_apply_eq_ok (hspares : ∀ m ∈ low, r.SparesTable d m) (h : r.apply d now low = (.ok first, r₁)) :
    ∃ rows after, VersionTable.rows r.config.tablePrefix r.db = .ok rows ∧
      applyAll r.config r.splitter d now (rows.map (·.version)) {} low r.db = (.ok first, r₁.db) ∧
      r₁ = { r with db := r₁.db } ∧ VersionTable.rows r.config.tablePrefix r₁.db = .ok after ∧
      (∀ v, v ∈ after.map (·.version) ↔ v ∈ rows.map (·.version) ∨ ∃ m ∈ low, m.version = v) ∧
      ∀ m ∈ low, ∃ sum, m.checksum d = .ok sum := by
  cases hrows : VersionTable.rows r.config.tablePrefix r.db with
  | error fault =>
    rw [apply, hrows] at h
    cases h
  | ok rows =>
    obtain ⟨after, versions, hrec, hafter, hok⟩ := apply_rows now hspares hrows
    rw [h] at hafter hok
    obtain ⟨_, hversions⟩ := hok first rfl
    rw [apply, hrows] at h
    rcases hall : applyAll r.config r.splitter d now (rows.map (·.version)) {} low r.db with ⟨result, db⟩
    simp only [hall] at h
    cases h
    refine ⟨rows, after, rfl, hall, rfl, hafter, fun v => ?_, checksum_of_applyAll hall⟩
    rw [hrec.mem_iff, hversions]
    constructor
    · rintro (hv | hv)
      · exact Or.inl hv
      · obtain ⟨m, hm, hmv⟩ := List.mem_map.1 hv
        exact Or.inr ⟨m, (List.mem_filter.1 hm).1, hmv⟩
    · rintro (hv | ⟨m, hm, rfl⟩)
      · exact Or.inl hv
      · by_cases hv : m.version ∈ rows.map (·.version)
        · exact Or.inl hv
        · exact Or.inr (List.mem_map_of_mem (List.mem_filter.2 ⟨hm, by simpa using hv⟩))

/-- A run over the same migrations again applies nothing. -/
theorem apply_of_apply (hspares : ∀ m ∈ low, r.SparesTable d m) (h : r.apply d now low = (.ok first, r₁)) (now₂ : Text) :
    r₁.apply d now₂ low = (.ok {}, r₁) := by
  obtain ⟨rows, after, _, _, hr₁, hafter, hmem, hread⟩ := exists_of_apply_eq_ok hspares h
  have hconfig : r₁.config = r.config := by rw [hr₁]
  have hrest : applyAll r₁.config r₁.splitter d now₂ (after.map (·.version)) {} low r₁.db = (.ok {}, r₁.db) :=
    applyAll_of_recorded {} r₁.db fun m hm => ⟨(hmem m.version).2 (Or.inr ⟨m, hm, rfl⟩), hread m hm⟩
  rw [apply, hconfig, hafter, ← hconfig]
  simp only [hrest]

/-- **A second stage** over more migrations does what is left of a run over all of them. -/
theorem apply_append_of_ok (hspares : ∀ m ∈ low, r.SparesTable d m) (hspares' : ∀ m ∈ high, r.SparesTable d m)
    (hnew : ∀ m ∈ low, ∀ n ∈ high, m.version ≠ n.version) (h : r.apply d now low = (.ok first, r₁)) (now₁ now₂ : Text) :
    (r.apply d now₁ (low ++ high)).1 = (r₁.apply d now₂ (low ++ high)).1.map first.append ∧
      (r.apply d now₁ (low ++ high)).2.timeless = (r₁.apply d now₂ (low ++ high)).2.timeless := by
  obtain ⟨rows, after, hrows, hall, hr₁, hafter, hmem, hread⟩ := exists_of_apply_eq_ok hspares h
  obtain ⟨config₁, splitter₁, db₁⟩ := r₁
  cases hr₁
  have hsecond : applyAll r.config r.splitter d now₂ (after.map (·.version)) {} (low ++ high) db₁ =
      applyAll r.config r.splitter d now₂ (rows.map (·.version)) {} high db₁ := by
    rw [applyAll_append, applyAll_of_recorded {} db₁ fun m hm => ⟨(hmem m.version).2 (Or.inr ⟨m, hm, rfl⟩), hread m hm⟩]
    refine applyAll_congr_recorded {} db₁ fun n hn => (hmem n.version).trans ⟨fun hv => ?_, Or.inl⟩
    exact hv.resolve_right fun ⟨m, hm, hmn⟩ => hnew m hm n hn hmn
  have hlow := applyAll_congr now₁ hspares now (rows.map (·.version)) {}
    (Eq.refl (r.db.modify (VersionTable.name r.config.tablePrefix) Table.timeless))
  rw [hall] at hlow
  rcases hfirst : applyAll r.config r.splitter d now₁ (rows.map (·.version)) {} low r.db with ⟨result, db⟩
  rw [hfirst] at hlow
  obtain ⟨rfl, htimes⟩ := hlow
  have honce : applyAll r.config r.splitter d now₁ (rows.map (·.version)) {} (low ++ high) r.db =
      Prod.map (Except.map first.append) id
        (applyAll r.config r.splitter d now₁ (rows.map (·.version)) {} high db) := by
    rw [applyAll_append, hfirst, ← applyAll_report, ApplyReport.append_empty]
  have hhigh := applyAll_congr now₁ hspares' now₂ (rows.map (·.version)) {} htimes
  simp only [apply, hrows, hafter, hsecond, honce, Prod.map_fst, Prod.map_snd, id]
  exact ⟨congrArg _ hhigh.1, congrArg (Runner.mk r.config r.splitter) hhigh.2⟩

/-- **Migrating in two stages is migrating at once**, if no script names the version table. A run up to the version of
some script and then a run over all have the result of one run over all, with the reports put together, and leave the
same database but for the times in the version table. If the first run fails, a run over all fails in the same way. And
a run after a successful run applies nothing, sends nothing, and changes nothing. -/
theorem up_eq_upTo_up (r : Runner) (d : Disk) {ms : List Migration} (hload : r.load d = .ok ms)
    (hspares : ∀ m ∈ ms, r.SparesTable d m) {target : Int} (ht : target ∈ ms.map (·.version)) (now now₁ now₂ : Text) :
    (∀ first r₁, r.upTo d now₁ target = (.ok first, r₁) →
      (r.up d now).1 = (r₁.up d now₂).1.map first.append ∧ (r.up d now).2.timeless = (r₁.up d now₂).2.timeless) ∧
    (∀ fault r₁, r.upTo d now₁ target = (.error fault, r₁) → r.up d now₁ = (.error fault, r₁) ∧
      (r.up d now).1 = .error fault ∧ (r.up d now).2.timeless = r₁.timeless) ∧
    ∀ report r', r.up d now = (.ok report, r') → r'.up d now₂ = (.ok {}, r') := by
  have hup : ∀ now, r.up d now = r.apply d now ms := fun now => by rw [up, hload]
  have hlater : ∀ {r' : Runner}, r'.config = r.config → r'.up d now₂ = r'.apply d now₂ ms := fun {r'} hconfig => by
    rw [up, load, hconfig, ← load, hload]
  have hupTo : r.upTo d now₁ target = r.apply d now₁ (ms.filter (·.version ≤ target)) := by
    rw [upTo, hload]
    exact if_pos (by simpa using ht)
  have hms := Migration.filter_append_filter target (Migration.pairwise_load hload)
  have hlow : ∀ m ∈ ms.filter (·.version ≤ target), r.SparesTable d m := fun m hm =>
    hspares m (List.mem_filter.1 hm).1
  refine ⟨fun first r₁ h => ?_, fun fault r₁ h => ?_, fun report r' h => ?_⟩
  · rw [hupTo] at h
    obtain ⟨_, _, _, _, hr₁, _⟩ := exists_of_apply_eq_ok hlow h
    have hnew : ∀ m ∈ ms.filter (·.version ≤ target), ∀ n ∈ ms.filter (target < ·.version), m.version ≠ n.version := by
      intro m hm n hn
      have hm := of_decide_eq_true (List.mem_filter.1 hm).2
      have hn := of_decide_eq_true (List.mem_filter.1 hn).2
      omega
    have hstages := apply_append_of_ok hlow (fun m hm => hspares m (List.mem_filter.1 hm).1) hnew h now now₂
    rwa [hms, ← hup, ← hlater (by rw [hr₁])] at hstages
  · rw [hupTo] at h
    have hsame : r.up d now₁ = (.error fault, r₁) := by
      rw [hup, ← hms]
      exact apply_append_of_error h
    have htimes := apply_congr now hspares now₁
    rw [← hup, ← hup, hsame] at htimes
    exact ⟨hsame, htimes⟩
  · rw [hup] at h
    obtain ⟨_, _, _, _, hr', _⟩ := exists_of_apply_eq_ok hspares h
    rw [hlater (by rw [hr'])]
    exact apply_of_apply hspares h now₂

end Stages

/-- A disk with a script that makes a table and one that fills it. -/
def stagedDisk : Disk where
  root := .folder [(.of "migrations", .folder [
    (.of "1_make.sql", .file (Text.utf8 (.of "create table t (x int)"))),
    (.of "2_fill.sql", .file (Text.utf8 (.of "insert into t values (3)\nGO 2")))])]

/-- The script that makes the table. -/
def makeMigration : Migration := ⟨1, .of "make", .of "migrations/1_make.sql", [], []⟩

/-- The script that fills the table. -/
def fillMigration : Migration := ⟨2, .of "fill", .of "migrations/2_fill.sql", [], []⟩

theorem load_stagedDisk (db : Database) :
    Runner.load { freshRunner with db } stagedDisk = .ok [makeMigration, fillMigration] := by
  have h : Migration.load stagedDisk (.of "migrations") {} = .ok [makeMigration, fillMigration] := by
    rw [Migration.load, Migration.discover_of_find rfl]
    simp (disch := decide) only [FileTree.files, FileTree.entryFiles, List.mergeSort_of_pairwise]
    decide +kernel
  exact h

theorem splitText_makeMigration : freshRunner.splitter.splitText freshRunner.config.splitter.stripComments
    (.of "create table t (x int)") = .ok [.batch (.of "create table t (x int)\n")] := by
  decide +kernel

theorem sparesTable_stagedDisk (db : Database) :
    ∀ m ∈ [makeMigration, fillMigration], Runner.SparesTable { freshRunner with db } stagedDisk m := by
  refine List.forall_mem_cons.2 ⟨?_, List.forall_mem_singleton.2 ?_⟩
  · have hread : makeMigration.read stagedDisk = .ok (.of "create table t (x int)") := by decide +kernel
    refine .of_events hread splitText_makeMigration ?_
    show ∀ sql ∈ _, Spares (VersionTable.name freshRunner.config.tablePrefix) sql
    decide +kernel
  · have hread : fillMigration.read stagedDisk = .ok (.of "insert into t values (3)\nGO 2") := by decide +kernel
    have hsplit : freshRunner.splitter.splitText freshRunner.config.splitter.stripComments
        (.of "insert into t values (3)\nGO 2") =
          .ok [.batch (.of "insert into t values (3)\n"), .directive ⟨.of "GO 2", some 2⟩] := by decide +kernel
    refine .of_events hread hsplit ?_
    show ∀ sql ∈ _, Spares (VersionTable.name freshRunner.config.tablePrefix) sql
    decide +kernel

/-- The first stage makes the table. -/
theorem upTo_stagedDisk :
    (freshRunner.upTo stagedDisk (.of "morning") 1).1 = .ok ⟨[1], 1⟩ := by
  have hload : freshRunner.load stagedDisk = .ok [makeMigration, fillMigration] := load_stagedDisk _
  have hrows : VersionTable.rows freshRunner.config.tablePrefix freshRunner.db = .ok [] := rfl
  have hms : [makeMigration, fillMigration].filter (·.version ≤ 1) = [makeMigration] := rfl
  have hbytes : stagedDisk.read makeMigration.path = .ok (Text.utf8 (.of "create table t (x int)")) := by decide +kernel
  have hscript : makeMigration.readWithChecksum stagedDisk = .ok (.of "create table t (x int)",
      Sha256.hexDigest (Text.utf8 (.of "create table t (x int)"))) := by
    simp only [Migration.readWithChecksum, hbytes, bind, Except.bind, Text.ofUtf8_eq_ok.2 rfl]
  -- the checksum has no part in the result, so it is never computed
  have hsent : (transact freshRunner.config.tablePrefix
      ⟨1, .of "make", Sha256.hexDigest (Text.utf8 (.of "create table t (x int)")), .of "morning"⟩
      (PlannedBatch.ofEvents [.batch (.of "create table t (x int)\n")]) freshRunner.db).1.toOption = some 1 := by
    decide +kernel
  have hone : (applyOne freshRunner.config freshRunner.splitter stagedDisk (.of "morning") makeMigration
      freshRunner.db).1 = .ok 1 := by
    rw [applyOne_eq_transact hscript splitText_makeMigration]
    exact eq_ok_of_toOption_eq_some hsent
  rcases ha : applyOne freshRunner.config freshRunner.splitter stagedDisk (.of "morning") makeMigration
    freshRunner.db with ⟨result, db⟩
  rw [ha] at hone
  cases hone
  rw [upTo, hload]
  simp only [hms, apply, hrows, applyAll, ha]
  rfl

theorem up_eq_upTo_up_stagedDisk :
    freshRunner.load stagedDisk = .ok [makeMigration, fillMigration] ∧
      (∀ m ∈ [makeMigration, fillMigration], freshRunner.SparesTable stagedDisk m) ∧
      ∃ r₁, freshRunner.upTo stagedDisk (.of "morning") 1 = (.ok ⟨[1], 1⟩, r₁) ∧
        (freshRunner.up stagedDisk (.of "noon")).1 =
          (r₁.up stagedDisk (.of "evening")).1.map (ApplyReport.append ⟨[1], 1⟩) ∧
        (freshRunner.up stagedDisk (.of "noon")).2.timeless = (r₁.up stagedDisk (.of "evening")).2.timeless := by
  have hload := load_stagedDisk freshRunner.db
  have hspares := sparesTable_stagedDisk freshRunner.db
  have htarget : (1 : Int) ∈ [makeMigration, fillMigration].map (·.version) := by decide
  have hfirst : freshRunner.upTo stagedDisk (.of "morning") 1 =
      (.ok ⟨[1], 1⟩, (freshRunner.upTo stagedDisk (.of "morning") 1).2) := Prod.ext upTo_stagedDisk rfl
  exact ⟨hload, hspares, _, hfirst, (up_eq_upTo_up freshRunner stagedDisk hload hspares htarget _ _ _).1 _ _ hfirst⟩

end Runner

end BatchMigrate
