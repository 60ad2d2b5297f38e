import BatchMigrate.Proofs.Runner.History

/-!
# Version tables side by side

Several sets of scripts share a database when the names of their version tables begin differently. Names of tables are
compared without regard to the case of ASCII letters, and so the beginnings must be, too: those that are alike up to case
name the same table (`VersionTable.name_alike`). What a runner does under one beginning leaves the version tables of all
others as they are (`Runner.Operation.get?_eq`), as long as no script names them. So does any sequence of such operations
(`Runner.Interleaving.get?_eq`), and each set of scripts sees its own versions only (`Runner.prefixes_apart`).
-/

namespace BatchMigrate

open Sql

/-! ## Names -/

namespace Text

theorem eqIgnoringAsciiCase_append (s t rest : Text) :
    (s ++ rest).eqIgnoringAsciiCase (t ++ rest) = s.eqIgnoringAsciiCase t := by
  rw [Bool.eq_iff_iff, eqIgnoringAsciiCase_iff, eqIgnoringAsciiCase_iff, lowerAscii, lowerAscii, List.map_append,
    List.map_append, List.append_cancel_right_eq]
  rfl

end Text

namespace VersionTable

variable {p q : Text} {db db' : Database}

/-- Names of version tables are alike exactly if their beginnings are. -/
theorem name_alike (p q : Text) : (name p).eqIgnoringAsciiCase (name q) = p.eqIgnoringAsciiCase q :=
  Text.eqIgnoringAsciiCase_append p q _

/-! ## Access to another version table -/

theorem get?_insert_of_ne {row : VersionRow} (hne : p.eqIgnoringAsciiCase q = false) (h : insert p row db = .ok db') :
    db'.tables.get? (name q) = db.tables.get? (name q) := by
  simp only [insert] at h
  split at h
  · rw [← (Database.addRow_eq_ok.1 h).2]
    exact Tables.get?_set_of_ne ((name_alike p q).trans hne) _ _
  · cases h
  · cases h

/-- Whether a version table can be made depends on its name alone. -/
theorem create_of_ok (h : create p db = .ok db') (other : Database) : create p other =
    .ok (if other.hasTable (name p) then other else { other with tables := other.tables.add (name p) (.versions []) }) := by
  simp only [create] at h ⊢
  split at h
  · cases h
  · rename_i hbegins
    split at h
    · cases h
    · rename_i hreserved
      rw [if_neg hbegins, if_neg hreserved]

theorem get?_create_of_ne (hne : p.eqIgnoringAsciiCase q = false) (h : create p db = .ok db') :
    db'.tables.get? (name q) = db.tables.get? (name q) := by
  cases h.symm.trans (create_of_ok h db)
  split
  · rfl
  · exact Tables.get?_add_of_ne ((name_alike p q).trans hne) _ _

theorem rows_congr (h : db'.tables.get? (name q) = db.tables.get? (name q)) :
    VersionTable.rows q db' = VersionTable.rows q db := by
  rw [VersionTable.rows, VersionTable.rows, rowsFor, rowsFor, h]

theorem maxVersion_congr (h : db'.tables.get? (name q) = db.tables.get? (name q)) :
    maxVersion q db' = maxVersion q db := by
  rw [maxVersion, maxVersion, rowsFor, rowsFor, h]

end VersionTable

/-! ## One runner and another version table -/

namespace Runner

open PlannedBatch VersionTable

variable {p q : Text} {r : Runner} {d : Disk} {db : Database}

theorem get?_connect_of_ne {config : Config} (hne : config.tablePrefix.eqIgnoringAsciiCase q = false)
    (h : connect config db = .ok r) : r.db.tables.get? (name q) = db.tables.get? (name q) := by
  obtain ⟨_, splitter, db', _, hcreate, rfl⟩ := connect_eq_ok.1 h
  exact get?_create_of_ne hne hcreate

/-- A runner that can be opened at all can be opened where it has no version table yet, and then sees no versions. -/
theorem connect_fresh {config : Config} {db₀ : Database} {r₀ : Runner} (haccepted : connect config db₀ = .ok r₀)
    (hfresh : db.tables.get? (name config.tablePrefix) = none) :
    ∃ r, connect config db = .ok r ∧ r.config = config ∧ VersionTable.rows config.tablePrefix r.db = .ok [] := by
  obtain ⟨htable, splitter, db₁, hsplitter, hcreate, _⟩ := connect_eq_ok.1 haccepted
  have hcreate := create_of_ok hcreate db
  have hhas : ¬db.hasTable (name config.tablePrefix) = true := by simp [Database.hasTable, hfresh]
  rw [if_neg hhas] at hcreate
  have hempty := Tables.get?_add_self (.versions []) hfresh
  exact ⟨_, connect_eq_ok.2 ⟨htable, splitter, _, hsplitter, hcreate, rfl⟩, rfl, rows_eq_ok_iff.2 hempty⟩

section Interleavings

variable [Interpreter] [LawfulInterpreter]

/-- **One transaction** leaves the version table of another set of scripts as it is, whether it is committed or undone. -/
theorem get?_transact_of_ne (hne : p.eqIgnoringAsciiCase q = false) (row : VersionRow) {plan : List PlannedBatch}
    (hname : ∀ sql ∈ texts plan, Spares (name q) sql) (db : Database) :
    (transact p row plan db).2.tables.get? (name q) = db.tables.get? (name q) := by
  have hd := (Database.Holds.begun db.tables (name q)).runAll hname
  have hend := transact_ends row p plan db
  generalize transact p row plan db = final at hend ⊢
  cases hend with
  | nested => rfl
  | undone => exact hd.rollback
  | ended _ hinsert | committed _ hinsert => exact (get?_insert_of_ne hne hinsert).trans hd.1

section Apply

variable (hne : r.config.tablePrefix.eqIgnoringAsciiCase q = false) (now : Text)

include hne

theorem get?_applyOne_of_ne {m : Migration} (hspares : r.SparesTableOf q d m) (db : Database) :
    (applyOne r.config r.splitter d now m db).2.tables.get? (name q) = db.tables.get? (name q) := by
  rcases applyOne_eq_error_or_transact r.config r.splitter d now m db with
    ⟨_, ha⟩ | ⟨script, sum, events, hread, hsplit, ha⟩ <;> rw [ha]
  exact get?_transact_of_ne hne _ (hspares.texts hread hsplit) db

/-- **A run** leaves the version table of another set of scripts as it is. -/
theorem get?_up_of_ne (hspares : ∀ ms, r.load d = .ok ms → ∀ m ∈ ms, r.SparesTableOf q d m) :
    (r.up d now).2.db.tables.get? (name q) = r.db.tables.get? (name q) :=
  up_keeps (fun db => db.tables.get? (name q) = r.db.tables.get? (name q))
    (fun ms hload m hm db hdb => (get?_applyOne_of_ne hne now (hspares ms hload m hm) db).trans hdb) rfl

theorem get?_upTo_of_ne (hspares : ∀ ms, r.load d = .ok ms → ∀ m ∈ ms, r.SparesTableOf q d m) (target : Int) :
    (r.upTo d now target).2.db.tables.get? (name q) = r.db.tables.get? (name q) :=
  upTo_keeps (fun db => db.tables.get? (name q) = r.db.tables.get? (name q))
    (fun ms hload m hm db hdb => (get?_applyOne_of_ne hne now (hspares ms hload m hm) db).trans hdb) rfl target

end Apply

/-! ## Many runners -/

/-- No script that the runner loads names one of the version tables. -/
def SparesTables (prefixes : List Text) (r : Runner) (d : Disk) : Prop :=
  ∀ ms, r.load d = .ok ms → ∀ m ∈ ms, ∀ q ∈ prefixes, r.SparesTableOf q d m

/-- A runner whose version table has a name that begins with `p` is opened on the database, or applies scripts to it, with
or without success. -/
inductive Operation (prefixes : List Text) (p : Text) : Database → Database → Prop
  | opened {config : Config} {db : Database} {r : Runner} (hp : config.tablePrefix = p)
      (h : connect config db = .ok r) : Operation prefixes p db r.db
  | up {r : Runner} {d : Disk} (now : Text) (hp : r.config.tablePrefix = p) (h : r.SparesTables prefixes d) :
      Operation prefixes p r.db (r.up d now).2.db
  | upTo {r : Runner} {d : Disk} (now : Text) (target : Int) (hp : r.config.tablePrefix = p)
      (h : r.SparesTables prefixes d) : Operation prefixes p r.db (r.upTo d now target).2.db

/-- Operations one after the other, each with the beginning of the name of its version table. -/
inductive Interleaving (prefixes : List Text) : Database → List Text → Database → Prop
  | nil (db : Database) : Interleaving prefixes db [] db
  | cons {p : Text} {ps : List Text} {db db₁ db₂ : Database} (h : Operation prefixes p db db₁)
      (hs : Interleaving prefixes db₁ ps db₂) : Interleaving prefixes db (p :: ps) db₂

variable {prefixes ps : List Text} {db' : Database}

/-- **One operation** leaves all version tables but its own. -/
theorem Operation.get?_eq (hq : q ∈ prefixes) (h : Operation prefixes p db db')
    (hne : p.eqIgnoringAsciiCase q = false) : db'.tables.get? (name q) = db.tables.get? (name q) := by
  cases h with
  | opened hp h =>
    subst hp
    exact get?_connect_of_ne hne h
  | up now hp h =>
    subst hp
    exact get?_up_of_ne hne now fun ms hload m hm => h ms hload m hm q hq
  | upTo now target hp h =>
    subst hp
    exact get?_upTo_of_ne hne now (fun ms hload m hm => h ms hload m hm q hq) target

/-- **Any number of operations** leave a version table that is not one of theirs. -/
theorem Interleaving.get?_eq (hq : q ∈ prefixes) (h : Interleaving prefixes db ps db')
    (hne : ∀ p ∈ ps, p.eqIgnoringAsciiCase q = false) : db'.tables.get? (name q) = db.tables.get? (name q) := by
  induction h with
  | nil db => rfl
  | cons h _ ih =>
    obtain ⟨hfirst, hne⟩ := List.forall_mem_cons.1 hne
    exact (ih hne).trans (h.get?_eq hq hfirst)

/-- **Version tables are kept apart** by beginnings of their names that differ in more than the case of ASCII letters.
From whatever database, and so at any place of a longer interleaving, what other sets of scripts do changes neither the
rows that a set of scripts sees nor its current version; and if it has no version table yet, it starts without versions
after all that they have done. Beginnings that differ in case alone are no different: the rows are the same. -/
theorem prefixes_apart (hq : q ∈ prefixes) :
    (∀ {db db' : Database} {ps : List Text}, Interleaving prefixes db ps db' →
      (∀ p ∈ ps, p.eqIgnoringAsciiCase q = false) →
        VersionTable.rows q db' = VersionTable.rows q db ∧
        (∀ r : Runner, r.config.tablePrefix = q →
          currentVersion { r with db := db' } = currentVersion { r with db := db }) ∧
        (db.tables.get? (name q) = none → ∀ {config : Config} {db₀ : Database} {r₀ : Runner},
          config.tablePrefix = q → connect config db₀ = .ok r₀ →
            ∃ r, connect config db' = .ok r ∧ VersionTable.rows q r.db = .ok [] ∧ r.currentVersion = .ok none)) ∧
    ∀ {p : Text} {db : Database}, p.eqIgnoringAsciiCase q = true →
      ∀ rows, VersionTable.rows p db = .ok rows ↔ VersionTable.rows q db = .ok rows := by
  refine ⟨fun {db db' ps} h hne => ?_, fun {p db} halike rows => ?_⟩
  · have hsame := h.get?_eq hq hne
    refine ⟨rows_congr hsame, fun r hr => ?_, fun hnone {config db₀ r₀} hconfig haccepted => ?_⟩
    · subst hr
      rw [currentVersion, currentVersion, maxVersion_congr hsame]
    · subst hconfig
      obtain ⟨r, hr, hconfig, hrows⟩ := connect_fresh haccepted (hsame.trans hnone)
      refine ⟨r, hr, hrows, currentVersion_eq_ok.2 ⟨[], ?_, rfl⟩⟩
      rw [hconfig, hrows]
  · rw [rows_eq_ok_iff, rows_eq_ok_iff, Tables.get?_alike ((name_alike p q).trans halike)]

end Interleavings

/-- A disk with a script that two sets of scripts share. -/
def sharedDisk : Disk where
  root := .folder [(.of "migrations", .folder [
    (.of "1_a.sql", .file (Text.utf8 (.of "create table if not exists shared (x int)")))])]

/-- A runner with a version table that is empty. -/
def prefixRunner (p : Text) : Runner where
  config := { tablePrefix := p }
  splitter := freshRunner.splitter
  db := { tables := [(name p, .versions [])] }

/-- What the script and its record leave. -/
def sharedDatabase (row : VersionRow) : Database where
  tables := [(name (.of "a_"), .versions [row]), (.of "shared", .numbers [])]

/-- The script of the disk. -/
def sharedMigration : Migration := ⟨1, .of "a", .of "migrations/1_a.sql", [], []⟩

theorem load_sharedDisk (p : Text) : (prefixRunner p).load sharedDisk = .ok [sharedMigration] := by
  have h : freshRunner.load sharedDisk = .ok [sharedMigration] := by decide +kernel
  exact h

theorem splitText_sharedMigration : freshRunner.splitter.splitText freshRunner.config.splitter.stripComments
    (.of "create table if not exists shared (x int)") =
      .ok [.batch (.of "create table if not exists shared (x int)\n")] := by
  decide +kernel

theorem sparesTables_sharedDisk :
    (prefixRunner (.of "a_")).SparesTables [.of "a_", .of "A_", .of "b_"] sharedDisk := by
  intro ms hload m hm q hq
  cases (load_sharedDisk _).symm.trans hload
  cases List.mem_singleton.1 hm
  have hread : sharedMigration.read sharedDisk = .ok (.of "create table if not exists shared (x int)") := by decide +kernel
  refine .of_events hread splitText_sharedMigration ?_
  revert q
  decide +kernel

/-- The script is applied and recorded. -/
theorem up_sharedDisk : ∃ row : VersionRow, row.version = 1 ∧
    (prefixRunner (.of "a_")).up sharedDisk (.of "noon") =
      (.ok ⟨[1], 1⟩, { prefixRunner (.of "a_") with db := sharedDatabase row }) := by
  have hdisk : sharedDisk.root.legal = true := by decide
  obtain ⟨script, sum, hread, _, hscript⟩ :=
    (Migration.readable_of_mem_load hdisk (load_sharedDisk []) (List.mem_singleton_self _)).exists_script
  have hread' : sharedMigration.read sharedDisk = .ok (.of "create table if not exists shared (x int)") := by decide +kernel
  cases hread'.symm.trans hread
  have hcarry : carryOut 0 (ofEvents [.batch (.of "create table if not exists shared (x int)\n")])
      ⟨(prefixRunner (.of "a_")).db.tables, some (prefixRunner (.of "a_")).db.tables⟩ =
        (.ok 1, ⟨(prefixRunner (.of "a_")).db.tables ++ [(.of "shared", .numbers [])],
          some (prefixRunner (.of "a_")).db.tables⟩) := by
    decide +kernel
  have hone : applyOne (prefixRunner (.of "a_")).config freshRunner.splitter sharedDisk (.of "noon") sharedMigration
      (prefixRunner (.of "a_")).db = (.ok 1, sharedDatabase ⟨1, .of "a", sum, .of "noon"⟩) := by
    have hsplit : freshRunner.splitter.splitText (prefixRunner (.of "a_")).config.splitter.stripComments
        (.of "create table if not exists shared (x int)") = _ := splitText_sharedMigration
    rw [applyOne_eq_transact hscript hsplit, transact, Database.beginTransaction_eq_ok rfl]
    simp only [hcarry]
    rfl
  refine ⟨⟨1, .of "a", sum, .of "noon"⟩, rfl, ?_⟩
  rw [up, load_sharedDisk]
  have hrows : VersionTable.rows (prefixRunner (.of "a_")).config.tablePrefix (prefixRunner (.of "a_")).db = .ok [] := rfl
  have hsplitter : (prefixRunner (.of "a_")).splitter = freshRunner.splitter := rfl
  simp only [apply, hrows, List.map_nil, applyAll, List.not_mem_nil, if_false, hsplitter, hone]
  rfl

/-- After the script is recorded for `a_`, a set of scripts under `b_` starts without versions. -/
theorem prefixes_apart_sharedDisk :
    (Text.of "a_").eqIgnoringAsciiCase (.of "b_") = false ∧
    connect { tablePrefix := .of "a_" } {} = .ok (prefixRunner (.of "a_")) ∧
    ∃ r₁, (prefixRunner (.of "a_")).up sharedDisk (.of "noon") = (.ok ⟨[1], 1⟩, r₁) ∧
      ∃ r, connect { tablePrefix := .of "b_" } r₁.db = .ok r ∧ VersionTable.rows (.of "b_") r.db = .ok [] ∧
        r.currentVersion = .ok none := by
  obtain ⟨row, _, hup⟩ := up_sharedDisk
  have hopen : connect { tablePrefix := .of "a_" } {} = .ok (prefixRunner (.of "a_")) := rfl
  have hother : connect { tablePrefix := .of "b_" } {} = .ok (prefixRunner (.of "b_")) := rfl
  have hne : (Text.of "a_").eqIgnoringAsciiCase (.of "b_") = false := by decide
  refine ⟨hne, hopen, _, hup, ?_⟩
  have h : Interleaving [.of "a_", .of "A_", .of "b_"] {} [.of "a_", .of "a_"]
      ((prefixRunner (.of "a_")).up sharedDisk (.of "noon")).2.db :=
    .cons (.opened rfl hopen) (.cons (.up (.of "noon") rfl sparesTables_sharedDisk) (.nil _))
  rw [hup] at h
  have hq : Text.of "b_" ∈ [Text.of "a_", Text.of "A_", Text.of "b_"] := by decide
  obtain ⟨hapart, _⟩ := prefixes_apart hq
  obtain ⟨_, _, hfresh⟩ := hapart h (by decide)
  exact hfresh rfl rfl hother

/-- **Two prefixes of one table.** After the script is recorded for `a_`, a runner that is opened for `A_` finds it
recorded. -/
theorem prefixes_not_apart :
    Text.of "a_" ≠ Text.of "A_" ∧
    connect { tablePrefix := .of "a_" } {} = .ok (prefixRunner (.of "a_")) ∧
    connect { tablePrefix := .of "A_" } {} = .ok (prefixRunner (.of "A_")) ∧
    (prefixRunner (.of "a_")).SparesTables [.of "a_", .of "A_", .of "b_"] sharedDisk ∧
    ∃ r₁, (prefixRunner (.of "a_")).up sharedDisk (.of "noon") = (.ok ⟨[1], 1⟩, r₁) ∧
      ∃ r, connect { tablePrefix := .of "A_" } r₁.db = .ok r ∧ VersionTable.rows (.of "A_") r.db ≠ .ok [] ∧
        r.currentVersion = .ok (some 1) := by
  obtain ⟨row, hrow, hup⟩ := up_sharedDisk
  have hopen : connect { tablePrefix := .of "A_" } (sharedDatabase row) =
      .ok { prefixRunner (.of "A_") with db := sharedDatabase row } := rfl
  have hrows : VersionTable.rows (.of "A_") (sharedDatabase row) = .ok [row] := rfl
  refine ⟨by decide, rfl, rfl, sparesTables_sharedDisk, _, hup, _, hopen, ?_, currentVersion_eq_ok.2 ⟨[row], hrows, ?_⟩⟩
  · simp [hrows]
  · rw [List.map_singleton, hrow]
    rfl

end Runner

end BatchMigrate
