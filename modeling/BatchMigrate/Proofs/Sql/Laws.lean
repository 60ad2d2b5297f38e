import BatchMigrate.Proofs.Sql.Tables

/-!
# The laws of an interpreter

Runs of migrations need to know little of the SQL that they send: which texts leave a table alone, which leave the open
transaction alone, and that no text writes two rows of one version. These are the laws of a `LawfulInterpreter`. They are
stated for one text, and hold of texts that are run one after the other (`Database.runAll`). A transaction keeps earlier
tables, which a rollback brings back; `Database.Throughout` speaks of both.
-/

namespace BatchMigrate.Sql

namespace Database

variable {db db' : Database} {P : Tables → Prop}

/-! ## Transactions -/

/-- A transaction begins where none is open, and keeps the tables as they are. -/
theorem eq_of_beginTransaction (h : db.beginTransaction = .ok db') :
    db.saved = none ∧ db' = ⟨db.tables, some db.tables⟩ := by
  unfold beginTransaction at h
  split at h
  · cases h
  · rename_i hidle
    cases h
    exact ⟨by simpa using hidle, rfl⟩

theorem beginTransaction_eq_ok (h : db.saved = none) : db.beginTransaction = .ok ⟨db.tables, some db.tables⟩ := by
  rw [beginTransaction, h]
  rfl

theorem eq_of_commit (h : db.commit = .ok db') : db' = ⟨db.tables, none⟩ := by
  unfold commit at h
  split at h <;> cases h
  rfl

theorem saved_rollback (db : Database) : db.rollback.saved = none := by
  unfold rollback
  split
  · rfl
  · assumption

/-- The tables satisfy `P`, and so do those that a rollback would bring back. -/
def Throughout (db : Database) (P : Tables → Prop) : Prop := P db.tables ∧ ∀ tables, db.saved = some tables → P tables

theorem Throughout.rollback (hd : db.Throughout P) : P db.rollback.tables := by
  unfold Database.rollback
  split
  · rename_i tables hs
    exact hd.2 tables hs
  · exact hd.1

/-- At the begin of a transaction, a rollback would bring back the tables as they are. -/
theorem Throughout.begun {tables : Tables} (hP : P tables) : Throughout ⟨tables, some tables⟩ P := by
  refine ⟨hP, fun tables' hs => ?_⟩
  cases hs
  exact hP

/-! ## Rows -/

/-- A row is only added for a version that has none. -/
theorem addRow_eq_ok {name : Text} {rows : List VersionRow} {row : VersionRow} : db.addRow name rows row = .ok db' ↔
    (∀ r ∈ rows, r.version ≠ row.version) ∧
      { db with tables := db.tables.set name (.versions (insertBy VersionRow.version row rows)) } = db' := by
  unfold addRow
  split
  · rename_i hany
    obtain ⟨r, hr, hversion⟩ := List.any_eq_true.1 hany
    exact iff_of_false (fun h => by cases h) fun h => h.1 r hr (of_decide_eq_true hversion)
  · rename_i hany
    have hnew : ∀ r ∈ rows, r.version ≠ row.version := by simpa using hany
    rw [Except.ok.injEq, and_iff_right hnew]

/-! ## Changing a table -/

/-- The database with the table of that name changed, also in the tables that a rollback brings back. -/
def modify (name : Text) (f : Table → Table) (db : Database) : Database where
  tables := db.tables.modify name f
  saved := db.saved.map (Tables.modify name f)

section Modify

variable (name : Text) (f : Table → Table) (db : Database)

theorem hasTable_modify : (db.modify name f).hasTable = db.hasTable := by
  funext other
  rw [hasTable, hasTable, modify, Tables.get?_modify, Option.isSome_map]

theorem beginTransaction_modify : (db.modify name f).beginTransaction = db.beginTransaction.map (modify name f) := by
  obtain ⟨tables, saved⟩ := db
  cases saved <;> rfl

theorem commit_modify : (db.modify name f).commit = db.commit.map (modify name f) := by
  obtain ⟨tables, saved⟩ := db
  cases saved <;> rfl

theorem rollback_modify : (db.modify name f).rollback = db.rollback.modify name f := by
  obtain ⟨tables, saved⟩ := db
  cases saved <;> rfl

/-- Adding a row to another table. -/
theorem addRow_modify_of_ne {other : Text} (h : name.eqIgnoringAsciiCase other = false) (rows : List VersionRow)
    (row : VersionRow) : (db.modify name f).addRow other rows row = (db.addRow other rows row).map (modify name f) := by
  rw [addRow, addRow, show (db.modify name f).tables.declared other = db.tables.declared other from
    Tables.declared_modify name f other db.tables]
  split
  · rfl
  · simp only [Except.map, modify, Tables.set, Tables.modify_modify_of_ne h]

end Modify

/-! ## Several texts -/

section Texts

variable [Interpreter]

/-- Runs texts one after the other, up to the first statement that is refused. -/
def runAll (db : Database) : List Text → Except Fault Unit × Database
  | [] => (.ok (), db)
  | sql :: rest =>
    match db.run sql with
    | (.ok (), db) => runAll db rest
    | (.error fault, db) => (.error fault, db)

theorem runAll_cons_of_ok {sql : Text} (h : db.run sql = (.ok (), db')) (rest : List Text) :
    db.runAll (sql :: rest) = db'.runAll rest := by
  rw [runAll, h]

theorem runAll_cons_of_error {sql : Text} {fault : Fault} (h : db.run sql = (.error fault, db')) (rest : List Text) :
    db.runAll (sql :: rest) = (.error fault, db') := by
  rw [runAll, h]

theorem runAll_append_of_ok : ∀ {before : List Text} {db db' : Database} (after : List Text),
    db.runAll before = (.ok (), db') → db.runAll (before ++ after) = db'.runAll after
  | [], _, _, _, h => by
    cases h
    rfl
  | sql :: before, db, db', after, h => by
    rcases hr : db.run sql with ⟨_ | _, db₁⟩
    · rw [runAll_cons_of_error hr] at h
      cases h
    · rw [runAll_cons_of_ok hr] at h
      rw [List.cons_append, runAll_cons_of_ok hr]
      exact runAll_append_of_ok after h

theorem runAll_append_of_error : ∀ {before : List Text} {db db' : Database} {fault : Fault} (after : List Text),
    db.runAll before = (.error fault, db') → db.runAll (before ++ after) = (.error fault, db')
  | [], _, _, _, _, h => by cases h
  | sql :: before, db, db', fault, after, h => by
    rcases hr : db.run sql with ⟨_ | _, db₁⟩
    · rw [runAll_cons_of_error hr] at h
      rw [List.cons_append, runAll_cons_of_error hr, h]
    · rw [runAll_cons_of_ok hr] at h
      rw [List.cons_append, runAll_cons_of_ok hr]
      exact runAll_append_of_error after h

/-- **An invariant of each text** is one of all of them, even if one is refused. -/
theorem runAll_invariant {I : Database → Prop} : ∀ {texts : List Text} {db : Database},
    (∀ sql ∈ texts, ∀ db : Database, I db → I (db.run sql).2) → I db → I (db.runAll texts).2
  | [], _, _, hI => hI
  | sql :: rest, db, hstep, hI => by
    obtain ⟨hfirst, hrest⟩ := List.forall_mem_cons.1 hstep
    have hI := hfirst db hI
    rcases hr : db.run sql with ⟨_ | _, db₁⟩ <;> rw [hr] at hI
    · rw [runAll_cons_of_error hr]
      exact hI
    · rw [runAll_cons_of_ok hr]
      exact runAll_invariant hrest hI

end Texts

end Database

/-! ## Laws -/

/-- No two rows of the version table of that name have the same version: it is the primary key. -/
def Tables.Keyed (name : Text) (tables : Tables) : Prop :=
  ∀ rows, tables.get? name = some (.versions rows) → (rows.map VersionRow.version).Nodup

/-- **What is required of an interpreter**, with the texts that the requirements are about. -/
class LawfulInterpreter [Interpreter] where
  /-- No statement of the text names the table. -/
  Spares (table sql : Text) : Prop
  /-- No statement of the text begins or ends a transaction. -/
  Uncontrolled (sql : Text) : Prop
  /-- **Frame.** What is true of a table stays true if the text does not name it, also after a rollback. -/
  frame {table sql : Text} (h : Spares table sql) {P : Option Table → Prop} {db : Database}
    (hd : db.Throughout fun tables => P (tables.get? table)) :
    (db.run sql).2.Throughout fun tables => P (tables.get? table)
  /-- What a table holds makes no difference to a text that does not name it. -/
  blind {table sql : Text} (h : Spares table sql) (f : Table → Table) (db : Database) :
    (db.modify table f).run sql = Prod.map id (Database.modify table f) (db.run sql)
  /-- **Rollback.** A text that neither begins nor ends a transaction does the same inside one and outside, and leaves the
  tables that a rollback brings back. -/
  inside {sql : Text} (h : Uncontrolled sql) (tables : Tables) (saved : Option Tables) :
    (Database.mk tables saved).run sql =
      (((Database.mk tables none).run sql).1, ⟨((Database.mk tables none).run sql).2.tables, saved⟩)
  /-- **Primary key.** No text writes two rows of one version. -/
  keyed {table : Text} (sql : Text) {db : Database} (hd : db.Throughout (Tables.Keyed table)) :
    (db.run sql).2.Throughout (Tables.Keyed table)

export LawfulInterpreter (Spares Uncontrolled)

namespace Database

variable [Interpreter] [LawfulInterpreter] {db : Database} {table : Text} {texts : List Text}

/-- Texts leave a table that none of them names, and so does an end of the open transaction. -/
theorem runAll_frame (h : ∀ sql ∈ texts, Spares table sql) {P : Option Table → Prop}
    (hd : db.Throughout fun tables => P (tables.get? table)) :
    (db.runAll texts).2.Throughout fun tables => P (tables.get? table) :=
  runAll_invariant (I := (·.Throughout fun tables => P (tables.get? table)))
    (fun sql hsql _ hd => LawfulInterpreter.frame (h sql hsql) hd) hd

theorem get?_runAll (h : ∀ sql ∈ texts, Spares table sql) (tables : Tables) :
    ((mk tables none).runAll texts).2.tables.get? table = tables.get? table :=
  (runAll_frame h (P := (· = tables.get? table)) ⟨rfl, fun _ hs => by cases hs⟩).1

/-- What a table holds makes no difference to texts that do not name it. -/
theorem runAll_blind (f : Table → Table) : ∀ {texts : List Text}, (∀ sql ∈ texts, Spares table sql) → ∀ db : Database,
    (db.modify table f).runAll texts = Prod.map id (modify table f) (db.runAll texts)
  | [], _, _ => rfl
  | sql :: rest, h, db => by
    obtain ⟨hsql, hrest⟩ := List.forall_mem_cons.1 h
    have hblind := LawfulInterpreter.blind hsql f db
    rcases hr : db.run sql with ⟨_ | _, db'⟩ <;> rw [hr] at hblind
    · rw [runAll_cons_of_error hr, runAll_cons_of_error hblind]
      rfl
    · rw [runAll_cons_of_ok hr, runAll_cons_of_ok hblind]
      exact runAll_blind f hrest db'

/-- Texts that neither begin nor end a transaction do the same inside one and outside. -/
theorem runAll_inside : ∀ {texts : List Text}, (∀ sql ∈ texts, Uncontrolled sql) →
    ∀ (tables : Tables) (saved : Option Tables), (mk tables saved).runAll texts =
      (((mk tables none).runAll texts).1, mk ((mk tables none).runAll texts).2.tables saved)
  | [], _, _, _ => rfl
  | sql :: rest, h, tables, saved => by
    obtain ⟨hsql, hrest⟩ := List.forall_mem_cons.1 h
    have hin := LawfulInterpreter.inside hsql tables saved
    have hout := LawfulInterpreter.inside hsql tables none
    rcases hr : (mk tables none).run sql with ⟨_ | _, ⟨tables₁, saved₁⟩⟩
    · rw [hr] at hin
      rw [runAll_cons_of_error hr, runAll_cons_of_error hin]
    · rw [hr] at hin hout
      cases hout
      rw [runAll_cons_of_ok hr, runAll_cons_of_ok hin]
      exact runAll_inside hrest tables₁ saved

end Database

end BatchMigrate.Sql
