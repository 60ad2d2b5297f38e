import BatchMigrate.Proofs.Faults
import BatchMigrate.Proofs.Migration.Load
import BatchMigrate.Proofs.Order
import BatchMigrate.Proofs.Sql.Laws
import BatchMigrate.Proofs.Text.Utf8
import BatchMigrate.Runner.Basic

/-!
# One migration in its transaction

The texts of a plan are its batches, each as often as it is sent. Carrying out the plan runs these texts in order
(`Runner.carryOut_of_ok`, `Runner.carryOut_of_error`), so that a transaction either does what they do without it and adds
one row (`Runner.transact_of_ok`), or leaves the database as it was (`Runner.transact_of_error`). Here no text holds
`begin` or `commit` or names the version table: such a text could end the transaction early or take its row away.

Whatever the texts hold, a transaction ends in one of four ways (`Runner.TransactionEnd`), and what each migration keeps,
a run keeps (`Runner.up_keeps`, `Runner.upTo_keeps`). So no run leaves a transaction open (`Runner.saved_up`), and none
changes a database in which one is open already (`Runner.up_of_open`).
-/

namespace BatchMigrate

open Sql

/-! ## Plans -/

namespace PlannedBatch

/-- The texts that a plan sends to the database, one after the other. -/
def texts (plan : List PlannedBatch) : List Text := plan.flatMap fun b => List.replicate b.sends b.sql

theorem texts_cons (b : PlannedBatch) (rest : List PlannedBatch) :
    texts (b :: rest) = List.replicate b.sends b.sql ++ texts rest := by
  rw [texts, List.flatMap_cons]
  rfl

theorem texts_batch_directive (n : Nat) (sql : Text) (d : Directive) (events : List Event) :
    texts (ofEventsFrom n (.batch sql :: .directive d :: events)) =
      List.replicate (PlannedBatch.sends ⟨n + 1, sql, d.repeatCount⟩) sql ++ texts (ofEventsFrom (n + 1) events) :=
  texts_cons _ _

/-- The batches of a plan are those of the events. -/
theorem batch_mem_of_mem_ofEventsFrom {b : PlannedBatch} : ∀ {n : Nat} {events : List Event},
    b ∈ ofEventsFrom n events → .batch b.sql ∈ events
  | _, [], h => by cases h
  | n, .directive _ :: rest, h => by
    rw [ofEventsFrom] at h
    exact List.mem_cons_of_mem _ (batch_mem_of_mem_ofEventsFrom h)
  | n, .batch sql :: .directive d :: rest, h => by
    rw [ofEventsFrom] at h
    rcases List.mem_cons.1 h with rfl | h
    · exact List.mem_cons_self
    · exact List.mem_cons_of_mem _ (List.mem_cons_of_mem _ (batch_mem_of_mem_ofEventsFrom h))
  | n, [.batch sql], h => by
    rw [ofEventsFrom, ofEventsFrom] at h
    · rcases List.mem_singleton.1 h with rfl
      exact List.mem_cons_self
    · simp
  | n, .batch sql :: .batch sql' :: rest, h => by
    rw [ofEventsFrom] at h
    · rcases List.mem_cons.1 h with rfl | h
      · exact List.mem_cons_self
      · exact List.mem_cons_of_mem _ (batch_mem_of_mem_ofEventsFrom h)
    · simp

/-- Nothing is sent that is not a batch of the script. -/
theorem batch_mem_of_mem_texts {sql : Text} {events : List Event} (h : sql ∈ texts (ofEvents events)) :
    .batch sql ∈ events := by
  obtain ⟨b, hb, hsql⟩ := List.mem_flatMap.1 h
  rw [List.eq_of_mem_replicate hsql]
  exact batch_mem_of_mem_ofEventsFrom hb

end PlannedBatch

/-! ## Batches -/

/-- The text of a batch. -/
def Event.sql? : Event → Option Text
  | .batch sql => some sql
  | .directive _ => none

namespace Runner

/-- Each batch of the script has the property, if the script can be read and split. -/
def EachBatch (r : Runner) (d : Disk) (m : Migration) (p : Text → Prop) : Prop :=
  ∀ script events, m.read d = .ok script →
    r.splitter.splitText r.config.splitter.stripComments script = .ok events → ∀ sql ∈ events.filterMap Event.sql?, p sql

namespace EachBatch

variable {r : Runner} {d : Disk} {m : Migration} {p q : Text → Prop} {script : Text} {events : List Event}

theorem mono (h : r.EachBatch d m p) (hpq : ∀ sql, p sql → q sql) : r.EachBatch d m q :=
  fun script events hread hsplit sql hsql => hpq sql (h script events hread hsplit sql hsql)

/-- It is enough to look at the events of the script. -/
theorem of_events (hread : m.read d = .ok script)
    (hsplit : r.splitter.splitText r.config.splitter.stripComments script = .ok events)
    (h : ∀ sql ∈ events.filterMap Event.sql?, p sql) : r.EachBatch d m p := by
  intro script' events' hread' hsplit'
  cases hread.symm.trans hread'
  cases hsplit.symm.trans hsplit'
  exact h

/-- Each text that is sent for the script has the property. -/
theorem texts {sum : Text} (h : r.EachBatch d m p) (hread : m.readWithChecksum d = .ok (script, sum))
    (hsplit : r.splitter.splitText r.config.splitter.stripComments script = .ok events) :
    ∀ sql ∈ PlannedBatch.texts (PlannedBatch.ofEvents events), p sql := fun sql hsql =>
  h script events (Migration.readWithChecksum_eq_ok hread).1 hsplit sql
    (List.mem_filterMap.2 ⟨_, PlannedBatch.batch_mem_of_mem_texts hsql, rfl⟩)

end EachBatch

end Runner

namespace Runner

open PlannedBatch

variable [Interpreter]

theorem sendTimes_eq_runAll (sql : Text) : ∀ (n : Nat) (db : Database), sendTimes sql n db = db.runAll (List.replicate n sql)
  | 0, _ => rfl
  | n + 1, db => by
    rw [sendTimes, List.replicate_succ]
    rcases hr : db.run sql with ⟨_ | _, db₁⟩
    · rw [Database.runAll_cons_of_error hr]
    · rw [Database.runAll_cons_of_ok hr]
      exact sendTimes_eq_runAll sql n db₁

/-- A plan whose texts are all accepted is carried out: the number of texts sent, and what they do. -/
theorem carryOut_of_ok : ∀ {plan : List PlannedBatch} {db db' : Database} (sent : Nat),
    db.runAll (texts plan) = (.ok (), db') → carryOut sent plan db = (.ok (sent + (texts plan).length), db')
  | [], _, _, _, h => by
    cases h
    rfl
  | b :: rest, db, db', sent, h => by
    rw [texts_cons] at h
    rw [carryOut, sendTimes_eq_runAll]
    rcases hb : db.runAll (List.replicate b.sends b.sql) with ⟨_ | _, db₁⟩
    · rw [Database.runAll_append_of_error _ hb] at h
      cases h
    · rw [Database.runAll_append_of_ok _ hb] at h
      show carryOut (sent + b.sends) rest db₁ = _
      rw [carryOut_of_ok _ h, texts_cons, List.length_append, List.length_replicate, Nat.add_assoc]

/-- A plan with a text that is refused ends in one of its batches, after what the texts before that one do. -/
theorem carryOut_of_error : ∀ {plan : List PlannedBatch} {db db' : Database} {fault : Fault} (sent : Nat),
    db.runAll (texts plan) = (.error fault, db') →
      ∃ b ∈ plan, carryOut sent plan db = (.error (b.number, fault), db')
  | [], _, _, _, _, h => by cases h
  | b :: rest, db, db', fault, sent, h => by
    rw [texts_cons] at h
    rw [carryOut, sendTimes_eq_runAll]
    rcases hb : db.runAll (List.replicate b.sends b.sql) with ⟨_ | _, db₁⟩
    · rw [Database.runAll_append_of_error _ hb] at h
      cases h
      exact ⟨b, List.mem_cons_self, rfl⟩
    · rw [Database.runAll_append_of_ok _ hb] at h
      obtain ⟨b', hmem, hc⟩ := carryOut_of_error (sent + b.sends) h
      exact ⟨b', List.mem_cons_of_mem _ hmem, hc⟩

end Runner

/-! ## The row of a version -/

namespace VersionTable

variable {tablePrefix : Text} {tables : Tables} {rows : List VersionRow}

/-- The tables with a row for one more version. -/
def record (tablePrefix : Text) (row : VersionRow) (tables : Tables) : Tables :=
  match tables.get? (name tablePrefix) with
  | some (.versions rows) => tables.set (name tablePrefix) (.versions (insertBy VersionRow.version row rows))
  | _ => tables

theorem get?_record (h : tables.get? (name tablePrefix) = some (.versions rows)) (row : VersionRow) :
    (record tablePrefix row tables).get? (name tablePrefix) = some (.versions (insertBy VersionRow.version row rows)) := by
  rw [record, h]
  exact Tables.get?_set_self _ h

/-- A version without a row gets one. -/
theorem insert_eq_record {row : VersionRow} (h : tables.get? (name tablePrefix) = some (.versions rows))
    (hnew : ∀ r ∈ rows, r.version ≠ row.version) (saved : Option Tables) :
    insert tablePrefix row ⟨tables, saved⟩ = .ok ⟨record tablePrefix row tables, saved⟩ := by
  simp only [insert, record, h]
  exact Database.addRow_eq_ok.2 ⟨hnew, rfl⟩

theorem saved_create {db db' : Database} (h : create tablePrefix db = .ok db') : db'.saved = db.saved := by
  simp only [create] at h
  split at h
  · cases h
  · split at h
    · cases h
    · cases h
      show Database.saved (if db.hasTable (name tablePrefix) then db else _) = _
      split <;> rfl

theorem saved_insert {tablePrefix : Text} {row : VersionRow} {db db' : Database}
    (h : insert tablePrefix row db = .ok db') : db'.saved = db.saved := by
  simp only [insert] at h
  split at h
  · rw [← (Database.addRow_eq_ok.1 h).2]
  · cases h
  · cases h

theorem rows_eq_ok {db : Database} (h : VersionTable.rows tablePrefix db = .ok rows) :
    db.tables.get? (name tablePrefix) = some (.versions rows) := by
  unfold VersionTable.rows rowsFor at h
  split at h
  · rename_i hg
    cases h
    exact hg
  · cases h
  · cases h

end VersionTable

/-! ## The transaction -/

namespace Runner

open PlannedBatch

variable {tablePrefix : Text} {plan : List PlannedBatch} {tables : Tables} {db : Database} (row : VersionRow)

section Lawful

variable [Interpreter] [LawfulInterpreter]

/-- **A script that runs to its end** does in its transaction what it does without one, and its row is added. -/
theorem transact_of_ok {rows : List VersionRow}
    (hcontrol : ∀ sql ∈ texts plan, Uncontrolled sql)
    (hname : ∀ sql ∈ texts plan, Spares (VersionTable.name tablePrefix) sql)
    (hrows : tables.get? (VersionTable.name tablePrefix) = some (.versions rows))
    (hnew : ∀ r ∈ rows, r.version ≠ row.version) (h : (Database.mk tables none).runAll (texts plan) = (.ok (), db)) :
    transact tablePrefix row plan ⟨tables, none⟩ =
      (.ok (texts plan).length, ⟨VersionTable.record tablePrefix row db.tables, none⟩) := by
  have hin := Database.runAll_inside hcontrol tables (some tables)
  have hkept : db.tables.get? (VersionTable.name tablePrefix) = some (.versions rows) := by
    rw [← hrows, ← Database.get?_runAll hname tables, h]
  rw [h] at hin
  have hcarry := carryOut_of_ok 0 hin
  rw [transact, Database.beginTransaction_eq_ok rfl]
  simp only [hcarry, VersionTable.insert_eq_record hkept hnew, Database.commit, Option.isSome_some, if_true,
    Nat.zero_add]

/-- **A script that is refused** leaves the database as it was. -/
theorem transact_of_error (tablePrefix : Text) {fault : Fault}
    (hcontrol : ∀ sql ∈ texts plan, Uncontrolled sql)
    (h : (Database.mk tables none).runAll (texts plan) = (.error fault, db)) :
    ∃ b ∈ plan, transact tablePrefix row plan ⟨tables, none⟩ =
      (.error (.execution row.version b.number fault), ⟨tables, none⟩) := by
  have hin := Database.runAll_inside hcontrol tables (some tables)
  rw [h] at hin
  obtain ⟨b, hb, hcarry⟩ := carryOut_of_error 0 hin
  refine ⟨b, hb, ?_⟩
  rw [transact, Database.beginTransaction_eq_ok rfl]
  simp only [hcarry, Database.rollback]

end Lawful

/-! ## Opening a runner -/

/-- A runner is opened if the name of the version table may begin as the settings say, they describe a splitter, and the
table can be made. -/
theorem connect_eq_ok {config : Config} {r : Runner} : connect config db = .ok r ↔
    isTablePrefix config.tablePrefix = true ∧ ∃ splitter db', config.splitter.splitter = .ok splitter ∧
      VersionTable.create config.tablePrefix db = .ok db' ∧ r = ⟨config, splitter, db'⟩ := by
  unfold connect
  constructor
  · intro h
    split at h
    · cases h
    · rename_i htable
      rw [Bool.not_eq_true, Bool.not_eq_false'] at htable
      obtain ⟨splitter, hsplitter, h⟩ := exists_of_bind_eq_ok h
      obtain ⟨db', hcreate, h⟩ := exists_of_bind_eq_ok h
      cases h
      exact ⟨htable, splitter, db', eq_ok_of_mapError_eq_ok hsplitter, eq_ok_of_mapError_eq_ok hcreate, rfl⟩
  · rintro ⟨htable, splitter, db', hsplitter, hcreate, rfl⟩
    rw [htable, hsplitter, hcreate]
    rfl

theorem saved_connect {config : Config} {r : Runner} (h : connect config db = .ok r) : r.db.saved = db.saved := by
  obtain ⟨_, splitter, db', _, hcreate, rfl⟩ := connect_eq_ok.1 h
  exact VersionTable.saved_create hcreate

section Runs

variable [Interpreter]

/-! ## How a transaction ends -/

theorem snd_carryOut (sent : Nat) (plan : List PlannedBatch) (db : Database) :
    (carryOut sent plan db).2 = (db.runAll (texts plan)).2 := by
  rcases hr : db.runAll (texts plan) with ⟨_ | _, db'⟩
  · obtain ⟨b, _, hc⟩ := carryOut_of_error sent hr
    rw [hc]
  · rw [carryOut_of_ok sent hr]

/-- How the transaction of a script ends if its texts lead to the database `left`. -/
inductive TransactionEnd (tablePrefix : Text) (row : VersionRow) (db left : Database) :
    Except RunFault Nat × Database → Prop
  /-- Another transaction is open. -/
  | nested (hopen : db.saved.isSome = true) :
      TransactionEnd tablePrefix row db left (.error (.database .nestedTransaction), db)
  /-- A text is refused, or the row is. -/
  | undone {fault : RunFault} (hidle : db.saved = none) : TransactionEnd tablePrefix row db left (.error fault, left.rollback)
  /-- A text has ended the transaction, so the row is there for good before the end is refused. -/
  | ended {db' : Database} (hidle : db.saved = none) (hinsert : VersionTable.insert tablePrefix row left = .ok db')
      (hclosed : left.saved = none) : TransactionEnd tablePrefix row db left (.error (.database .noTransaction), db')
  /-- All that was done is kept. -/
  | committed {db' : Database} {sent : Nat} (hidle : db.saved = none)
      (hinsert : VersionTable.insert tablePrefix row left = .ok db') (hopen : left.saved.isSome = true) :
      TransactionEnd tablePrefix row db left (.ok sent, ⟨db'.tables, none⟩)

/-- **A transaction** ends in one of these ways, whatever its texts hold. -/
theorem transact_ends (tablePrefix : Text) (plan : List PlannedBatch) (db : Database) :
    TransactionEnd tablePrefix row db (Database.runAll ⟨db.tables, some db.tables⟩ (texts plan)).2
      (transact tablePrefix row plan db) := by
  rw [transact, ← snd_carryOut 0]
  cases hs : db.saved with
  | some tables =>
    have hopen : db.saved.isSome = true := by rw [hs, Option.isSome_some]
    rw [Database.beginTransaction, if_pos hopen]
    exact .nested hopen
  | none =>
    rw [Database.beginTransaction_eq_ok hs]
    dsimp only
    rcases carryOut 0 plan ⟨db.tables, some db.tables⟩ with ⟨⟨batch, fault⟩ | sent, left⟩
    · exact .undone hs
    · dsimp only
      cases hinsert : VersionTable.insert tablePrefix row left with
      | error fault => exact .undone hs
      | ok db' =>
        dsimp only
        rw [Database.commit, VersionTable.saved_insert hinsert]
        cases hl : left.saved with
        | none => exact .ended hs hinsert hl
        | some tables => exact .committed hs hinsert (by rw [hl, Option.isSome_some])

/-! ## What each migration keeps, a run keeps -/

section Kept

variable {config : Config} {splitter : Splitter} {d : Disk} {m : Migration} {script sum : Text} {events : List Event}

/-- A migration whose script can be read and split is one transaction. -/
theorem applyOne_eq_transact (hread : m.readWithChecksum d = .ok (script, sum))
    (hsplit : splitter.splitText config.splitter.stripComments script = .ok events) (now : Text) (db : Database) :
    applyOne config splitter d now m db =
      transact config.tablePrefix ⟨m.version, m.description, sum, now⟩ (ofEvents events) db := by
  rw [applyOne, hread]
  simp only [hsplit]

/-- **A migration** fails before it comes to the database, or it is one transaction. -/
theorem applyOne_eq_error_or_transact (config : Config) (splitter : Splitter) (d : Disk) (now : Text) (m : Migration)
    (db : Database) :
    (∃ fault, applyOne config splitter d now m db = (.error fault, db)) ∨
      ∃ script sum events, m.readWithChecksum d = .ok (script, sum) ∧
        splitter.splitText config.splitter.stripComments script = .ok events ∧
        applyOne config splitter d now m db =
          transact config.tablePrefix ⟨m.version, m.description, sum, now⟩ (ofEvents events) db := by
  cases hread : m.readWithChecksum d with
  | error fault => exact Or.inl ⟨_, by rw [applyOne, hread]⟩
  | ok read =>
    cases hsplit : splitter.splitText config.splitter.stripComments read.1 with
    | error fault =>
      refine Or.inl ⟨.splitting m.version fault, ?_⟩
      rw [applyOne, hread]
      simp only [hsplit]
    | ok events => exact Or.inr ⟨read.1, read.2, events, rfl, hsplit, applyOne_eq_transact hread hsplit now db⟩

variable (P : Database → Prop) {now : Text}

/-- **Migrations one after the other** keep what each of them keeps, wherever they stop. -/
theorem applyAll_keeps (recorded : List Int) : ∀ {ms : List Migration} (report : ApplyReport) {db : Database},
    (∀ m ∈ ms, ∀ db, P db → P (applyOne config splitter d now m db).2) → P db →
      P (applyAll config splitter d now recorded report ms db).2
  | [], _, _, _, h => h
  | m :: ms, report, db, hone, h => by
    obtain ⟨hm, hms⟩ := List.forall_mem_cons.1 hone
    rw [applyAll]
    split
    · split
      · exact h
      · exact applyAll_keeps recorded report hms h
    · have hnext := hm db h
      rcases ha : applyOne config splitter d now m db with ⟨_ | _, db'⟩
      · rw [ha] at hnext
        exact hnext
      · rw [ha] at hnext
        exact applyAll_keeps recorded _ hms hnext

variable {r : Runner}

theorem apply_keeps {ms : List Migration} (hone : ∀ m ∈ ms, ∀ db, P db → P (applyOne r.config r.splitter d now m db).2)
    (h : P r.db) : P (r.apply d now ms).2.db := by
  unfold apply
  split
  · exact h
  · exact applyAll_keeps P _ _ hone h

/-- What is true of the database stays true in a run if each migration that is loaded keeps it. -/
theorem up_keeps
    (hone : ∀ ms, r.load d = .ok ms → ∀ m ∈ ms, ∀ db, P db → P (applyOne r.config r.splitter d now m db).2)
    (h : P r.db) : P (r.up d now).2.db := by
  unfold up
  split
  · exact h
  · rename_i ms hload
    exact apply_keeps P (hone ms hload) h

theorem upTo_keeps
    (hone : ∀ ms, r.load d = .ok ms → ∀ m ∈ ms, ∀ db, P db → P (applyOne r.config r.splitter d now m db).2)
    (h : P r.db) (target : Int) : P (r.upTo d now target).2.db := by
  unfold upTo
  split
  · exact h
  · rename_i ms hload
    split
    · exact apply_keeps P (fun m hm => hone ms hload m (List.mem_filter.1 hm).1) h
    · exact h

end Kept

/-- A run changes nothing but the database. -/
theorem apply_eq (r : Runner) (d : Disk) (now : Text) (ms : List Migration) :
    (r.apply d now ms).2 = { r with db := (r.apply d now ms).2.db } := by
  unfold apply
  split <;> rfl

theorem up_eq (r : Runner) (d : Disk) (now : Text) : (r.up d now).2 = { r with db := (r.up d now).2.db } := by
  unfold up
  split
  · rfl
  · exact apply_eq r d now _

theorem upTo_eq (r : Runner) (d : Disk) (now : Text) (target : Int) :
    (r.upTo d now target).2 = { r with db := (r.upTo d now target).2.db } := by
  unfold upTo
  split
  · rfl
  · split
    · exact apply_eq r d now _
    · rfl

/-! ## Open transactions -/

/-- Whatever a script does, the transaction around it is over afterwards. -/
theorem saved_transact (tablePrefix : Text) (plan : List PlannedBatch) (h : db.saved = none) :
    (transact tablePrefix row plan db).2.saved = none := by
  have hend := transact_ends row tablePrefix plan db
  generalize transact tablePrefix row plan db = final at hend ⊢
  cases hend with
  | nested => exact h
  | undone => exact Database.saved_rollback _
  | ended _ hinsert hclosed => exact (VersionTable.saved_insert hinsert).trans hclosed
  | committed => rfl

variable {r : Runner} (d : Disk) (now : Text)

theorem saved_applyOne (config : Config) (splitter : Splitter) (m : Migration) (h : db.saved = none) :
    (applyOne config splitter d now m db).2.saved = none := by
  rcases applyOne_eq_error_or_transact config splitter d now m db with ⟨_, ha⟩ | ⟨_, _, _, _, _, ha⟩ <;> rw [ha]
  · exact h
  · exact saved_transact _ _ _ h

/-- No run leaves a transaction open, whatever the scripts hold. -/
theorem saved_up (h : r.db.saved = none) : (r.up d now).2.db.saved = none :=
  up_keeps (fun db => db.saved = none) (fun _ _ m _ _ => saved_applyOne d now _ _ m) h

theorem saved_upTo (target : Int) (h : r.db.saved = none) : (r.upTo d now target).2.db.saved = none :=
  upTo_keeps (fun db => db.saved = none) (fun _ _ m _ _ => saved_applyOne d now _ _ m) h target

/-- A script cannot be applied while a transaction is open: there is none inside another. -/
theorem applyOne_of_open (config : Config) (splitter : Splitter) (m : Migration) (h : db.saved.isSome = true) :
    (applyOne config splitter d now m db).2 = db := by
  rcases applyOne_eq_error_or_transact config splitter d now m db with ⟨_, ha⟩ | ⟨_, _, _, _, _, ha⟩ <;> rw [ha]
  rw [transact, Database.beginTransaction, if_pos h]

/-- Runs inside a transaction that is open already change nothing. -/
theorem up_of_open (h : r.db.saved.isSome = true) : (r.up d now).2 = r := by
  have hdb : (r.up d now).2.db = r.db := up_keeps (· = r.db) (fun _ _ m _ db hdb => by
    rw [hdb, applyOne_of_open d now _ _ m h]) rfl
  rw [up_eq, hdb]

theorem upTo_of_open (target : Int) (h : r.db.saved.isSome = true) : (r.upTo d now target).2 = r := by
  have hdb : (r.upTo d now target).2.db = r.db := upTo_keeps (· = r.db) (fun _ _ m _ db hdb => by
    rw [hdb, applyOne_of_open d now _ _ m h]) rfl target
  rw [upTo_eq, hdb]

end Runs

/-! ## A single script -/

/-- A disk that holds one script. -/
def oneScript (script : Text) : Disk where
  root := .folder [(.of "migrations", .folder [(.of "1_a.sql", .file script.utf8)])]

/-- The migration of the script. -/
def onlyMigration : Migration := ⟨1, .of "a", .of "migrations/1_a.sql", [], []⟩

theorem readWithChecksum_oneScript (script : Text) :
    onlyMigration.readWithChecksum (oneScript script) = .ok (script, Sha256.hexDigest script.utf8) := by
  have hbytes : (oneScript script).read onlyMigration.path = .ok script.utf8 := rfl
  simp only [Migration.readWithChecksum, hbytes, bind, Except.bind, Text.ofUtf8_eq_ok.2 rfl]

end Runner

end BatchMigrate
