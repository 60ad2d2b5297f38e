import BatchMigrate.Proofs.Faults
import BatchMigrate.Proofs.Order
import BatchMigrate.Proofs.Sql.Laws
import BatchMigrate.Sql.Interpreter

/-!
# The interpreter keeps the laws

`Statement.Effect` says once what a statement can do to the tables; that it leaves the tables alone that it does not name
and keeps the primary key are cases of it (`Statement.Effect.get?_eq`, `Statement.Effect.keyed`). A statement other than
`begin` and `commit` neither looks at the open transaction nor changes it (`Database.exec_saved`). All of this goes on
from a statement to the texts that hold only such statements (`AllStatements`, `Database.runClauses_invariant`).
-/

namespace BatchMigrate.Sql

/-! ## Statements -/

namespace Statement

/-- The table that a statement names. -/
def table? : Statement → Option Text
  | .createTable name _ => some name
  | .dropTable name _ => some name
  | .insert name _ _ => some name
  | .clear name => some name
  | .select _ => none
  | .beginTransaction => none
  | .commit => none

/-- The statement names the table. -/
def names (table : Text) (st : Statement) : Bool := st.table?.any (·.eqIgnoringAsciiCase table)

/-- The statement begins or ends a transaction. -/
def controlsTransaction : Statement → Bool
  | .beginTransaction => true
  | .commit => true
  | _ => false

/-- The statement can write rows of the version table of that name, or take some out of it. -/
def edits (table : Text) : Statement → Bool
  | .insert name _ (_ :: _) => name.eqIgnoringAsciiCase table
  | .clear name => name.eqIgnoringAsciiCase table
  | _ => false

/-- What a statement can do to the tables. -/
inductive Effect : Statement → Tables → Tables → Prop
  | none (st : Statement) (tables : Tables) : Effect st tables tables
  | made {name : Text} {ifNotExists : Bool} {tables : Tables} :
      Effect (.createTable name ifNotExists) tables (tables.add name (.numbers []))
  | dropped {name : Text} {ifExists : Bool} {tables : Tables} :
      Effect (.dropTable name ifExists) tables (tables.erase name)
  | appended {name : Text} {value : Int} {rows : List Int} {tables : Tables} :
      Effect (.insert name value []) tables (tables.set name (.numbers rows))
  /-- A row of a version table is written, whose version is a new one. -/
  | recorded {name : Text} {rows : List VersionRow} {row : VersionRow} {tables : Tables}
      (hrows : tables.get? name = some (.versions rows)) (hnew : ∀ r ∈ rows, r.version ≠ row.version) :
      Effect (.insert name row.version [row.description, row.checksum, row.appliedOn]) tables
        (tables.set name (.versions (insertBy VersionRow.version row rows)))
  | cleared {name : Text} {tables : Tables} : Effect (.clear name) tables (tables.modify name Table.clear)

namespace Effect

variable {st : Statement} {tables tables' : Tables} {table : Text}

/-- **Frame.** A statement leaves the tables that it does not name. -/
theorem get?_eq (h : Effect st tables tables') (hn : st.names table = false) :
    tables'.get? table = tables.get? table := by
  cases h with
  | none => rfl
  | made => exact Tables.get?_add_of_ne hn _ _
  | dropped => exact Tables.get?_erase_of_ne hn _
  | appended => exact Tables.get?_set_of_ne hn _ _
  | recorded => exact Tables.get?_set_of_ne hn _ _
  | cleared => exact Tables.get?_modify_of_ne hn _ _

/-- **Primary key.** -/
theorem keyed (h : Effect st tables tables') (hkeyed : tables.Keyed table) : tables'.Keyed table := by
  intro rows hrows
  cases h with
  | none => exact hkeyed rows hrows
  | made => exact hkeyed rows ((Tables.get?_add_cases hrows).resolve_right (by simp))
  | dropped => exact hkeyed rows (Tables.get?_of_get?_erase hrows)
  | appended =>
    rcases Tables.get?_modify_cases hrows with hrows | ⟨_, _, _, hnew⟩
    · exact hkeyed rows hrows
    · cases hnew
  | @recorded name old row _ hold hfresh =>
    rcases Tables.get?_modify_cases hrows with hrows | ⟨hname, _, _, hnew⟩
    · exact hkeyed rows hrows
    · cases hnew
      exact nodup_insertBy (hkeyed old ((Tables.get?_alike hname tables).trans hold)) hfresh
  | cleared =>
    rcases Tables.get?_modify_cases hrows with hrows | ⟨_, old, _, hnew⟩
    · exact hkeyed rows hrows
    · cases old <;> cases hnew
      exact List.nodup_nil

/-- **Only some statements write rows.** A version table that is there after any other one was there before it, with the
same rows. -/
theorem versions (h : Effect st tables tables') (he : st.edits table = false) {rows : List VersionRow}
    (hrows : tables'.get? table = some (.versions rows)) : tables.get? table = some (.versions rows) := by
  cases h with
  | none => exact hrows
  | made => exact (Tables.get?_add_cases hrows).resolve_right (by simp)
  | dropped => exact Tables.get?_of_get?_erase hrows
  | appended => exact (Tables.get?_modify_cases hrows).resolve_right (by simp)
  | recorded => rwa [Tables.get?_set_of_ne he] at hrows
  | cleared => rwa [Tables.get?_modify_of_ne he] at hrows

end Effect

end Statement

/-! ## Statements of a text -/

/-- A statement that makes a table is the same whichever tables there are, if it can be read. -/
theorem Clause.create_of_ok {c : Clause} {taken : Text → Bool} {ts : List Token} {st : Statement}
    (h : c.create taken ts = .ok st) : c.create (fun _ => false) ts = .ok st := by
  unfold create at h ⊢
  cases hh : (createHead ts).mapError c.misfit with
  | error fault =>
    rw [hh] at h
    cases h
  | ok head =>
    obtain ⟨⟨ifNotExists, name⟩, ts⟩ := head
    rw [hh] at h
    simp only [bind, Except.bind, Bool.false_and, Bool.false_eq_true, if_false] at h ⊢
    split at h
    · rename_i hbracket
      rw [if_pos hbracket]
      split at h
      · cases h
      · rename_i hreserved
        rw [if_neg hreserved]
        split at h
        · cases h
        · exact h
    · rename_i hbracket
      rw [if_neg hbracket]
      exact h

theorem Clause.statement_of_ok {c : Clause} {taken : Text → Bool} {st : Statement} (h : c.statement taken = .ok st) :
    c.statement (fun _ => false) = .ok st := by
  unfold statement at h ⊢
  split at h
  · cases h
  · rename_i t rest _
    by_cases hcreate : (t.kind = .word && Text.lowerAscii t.text = .of "create") = true
    · rw [if_pos hcreate] at h ⊢
      exact create_of_ok h
    · rw [if_neg hcreate] at h ⊢
      exact h

/-- All statements of a text satisfy `p`, whichever tables there are when they are read. -/
def AllStatements (p : Statement → Prop) (sql : Text) : Prop :=
  ∀ c ∈ clauses sql, ∀ taken st, c.statement taken = .ok st → p st

/-- It is enough to read the statements as if there were no table. -/
theorem allStatements_iff {p : Statement → Prop} {sql : Text} :
    AllStatements p sql ↔ ∀ c ∈ clauses sql, ∀ st ∈ (c.statement fun _ => false).toOption, p st := by
  constructor
  · intro h c hc st hst
    cases hs : c.statement fun _ => false with
    | error fault =>
      rw [hs] at hst
      cases hst
    | ok first =>
      rw [hs] at hst
      cases hst
      exact h c hc _ st hs
  · intro h c hc taken st hst
    exact h c hc st (by rw [Clause.statement_of_ok hst]; rfl)

instance (p : Statement → Prop) [DecidablePred p] (sql : Text) : Decidable (AllStatements p sql) :=
  decidable_of_iff _ allStatements_iff.symm

theorem AllStatements.mono {p q : Statement → Prop} {sql : Text} (h : AllStatements p sql) (hpq : ∀ st, p st → q st) :
    AllStatements q sql :=
  fun c hc taken st hst => hpq st (h c hc taken st hst)

namespace Database

variable {db db' : Database} {st : Statement}

/-! ## One statement -/

theorem exec_effect (h : db.exec st = .ok db') : st.Effect db.tables db'.tables := by
  cases st with
  | createTable name ifNotExists =>
    cases h
    split
    · exact .none _ _
    · exact .made
  | dropTable name ifExists =>
    simp only [exec] at h
    split at h
    · cases h
      exact .dropped
    · split at h
      · cases h
        exact .none _ _
      · cases h
  | insert name value texts =>
    simp only [exec] at h
    split at h
    · cases h
      exact .appended
    · rename_i rows description checksum appliedOn hrows
      split at h
      · obtain ⟨hnew, rfl⟩ := addRow_eq_ok.1 h
        exact @Statement.Effect.recorded name rows ⟨value, description, checksum, appliedOn⟩ _ hrows hnew
      · cases h
    · cases h
    · cases h
    · cases h
  | clear name =>
    simp only [exec] at h
    split at h
    · cases h
      exact .cleared
    · cases h
  | select value =>
    cases h
    exact .none _ _
  | beginTransaction =>
    rw [(eq_of_beginTransaction h).2]
    exact .none _ _
  | commit =>
    rw [eq_of_commit h]
    exact .none _ _

/-- A statement other than `begin` and `commit` does the same inside a transaction and outside, and leaves the
transaction as it is. -/
theorem exec_saved (hc : st.controlsTransaction = false) (saved : Option Tables) (db : Database) :
    ({ db with saved } : Database).exec st = (db.exec st).map fun db => { db with saved } := by
  obtain ⟨tables, old⟩ := db
  have htaken : (mk tables saved).hasTable = (mk tables old).hasTable := rfl
  have hrow : ∀ name rows row, (mk tables saved).addRow name rows row =
      ((mk tables old).addRow name rows row).map fun db => { db with saved } := by
    intro name rows row
    rw [addRow, addRow, apply_ite (Except.map _)]
    rfl
  cases st with
  | createTable name ifNotExists =>
    rw [exec, exec, htaken]
    split <;> rfl
  | dropTable name ifExists =>
    rw [exec, exec, htaken]
    split
    · rfl
    · split <;> rfl
  | insert name value texts =>
    simp only [exec, hrow]
    split
    · rfl
    · split <;> rfl
    · rfl
    · rfl
    · rfl
  | clear name =>
    rw [exec, exec, htaken]
    split <;> rfl
  | select value => rfl
  | beginTransaction => cases hc
  | commit => cases hc

theorem saved_exec (hc : st.controlsTransaction = false) (h : db.exec st = .ok db') : db'.saved = db.saved := by
  have hsaved := exec_saved hc db.saved db
  obtain ⟨db₁, _, rfl⟩ := exists_of_map_eq_ok (hsaved.symm.trans h)
  rfl

/-- What a statement leaves true of the tables is left true of those that a rollback brings back, too. -/
theorem Throughout.exec {P : Tables → Prop} (hd : db.Throughout P) (h : db.exec st = .ok db') (hP : P db'.tables) :
    db'.Throughout P := by
  refine ⟨hP, fun tables hs => ?_⟩
  cases st with
  | beginTransaction =>
    rw [(eq_of_beginTransaction h).2] at hs
    cases hs
    exact hd.1
  | commit =>
    rw [eq_of_commit h] at hs
    cases hs
  | _ => exact hd.2 tables (by rwa [saved_exec rfl h] at hs)

/-- What the other tables hold makes no difference to a statement. -/
theorem exec_modify {name : Text} (hn : st.names name = false) (f : Table → Table) (db : Database) :
    (db.modify name f).exec st = (db.exec st).map (modify name f) := by
  cases st with
  | createTable other ifNotExists =>
    have hne := (Text.eqIgnoringAsciiCase_comm name other).trans hn
    rw [exec, exec, hasTable_modify]
    split
    · rfl
    · simp only [Except.map, modify, Tables.modify_add_of_ne hne]
  | dropTable other ifExists =>
    rw [exec, exec, hasTable_modify]
    split
    · simp only [Except.map, modify, Tables.modify_erase]
    · split <;> rfl
  | insert other value texts =>
    have hne := (Text.eqIgnoringAsciiCase_comm name other).trans hn
    have hget : (db.modify name f).tables.get? other = db.tables.get? other := Tables.get?_modify_of_ne hne f db.tables
    simp only [exec, hget]
    split
    · simp only [Except.map, modify, Tables.set, Tables.modify_modify_of_ne hne]
    · split
      · exact addRow_modify_of_ne name f db hne _ _
      · rfl
    · rfl
    · rfl
    · rfl
  | clear other =>
    have hne := (Text.eqIgnoringAsciiCase_comm name other).trans hn
    rw [exec, exec, hasTable_modify]
    split
    · simp only [Except.map, modify, Tables.modify_modify_of_ne hne]
    · rfl
  | select value => rfl
  | beginTransaction => exact beginTransaction_modify name f db
  | commit => exact commit_modify name f db

/-! ## Clauses -/

/-- **One clause.** It is read as a statement and run, or it is refused and changes nothing. -/
theorem runClauses_cons (db : Database) (c : Clause) (cs : List Clause) :
    (∃ st db', c.statement db.hasTable = .ok st ∧ db.exec st = .ok db' ∧ db.runClauses (c :: cs) = db'.runClauses cs) ∨
    (∃ fault, (c.statement db.hasTable >>= db.exec) = .error fault ∧ db.runClauses (c :: cs) = (.error fault, db)) := by
  cases hs : c.statement db.hasTable with
  | error fault => exact Or.inr ⟨fault, rfl, by rw [runClauses, hs]; rfl⟩
  | ok st =>
    have hb : (Except.ok st >>= db.exec) = db.exec st := rfl
    cases he : db.exec st with
    | error fault => exact Or.inr ⟨fault, by rw [hb, he], by rw [runClauses, hs, hb, he]⟩
    | ok db' => exact Or.inl ⟨st, db', rfl, he, by rw [runClauses, hs, hb, he]⟩

/-- **An invariant of statements** is one of clauses that are such statements, even if one of them is refused. -/
theorem runClauses_invariant {I : Database → Prop} {p : Statement → Prop}
    (hstep : ∀ {db db' : Database} {st}, p st → db.exec st = .ok db' → I db → I db') :
    ∀ {cs : List Clause} {db : Database}, (∀ c ∈ cs, ∀ taken st, c.statement taken = .ok st → p st) → I db →
      I (db.runClauses cs).2
  | [], _, _, hI => hI
  | c :: cs, db, h, hI => by
    obtain ⟨hc, hcs⟩ := List.forall_mem_cons.1 h
    rcases runClauses_cons db c cs with ⟨st, db', hs, he, hr⟩ | ⟨fault, _, hr⟩
    · rw [hr]
      exact runClauses_invariant hstep hcs (hstep (hc _ st hs) he hI)
    · rw [hr]
      exact hI

/-- If a change of databases makes no difference to statements, it makes none to clauses that are such statements. -/
theorem runClauses_map {g : Database → Database} {p : Statement → Prop}
    (htaken : ∀ db : Database, (g db).hasTable = db.hasTable)
    (hstep : ∀ {st}, p st → ∀ db : Database, (g db).exec st = (db.exec st).map g) :
    ∀ {cs : List Clause}, (∀ c ∈ cs, ∀ taken st, c.statement taken = .ok st → p st) → ∀ db : Database,
      (g db).runClauses cs = Prod.map id g (db.runClauses cs)
  | [], _, _ => rfl
  | c :: cs, h, db => by
    obtain ⟨hc, hcs⟩ := List.forall_mem_cons.1 h
    have hone : (c.statement (g db).hasTable >>= (g db).exec) = (c.statement db.hasTable >>= db.exec).map g := by
      rw [htaken]
      cases hs : c.statement db.hasTable with
      | error fault => rfl
      | ok st => exact hstep (hc _ st hs) db
    rw [runClauses, runClauses, hone]
    cases c.statement db.hasTable >>= db.exec with
    | error fault => rfl
    | ok db' => exact runClauses_map htaken hstep hcs db'

/-! ## Texts -/

/-- **An invariant of statements** is one of the text that holds only such statements. -/
theorem run_invariant {I : Database → Prop} {p : Statement → Prop}
    (hstep : ∀ {db db' : Database} {st}, p st → db.exec st = .ok db' → I db → I db') {sql : Text}
    (h : AllStatements p sql) (hI : I db) : I (db.run sql).2 := runClauses_invariant hstep h hI

/-- What no statement of a text spoils stays true, also after a rollback. -/
theorem Throughout.run {P : Tables → Prop} {p : Statement → Prop}
    (hstep : ∀ {st tables tables'}, p st → st.Effect tables tables' → P tables → P tables') {sql : Text}
    (h : AllStatements p sql) (hd : db.Throughout P) : (db.run sql).2.Throughout P :=
  run_invariant (I := (·.Throughout P)) (fun hp he hd => hd.exec he (hstep hp (exec_effect he) hd.1)) h hd

end Database

theorem allStatements_true (sql : Text) : AllStatements (fun _ => True) sql := fun _ _ _ _ _ => trivial

/-- **The interpreter keeps the laws.** -/
instance : LawfulInterpreter where
  Spares table := AllStatements fun st => st.names table = false
  Uncontrolled := AllStatements fun st => st.controlsTransaction = false
  frame h _ _ hd := hd.run (fun hn he hP => by rwa [he.get?_eq hn]) h
  blind h f := Database.runClauses_map (Database.hasTable_modify _ f) (fun hn db => Database.exec_modify hn f db) h
  inside h tables saved := Database.runClauses_map (g := ({ · with saved })) (fun _ => rfl)
    (fun hc db => Database.exec_saved hc saved db) h ⟨tables, none⟩
  keyed sql _ hd := hd.run (fun _ he hkeyed => he.keyed hkeyed) (allStatements_true sql)

instance (table sql : Text) : Decidable (Spares table sql) := inferInstanceAs (Decidable (AllStatements _ sql))

instance (sql : Text) : Decidable (Uncontrolled sql) := inferInstanceAs (Decidable (AllStatements _ sql))

end BatchMigrate.Sql
