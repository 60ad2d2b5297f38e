import BatchMigrate.Proofs.Runner.Atomic
import BatchMigrate.Proofs.Script.Keyword
import BatchMigrate.Proofs.Script.Reprint

/-!
# Counts and copies

A separator with a count stands for as many copies of the lines before it, each with the separator after it. The lines of a
batch are scanned alike in every copy, because a directive begins the script anew (`Splitter.Uncut.lineItems`). So the script
with the count holds one batch and a directive, and the one with the copies holds the same batch and a directive each time
(`Splitter.Uncut.splitText_counted`, `Splitter.Uncut.splitText_copied`). Their plans send the same texts, one after the
other, and the two migrations come to the same end (`Runner.apply_repeat`): they differ in the number of the batch that a
fault blames, and in the checksum that is recorded.
-/

namespace BatchMigrate

open Sql

/-! ## Lines that make one batch -/

namespace Splitter

variable {sp : Splitter} {stripComments : Bool} {body : List Text} {script line : Text} {d : Directive} {n : Nat}

/-- Lines that make one batch: scanned from the start, none is a directive, and no block comment is open after them. -/
structure Uncut (sp : Splitter) (stripComments : Bool) (body : List Text) : Prop where
  content : ∀ x ∈ sp.scan (.start stripComments) body, x.outcome = .content
  closed : (sp.scanAll (.start stripComments) body).lex.inBlock = false

/-- The batch that the lines make if more lines follow. -/
def collected (sp : Splitter) (stripComments : Bool) (body : List Text) : Text :=
  (sp.feed (.start stripComments) body).2.pending

/-- Lines without a directive close no batch, whether or not more lines follow them. -/
theorem feed_of_content : ∀ {lines : List Text} {s s' : ScanState}, Abreast s s' →
    (∀ x ∈ sp.scan s lines, x.outcome = .content) → (sp.feed s' lines).1 = []
  | [], _, _, _, _ => rfl
  | line :: rest, s, s', hs, h => by
    cases hd : s.directive? sp.separator line with
    | some d =>
      rw [scan_of_directive hd] at h
      cases h _ List.mem_cons_self
    | none =>
      rw [scan_of_content hd] at h
      have hd' : s'.directive? sp.separator line = none := (hs.directive?_eq sp.separator line).trans hd
      simp only [feed, scanLine_of_content hd']
      have habreast : Abreast (s.absorb sp.terminator line rest.isEmpty) (s'.absorb sp.terminator line false) :=
        .trans ⟨rfl, rfl, rfl⟩ ((hs.advance line).trans ⟨rfl, rfl, rfl⟩)
      exact feed_of_content habreast fun x hx => h x (List.mem_cons_of_mem _ hx)

/-- Between two lines no comment up to the end of a line is open. -/
theorem lex_scanAll_ne : ∀ (lines : List Text) {s : ScanState}, s.lex ≠ .lineComment →
    (sp.scanAll s lines).lex ≠ .lineComment
  | [], _, h => h
  | line :: rest, s, _ => lex_scanAll_ne rest (s := (sp.scanLine line false s).2) (by
      rw [← (abreast_scanLine s line false).2.1]
      exact Lex.atLineEnd_ne_lineComment _)

namespace Uncut

variable (h : sp.Uncut stripComments body)

include h

/-- A line without comments after such lines is a directive if it is recognized. -/
theorem directive?_eq (hline : line.Unmarked) :
    (sp.scanAll (.start stripComments) body).directive? sp.separator line = sp.separator.recognize line := by
  refine ScanState.directive?_of_unmarked ?_ hline
  have hne : (sp.scanAll (.start stripComments) body).lex ≠ .lineComment := lex_scanAll_ne body nofun
  have hclosed := h.closed
  cases hl : (sp.scanAll (.start stripComments) body).lex with
  | plain => rfl
  | lineComment => exact absurd hl hne
  | blockComment k => rw [hl] at hclosed; cases hclosed

/-- **Such lines with a directive after them** are one batch and the directive, and what follows is scanned as at the
start. -/
theorem lineItems (hline : line.Unmarked) (hd : sp.separator.recognize line = some d) {after : List Text}
    {events : List Event} (hafter : sp.lineItems (.start stripComments) after = events.map .ok) :
    sp.lineItems (.start stripComments) (body ++ line :: after) =
      (.batch (sp.collected stripComments body) :: .directive d :: events).map .ok := by
  have hnone : (sp.feed (.start stripComments) body).1 = [] := feed_of_content ⟨rfl, rfl, rfl⟩ h.content
  have hstrip : (ScanState.start stripComments).stripComments = stripComments := rfl
  rw [lineItems_append_directive ((h.directive?_eq hline).trans hd), hnone, hstrip, hafter, List.map_map]
  rfl

/-- The script with the count. -/
theorem splitText_counted (hk : sp.separator.keyword.Unmarked) (hn : n ≤ maxRepeat)
    (hlines : Text.lines '\n' script = body ++ [sp.separator.keyword ++ ' ' :: Text.ofNat n]) :
    sp.splitText stripComments script =
      .ok [.batch (sp.collected stripComments body), .directive ⟨sp.separator.keyword ++ ' ' :: Text.ofNat n, some n⟩] := by
  rw [splitText_eq_ok, hlines]
  exact h.lineItems (hk.append_blank (Text.unmarked_ofNat n)) (sp.separator.recognize_count hn)
    (show sp.lineItems (.start stripComments) [] = ([] : List Event).map .ok from rfl)

/-- The script with the copies. -/
theorem splitText_copied (hk : sp.separator.keyword.Unmarked)
    (hlines : Text.lines '\n' script = (List.replicate n (body ++ [sp.separator.keyword])).flatten) :
    sp.splitText stripComments script = .ok (List.replicate n
      [.batch (sp.collected stripComments body), .directive ⟨sp.separator.keyword, none⟩]).flatten := by
  rw [splitText_eq_ok, hlines]
  clear hlines
  induction n with
  | zero => rfl
  | succ n ih =>
    rw [List.replicate_succ, List.flatten_cons, List.append_assoc, List.singleton_append,
      h.lineItems hk sp.separator.recognize_keyword ih]
    rfl

end Uncut

end Splitter

/-! ## What is sent -/

namespace PlannedBatch

theorem texts_counted (sql : Text) (d : Directive) : texts (ofEvents [.batch sql, .directive d]) =
    if sql.isBlank then [] else List.replicate d.repeatCount sql := by
  have hnil : texts (ofEventsFrom (0 + 1) []) = [] := rfl
  rw [ofEvents, texts_batch_directive, hnil, List.append_nil, sends]
  cases sql.isBlank <;> rfl

/-- Copies of a batch are sent as one batch that is sent as often. -/
theorem texts_copied (sql token : Text) : ∀ n k : Nat,
    texts (ofEventsFrom k (List.replicate n [.batch sql, .directive ⟨token, none⟩]).flatten) =
      if sql.isBlank then [] else List.replicate n sql
  | 0, _ => by cases sql.isBlank <;> rfl
  | n + 1, k => by
    rw [List.replicate_succ, List.flatten_cons, List.cons_append, List.cons_append, List.nil_append,
      texts_batch_directive, texts_copied sql token n (k + 1), sends]
    cases sql.isBlank <;> rfl

end PlannedBatch

/-! ## The same end -/

/-- The fault of the database that a run ends with. -/
def RunFault.sqlFault? : RunFault → Option Fault
  | .database fault => some fault
  | .execution _ _ fault => some fault
  | _ => none

/-- Two databases have the same tables, but for the version table. -/
def SameUserTables (tablePrefix : Text) (db db' : Database) : Prop :=
  ∀ name : Text, (VersionTable.name tablePrefix).eqIgnoringAsciiCase name = false →
    db.tables.get? name = db'.tables.get? name

/-- Two runs come to the same end: both succeed with the same result, or both fail with the same fault of the database, and
they leave the same tables of the user. -/
inductive SameEnd (tablePrefix : Text) {α : Type} :
    Except RunFault α × Database → Except RunFault α × Database → Prop
  | ok (a : α) {db db' : Database} (htables : SameUserTables tablePrefix db db') :
      SameEnd tablePrefix (.ok a, db) (.ok a, db')
  | error {sqlFault : Fault} {fault fault' : RunFault} {db db' : Database} (h : fault.sqlFault? = some sqlFault)
      (h' : fault'.sqlFault? = some sqlFault) (htables : SameUserTables tablePrefix db db') :
      SameEnd tablePrefix (.error fault, db) (.error fault', db')

theorem SameUserTables.refl (tablePrefix : Text) (db : Database) : SameUserTables tablePrefix db db := fun _ _ => rfl

/-- Whether a row can be added depends on its version alone. -/
theorem VersionTable.insert_cases {row row' : VersionRow} (h : row.version = row'.version) (tablePrefix : Text)
    (db : Database) :
    (∃ fault, insert tablePrefix row db = .error fault ∧ insert tablePrefix row' db = .error fault) ∨
    ∃ left left', insert tablePrefix row db = .ok left ∧ insert tablePrefix row' db = .ok left' ∧
      left.saved = left'.saved ∧ SameUserTables tablePrefix left left' := by
  simp only [insert, Database.addRow, h]
  cases db.tables.get? (name tablePrefix) with
  | none => exact .inl ⟨_, rfl, rfl⟩
  | some table =>
    cases table with
    | numbers rows => exact .inl ⟨_, rfl, rfl⟩
    | versions rows =>
      dsimp only
      split
      · exact .inl ⟨_, rfl, rfl⟩
      · refine .inr ⟨_, _, rfl, rfl, rfl, fun other hne => ?_⟩
        exact (Tables.get?_set_of_ne hne _ _).trans (Tables.get?_set_of_ne hne _ _).symm

namespace Runner

open PlannedBatch

section Repeat

variable [Interpreter]

/-- Plans that send the same texts are carried out alike. -/
theorem carryOut_cases {plan plan' : List PlannedBatch} (h : texts plan = texts plan') (db : Database) :
    (∃ sent left, carryOut 0 plan db = (.ok sent, left) ∧ carryOut 0 plan' db = (.ok sent, left)) ∨
    ∃ batch batch' fault left,
      carryOut 0 plan db = (.error (batch, fault), left) ∧ carryOut 0 plan' db = (.error (batch', fault), left) := by
  rcases hr : db.runAll (texts plan) with ⟨fault | _, left⟩
  · obtain ⟨b, -, hc⟩ := carryOut_of_error 0 hr
    obtain ⟨b', -, hc'⟩ := carryOut_of_error 0 (h ▸ hr)
    exact .inr ⟨_, _, fault, left, hc, hc'⟩
  · have hc := carryOut_of_ok 0 hr
    have hc' : carryOut 0 plan' db = _ := carryOut_of_ok 0 (h ▸ hr)
    rw [← h] at hc'
    exact .inl ⟨_, left, hc, hc'⟩

/-- **Scripts that send the same texts** come to the same end in their transactions. -/
theorem transact_sameEnd {plan plan' : List PlannedBatch} {row row' : VersionRow} (h : texts plan = texts plan')
    (hv : row.version = row'.version) (tablePrefix : Text) (db : Database) :
    SameEnd tablePrefix (transact tablePrefix row plan db) (transact tablePrefix row' plan' db) := by
  unfold transact
  cases db.beginTransaction with
  | error fault => exact .error rfl rfl (.refl tablePrefix db)
  | ok tx =>
    dsimp only
    rcases carryOut_cases h tx with ⟨sent, left, hc, hc'⟩ | ⟨batch, batch', fault, left, hc, hc'⟩
    · rw [hc, hc']
      dsimp only
      rcases VersionTable.insert_cases hv tablePrefix left with ⟨fault, hi, hi'⟩ | ⟨db₁, db₁', hi, hi', hsaved, htables⟩
      · rw [hi, hi']
        exact .error rfl rfl (.refl tablePrefix _)
      · rw [hi, hi']
        simp only [Database.commit, hsaved]
        cases db₁'.saved.isSome with
        | true => exact .ok sent htables
        | false => exact .error rfl rfl htables
    · rw [hc, hc']
      exact .error rfl rfl (.refl tablePrefix _)

variable {sp : Splitter} {d d' : Disk} {m m' : Migration} {script script' sum sum' : Text} {body : List Text} {n : Nat}

/-- One migration whose script has a count, and one whose script has the copies. -/
theorem applyOne_sameEnd {config : Config} (hv : m.version = m'.version) (hk : sp.separator.keyword.Unmarked)
    (hbody : sp.Uncut config.splitter.stripComments body) (hn : n ≤ maxRepeat)
    (hread : m.readWithChecksum d = .ok (script, sum))
    (hlines : Text.lines '\n' script = body ++ [sp.separator.keyword ++ ' ' :: Text.ofNat n])
    (hread' : m'.readWithChecksum d' = .ok (script', sum'))
    (hlines' : Text.lines '\n' script' = (List.replicate n (body ++ [sp.separator.keyword])).flatten)
    (now now' : Text) (db : Database) :
    SameEnd config.tablePrefix (applyOne config sp d now m db) (applyOne config sp d' now' m' db) := by
  rw [applyOne_eq_transact hread (hbody.splitText_counted hk hn hlines),
    applyOne_eq_transact hread' (hbody.splitText_copied hk hlines')]
  refine transact_sameEnd ?_ hv config.tablePrefix db
  rw [texts_counted, ofEvents, texts_copied]
  rfl

/-- **A count stands for copies.** For lines that make one batch, a migration whose script has them once and then the
separator with a count, and one whose script has them with the bare separator as often as the count says, come to the same
end on every database: both succeed and report the same number of texts sent, or both fail with the same fault of the
database, and they leave the same tables of the user. -/
theorem apply_repeat (r : Runner) (hv : m.version = m'.version) (hk : r.splitter.separator.keyword.Unmarked)
    (hbody : r.splitter.Uncut r.config.splitter.stripComments body) (hn : n ≤ maxRepeat)
    (hread : m.readWithChecksum d = .ok (script, sum))
    (hlines : Text.lines '\n' script = body ++ [r.splitter.separator.keyword ++ ' ' :: Text.ofNat n])
    (hread' : m'.readWithChecksum d' = .ok (script', sum'))
    (hlines' : Text.lines '\n' script' = (List.replicate n (body ++ [r.splitter.separator.keyword])).flatten)
    (now now' : Text) :
    SameEnd r.config.tablePrefix ((r.apply d now [m]).map id Runner.db) ((r.apply d' now' [m']).map id Runner.db) := by
  have hone := applyOne_sameEnd hv hk hbody hn hread hlines hread' hlines' now now' r.db
  have hsum := (Migration.readWithChecksum_eq_ok hread).2
  have hsum' := (Migration.readWithChecksum_eq_ok hread').2
  unfold apply
  cases VersionTable.rows r.config.tablePrefix r.db with
  | error fault => exact .error rfl rfl (.refl _ _)
  | ok rows =>
    simp only [applyAll, ← hv, hsum, hsum']
    split
    · exact .ok _ (.refl _ _)
    · generalize applyOne r.config r.splitter d now m r.db = counted at hone ⊢
      generalize applyOne r.config r.splitter d' now' m' r.db = copied at hone ⊢
      cases hone with
      | ok sent htables => exact .ok _ htables
      | error h h' htables => exact .error h h' htables

end Repeat

/-- A batch that is refused the second time, with a count. -/
def countedMake : Text := .of "create table t (x int)\nGO 2"

/-- The batch written twice. -/
def copiedMake : Text := .of "create table t (x int)\nGO\ncreate table t (x int)\nGO\n"

/-- Both scripts are refused when the table is made again. That is the first batch of one and the second of the other. -/
theorem apply_repeat_make :
    let body := [Text.of "create table t (x int)"]
    let place : Sql.Place := ⟨.of "create table t (x int)\n", 13⟩
    freshRunner.splitter.separator.keyword.Unmarked ∧
      freshRunner.splitter.Uncut freshRunner.config.splitter.stripComments body ∧
      Text.lines '\n' countedMake = body ++ [.of "GO 2"] ∧
      Text.lines '\n' copiedMake = (List.replicate 2 (body ++ [.of "GO"])).flatten ∧
      SameEnd freshRunner.config.tablePrefix
        ((freshRunner.apply (oneScript countedMake) (.of "noon") [onlyMigration]).map id Runner.db)
        ((freshRunner.apply (oneScript copiedMake) (.of "noon") [onlyMigration]).map id Runner.db) ∧
      (freshRunner.apply (oneScript countedMake) (.of "noon") [onlyMigration]).1 =
        .error (.execution 1 1 (.tableExists (.of "t") place)) ∧
      (freshRunner.apply (oneScript copiedMake) (.of "noon") [onlyMigration]).1 =
        .error (.execution 1 2 (.tableExists (.of "t") place)) := by
  intro body place
  have hk : freshRunner.splitter.separator.keyword.Unmarked := ⟨by decide, by decide⟩
  have hbody : freshRunner.splitter.Uncut freshRunner.config.splitter.stripComments body :=
    ⟨by decide +kernel, by decide +kernel⟩
  have hcounted : Text.lines '\n' countedMake = body ++ [.of "GO 2"] := by decide +kernel
  have hcopied : Text.lines '\n' copiedMake = (List.replicate 2 (body ++ [.of "GO"])).flatten := by decide +kernel
  have hsplit : freshRunner.splitter.splitText freshRunner.config.splitter.stripComments countedMake =
      .ok [.batch (.of "create table t (x int)\n"), .directive ⟨.of "GO 2", some 2⟩] := by decide +kernel
  have hsplit' : freshRunner.splitter.splitText freshRunner.config.splitter.stripComments copiedMake =
      .ok [.batch (.of "create table t (x int)\n"), .directive ⟨.of "GO", none⟩,
        .batch (.of "create table t (x int)\n"), .directive ⟨.of "GO", none⟩] := by decide +kernel
  refine ⟨hk, hbody, hcounted, hcopied, ?_, ?_, ?_⟩
  · exact apply_repeat freshRunner rfl hk hbody (by decide) (readWithChecksum_oneScript _) hcounted
      (readWithChecksum_oneScript _) hcopied (.of "noon") (.of "noon")
  · simp only [apply, applyAll, applyOne, readWithChecksum_oneScript, hsplit]
    decide +kernel
  · simp only [apply, applyAll, applyOne, readWithChecksum_oneScript, hsplit']
    decide +kernel

end Runner

end BatchMigrate
