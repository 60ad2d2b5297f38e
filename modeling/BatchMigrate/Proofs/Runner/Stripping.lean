import BatchMigrate.Proofs.Runner.Rows
import BatchMigrate.Proofs.Script.Stripped
import BatchMigrate.Proofs.Sql.Blank

/-!
# Migrating with comments and without them

The plan of a script does what the texts of its segments do, each as often as its directive says
(`Splitter.sendsAlike_of_splitText`): a text that is not sent because it is blank would do nothing. With comments and
without them these texts have the same tokens (`Sql.tokensFrom_codeText`), so they do the same, and applying a script
ends alike both ways (`Runner.applyOne_strip`).
-/

namespace BatchMigrate

open Sql

/-! ## Texts that do the same -/

/-- Sent to any database, the two lists of texts end alike. -/
def SendsAlike (ks ts : List Text) : Prop := ∀ db : Database, EndsAlike (db.runAll ks) (db.runAll ts)

namespace SendsAlike

variable {ks ts us : List Text}

theorem refl (ks : List Text) : SendsAlike ks ks := fun _ => ⟨rfl, rfl⟩

theorem symm (h : SendsAlike ks ts) : SendsAlike ts ks := fun db => ⟨(h db).1.symm, (h db).2.symm⟩

theorem trans (h : SendsAlike ks ts) (h' : SendsAlike ts us) : SendsAlike ks us :=
  fun db => ⟨(h db).1.trans (h' db).1, (h db).2.trans (h' db).2⟩

theorem append {ks' ts' : List Text} (h : SendsAlike ks ts) (h' : SendsAlike ks' ts') :
    SendsAlike (ks ++ ks') (ts ++ ts') := by
  intro db
  obtain ⟨hok, hdb⟩ := h db
  rcases hk : db.runAll ks with ⟨fault | _, db'⟩ <;> rcases ht : db.runAll ts with ⟨fault' | _, db''⟩
  all_goals rw [hk, ht] at hok hdb; cases hdb
  · rw [Database.runAll_append_of_error _ hk, Database.runAll_append_of_error _ ht]
    exact ⟨rfl, rfl⟩
  · cases hok
  · cases hok
  · rw [Database.runAll_append_of_ok _ hk, Database.runAll_append_of_ok _ ht]
    exact h' _

/-- A text without tokens does nothing. -/
theorem replicate_of_tokens_nil {sql : Text} (h : tokens sql = []) : ∀ n, SendsAlike (List.replicate n sql) []
  | 0 => refl []
  | n + 1 => fun db => by
    rw [List.replicate_succ, Database.runAll_cons_of_ok (run_of_tokens_nil h db)]
    exact replicate_of_tokens_nil h n db

/-- Texts of like tokens do the same. -/
theorem of_forall₂ (h : List.Forall₂ (fun k t => List.Forall₂ Token.Alike (tokens k) (tokens t)) ks ts) :
    SendsAlike ks ts := by
  induction h with
  | nil => exact refl []
  | @cons k t ks ts hkt h ih =>
    have hone : SendsAlike [k] [t] := fun db => by
      obtain ⟨hok, hdb⟩ := Database.run_alike hkt db
      rcases hk : db.run k with ⟨fault | _, db'⟩ <;> rcases ht : db.run t with ⟨fault' | _, db''⟩
      all_goals rw [hk, ht] at hok hdb; cases hdb
      · rw [Database.runAll_cons_of_error hk, Database.runAll_cons_of_error ht]
        exact ⟨rfl, rfl⟩
      · cases hok
      · cases hok
      · rw [Database.runAll_cons_of_ok hk, Database.runAll_cons_of_ok ht]
        exact ⟨rfl, rfl⟩
    exact hone.append ih

end SendsAlike

/-! ## Plans -/

section Plans

open PlannedBatch

/-- If the text is blank, sending it changes nothing. -/
def Idle (sql : Text) : Prop := sql.isBlank = true → tokens sql = []

theorem SendsAlike.of_idle {sql : Text} (h : Idle sql) (n number : Nat) :
    SendsAlike (List.replicate (PlannedBatch.sends ⟨number, sql, n⟩) sql) (List.replicate n sql) := by
  rw [sends]
  split
  · rename_i hblank
    exact (SendsAlike.replicate_of_tokens_nil (h hblank) n).symm
  · exact SendsAlike.refl _

theorem texts_batch (n : Nat) (sql : Text) :
    texts (ofEventsFrom n [.batch sql]) = List.replicate (PlannedBatch.sends ⟨n + 1, sql, 1⟩) sql :=
  List.append_nil _

variable {T : Text}

/-- The lines after the last directive are the last batch, unless nothing but a terminator is left of them. -/
theorem Scanned.lastEvents_cases {rest : List Scanned}
    (hend : ∀ x, rest.getLast? = some x → x.after.lex.inBlock = false) :
    (lastEvents T [] rest = [] ∧ rest.flatMap (broken T) ⊆ T) ∨
      lastEvents T [] rest = [.batch (rest.flatMap (broken T))] := by
  cases hx : rest.getLast? with
  | none =>
    rw [List.getLast?_eq_none_iff.1 hx]
    exact .inl ⟨rfl, List.nil_subset T⟩
  | some x =>
    have hrest : rest ≠ [] := fun hnil => by rw [hnil] at hx; cases hx
    rw [← lastText_append T hx (hend x hx), lastEvents, if_neg hrest, List.nil_append]
    split
    · rename_i hnil
      rw [hnil]
      exact .inl ⟨rfl, List.Subset.refl T⟩
    · exact .inr rfl

/-- The last batch does what the text of its lines does. -/
theorem SendsAlike.of_lastEvents (hT : LineBreak T) {rest : List Scanned} (hidle : Idle (rest.flatMap (Scanned.broken T)))
    (hend : ∀ x, rest.getLast? = some x → x.after.lex.inBlock = false) (n : Nat) :
    SendsAlike (texts (ofEventsFrom n (Scanned.lastEvents T [] rest))) [rest.flatMap (Scanned.broken T)] := by
  rcases Scanned.lastEvents_cases hend with ⟨hlast, hsub⟩ | hlast
  · rw [hlast]
    exact (replicate_of_tokens_nil (tokens_of_gap fun c hc => hT.gap c (hsub hc)) 1).symm
  · rw [hlast, texts_batch]
    exact of_idle hidle 1 (n + 1)

/-- **The plan of segments** does what their texts do, each as often as its directive says. -/
theorem SendsAlike.of_events (hT : LineBreak T) : ∀ {s : Segments Scanned},
    (∀ body ∈ s.bodies, Idle (body.flatMap (Scanned.broken T))) →
    (∀ x, s.rest.getLast? = some x → x.after.lex.inBlock = false) → ∀ n,
      SendsAlike (texts (ofEventsFrom n (s.events (List.flatMap (Scanned.broken T)) (Scanned.lastEvents T []))))
        (s.sent (List.flatMap (Scanned.broken T)))
  | ⟨[], rest⟩, hidle, hend, n => of_lastEvents hT (hidle rest List.mem_cons_self) hend n
  | ⟨g :: closed, rest⟩, hidle, hend, n => by
    obtain ⟨hbody, hidle⟩ := List.forall_mem_cons.1 hidle
    have ih := of_events (s := ⟨closed, rest⟩) hT hidle hend (n + 1)
    have hplan := (of_idle hbody g.directive.repeatCount (n + 1)).append ih
    rw [← texts_batch_directive, Segments.sent, ← List.append_assoc] at hplan
    exact hplan

end Plans

/-! ## Scripts -/

/-- A script of statements whose comments can be taken out: the same lines are directives with comments and without
them, its batches are made of statements, and no comment is all that keeps two tokens apart. -/
structure Strippable (sp : Splitter) (script : Text) : Prop where
  directives : (sp.scan (.start false) (Text.lines '\n' script)).map Scanned.outcome =
    (sp.scan (.start true) (Text.lines '\n' script)).map Scanned.outcome
  readable : ∀ events, sp.splitText false script = .ok events → ∀ sql, .batch sql ∈ events → Readable sql
  separated : ∀ body ∈ (Segments.cut Scanned.outcome (sp.scan (.start false) (Text.lines '\n' script))).bodies,
    Mark.separated (body.flatMap (Scanned.marksWith sp.terminator)) = true

theorem Lex.inBlock_of_fault?_eq_none {lex : Lex} (h : lex.fault? = none) : lex.inBlock = false := by
  cases lex with
  | plain | lineComment => rfl
  | blockComment k => cases h

theorem Sql.readable_of_tokens_nil {sql : Text} (h : tokens sql = []) : Readable sql := by
  intro c hc
  rw [clauses, h, clausesFrom, if_pos rfl] at hc
  cases hc

namespace Splitter

variable {sp : Splitter} {script : Text} {stripComments : Bool} {events : List Event}

theorem isOk_split (source : Source) :
    (sp.split stripComments source).isOk = (delivered (sp.items stripComments source)).2.isNone := by
  unfold split
  split <;> simp_all [Except.isOk, Except.toBool]

/-- A script splits with its comments iff it splits without them. -/
theorem splitText_isOk_strip (sp : Splitter) (script : Text) :
    (sp.splitText false script).isOk = (sp.splitText true script).isOk := by
  have hlex := (split_in_step sp (Text.lines '\n' script)).2.1
  rw [splitText, splitText, isOk_split, isOk_split, source_text, items_ofLines, items_ofLines, fault_lineItems,
    fault_lineItems]
  exact congrArg (fun states => (states.getLast?.getD .plain).fault?.isNone) hlex

/-- The events of a script are those of its segments. -/
theorem events_of_splitText (h : sp.splitText stripComments script = .ok events) :
    events = (Segments.cut Scanned.outcome (sp.scan (.start stripComments) (Text.lines '\n' script))).events
      (List.flatMap (Scanned.broken sp.terminator)) (Scanned.lastEvents sp.terminator []) := by
  rw [← Segments.eventsAfter_nil]
  exact eq_events_of_lineItems (splitText_eq_ok.1 h)

theorem inBlock_of_splitText (h : sp.splitText stripComments script = .ok events) (x : Scanned)
    (hx : (Segments.cut Scanned.outcome
      (sp.scan (.start stripComments) (Text.lines '\n' script))).rest.getLast? = some x) :
    x.after.lex.inBlock = false := by
  refine inBlock_of_lineItems (splitText_eq_ok.1 h) ?_
  rw [← Segments.flatten_cut Scanned.outcome (sp.scan _ _), Segments.flatten, List.getLast?_append, hx, Option.some_or]

/-- A script that splits is marked text between any two directives. -/
theorem marked_of_splitText (hT : LineBreak sp.terminator) (h : sp.splitText false script = .ok events) :
    ∀ body ∈ (Segments.cut Scanned.outcome (sp.scan (.start false) (Text.lines '\n' script))).bodies,
      Mark.Marked (body.flatMap (Scanned.marksWith sp.terminator)) := by
  have hfault := fault_lineItems sp (.start false) (Text.lines '\n' script)
  rw [splitText_eq_ok.1 h, ← List.append_nil (events.map Except.ok), delivered_append] at hfault
  exact Segments.follows_plain (follows_cut hT rfl rfl (fun _ => Text.not_mem_of_mem_lines)
    (Lex.inBlock_of_fault?_eq_none hfault.symm))

/-- The lines of each segment are made of statements if the batches are. -/
theorem readable_of_splitText (hT : LineBreak sp.terminator) (h : sp.splitText stripComments script = .ok events)
    (hsql : ∀ sql, .batch sql ∈ events → Readable sql) :
    ∀ body ∈ (Segments.cut Scanned.outcome (sp.scan (.start stripComments) (Text.lines '\n' script))).bodies,
      Readable (body.flatMap (Scanned.broken sp.terminator)) := by
  intro body hb
  rw [events_of_splitText h] at hsql
  rcases List.mem_append.1 hb with hclosed | hrest
  · obtain ⟨g, hg, rfl⟩ := List.mem_map.1 hclosed
    exact hsql _ (List.mem_append_left _ (List.mem_flatMap.2 ⟨g, hg, List.mem_cons_self⟩))
  · obtain rfl := List.mem_singleton.1 hrest
    rcases Scanned.lastEvents_cases (inBlock_of_splitText h) with ⟨-, hsub⟩ | hlast
    · exact readable_of_tokens_nil (tokens_of_gap fun c hc => hT.gap c (hsub hc))
    · refine hsql _ (List.mem_append_right _ ?_)
      rw [hlast]
      exact List.mem_cons_self

/-- What a script that splits sends, with its comments or without them. -/
theorem sendsAlike_of_splitText (hT : LineBreak sp.terminator) (h : sp.splitText stripComments script = .ok events) :
    let segments := Segments.cut Scanned.outcome (sp.scan (.start stripComments) (Text.lines '\n' script))
    (∀ body ∈ segments.bodies, Idle (body.flatMap (Scanned.broken sp.terminator))) →
      SendsAlike (PlannedBatch.texts (PlannedBatch.ofEvents events))
        (segments.sent (List.flatMap (Scanned.broken sp.terminator))) := by
  intro segments hidle
  rw [events_of_splitText h]
  exact SendsAlike.of_events hT hidle (inBlock_of_splitText h) 0

/-- **A script with its comments and without them** sends texts that do the same. -/
theorem sendsAlike_strip (hT : LineBreak sp.terminator) (hs : Strippable sp script) {full code : List Event}
    (hfull : sp.splitText false script = .ok full) (hcode : sp.splitText true script = .ok code) :
    SendsAlike (PlannedBatch.texts (PlannedBatch.ofEvents full)) (PlannedBatch.texts (PlannedBatch.ofEvents code)) := by
  have hagree := agree_strip (fun _ => Text.not_mem_of_mem_lines) hs.directives
  have hread := readable_of_splitText hT hfull (hs.readable full hfull)
  have halike : ∀ body ∈ (Segments.cut Scanned.outcome (sp.scan (.start false) (Text.lines '\n' script))).bodies,
      ∀ body', List.Forall₂ (Scanned.Strips sp.terminator) body body' →
        List.Forall₂ Token.Alike (tokens (body.flatMap (Scanned.broken sp.terminator)))
          (tokens (body'.flatMap (Scanned.broken sp.terminator))) := by
    intro body hb body' h
    have hsimple := simple_of_readable (hread body hb)
    rw [(broken_of_strips h).1] at hsimple ⊢
    rw [(broken_of_strips h).2]
    exact tokensFrom_codeText (marked_of_splitText hT hfull body hb) (hs.separated body hb) hsimple
  have hsent : List.Forall₂ (fun k t => List.Forall₂ Token.Alike (tokens k) (tokens t)) _ _ :=
    hagree.forall₂_sent halike
  refine (sendsAlike_of_splitText hT hfull fun body hb => ?_).trans
    ((SendsAlike.of_forall₂ hsent).trans (sendsAlike_of_splitText hT hcode fun body' hb' => ?_).symm)
  · exact tokens_eq_nil_of_blank (hread body hb) (List.forall₂_same.2 fun t _ => ⟨rfl, rfl⟩)
  · obtain ⟨body, hb, h⟩ := hagree.exists_body hb'
    exact tokens_eq_nil_of_blank (hread body hb) (halike body hb body' h)

end Splitter

/-! ## Migrations -/

/-- The settings that strip comments, or keep them. -/
def Config.stripping (config : Config) (stripComments : Bool) : Config :=
  { config with splitter := { config.splitter with stripComments } }

namespace Runner

/-- A plan is carried out as its texts are sent. -/
theorem carryOut_alike (sent : Nat) (plan : List PlannedBatch) (db : Database) :
    EndsAlike (carryOut sent plan db) (db.runAll (PlannedBatch.texts plan)) := by
  rcases hr : db.runAll (PlannedBatch.texts plan) with ⟨_ | _, db'⟩
  · obtain ⟨b, _, hc⟩ := carryOut_of_error sent hr
    rw [hc]
    exact ⟨rfl, rfl⟩
  · rw [carryOut_of_ok sent hr]
    exact ⟨rfl, rfl⟩

theorem transact_alike {plan plan' : List PlannedBatch}
    (h : SendsAlike (PlannedBatch.texts plan) (PlannedBatch.texts plan')) (tablePrefix : Text) (row : VersionRow)
    (db : Database) : EndsAlike (transact tablePrefix row plan db) (transact tablePrefix row plan' db) := by
  unfold transact
  cases db.beginTransaction with
  | error fault => exact ⟨rfl, rfl⟩
  | ok db' =>
    dsimp only
    have hfull := carryOut_alike 0 plan db'
    have hcode := carryOut_alike 0 plan' db'
    have hok := hfull.1.trans ((h db').1.trans hcode.1.symm)
    have hdb := hfull.2.trans ((h db').2.trans hcode.2.symm)
    rcases hk : carryOut 0 plan db' with ⟨⟨batch, fault⟩ | sent, left⟩ <;>
      rcases ht : carryOut 0 plan' db' with ⟨⟨batch', fault'⟩ | sent', left'⟩
    all_goals rw [hk, ht] at hok hdb; cases hdb
    · exact ⟨rfl, rfl⟩
    · cases hok
    · cases hok
    · dsimp only
      cases VersionTable.insert tablePrefix row left with
      | error fault => exact ⟨rfl, rfl⟩
      | ok db'' =>
        dsimp only
        cases db''.commit with
        | error fault => exact ⟨rfl, rfl⟩
        | ok final => exact ⟨rfl, rfl⟩

variable {config : Config} {sp : Splitter} {d : Disk}

/-- **Stripping comments** does not change what a migration does. -/
theorem applyOne_strip (config : Config) (sp : Splitter) (hT : LineBreak sp.terminator) (d : Disk) (now : Text)
    (m : Migration) (hs : ∀ script checksum, m.readWithChecksum d = .ok (script, checksum) → Strippable sp script)
    (db : Database) :
    EndsAlike (applyOne (config.stripping false) sp d now m db) (applyOne (config.stripping true) sp d now m db) := by
  unfold applyOne
  cases hread : m.readWithChecksum d with
  | error fault => exact ⟨rfl, rfl⟩
  | ok read =>
    obtain ⟨script, checksum⟩ := read
    have hok := Splitter.splitText_isOk_strip sp script
    have hstrip := fun full code => @Splitter.sendsAlike_strip sp script hT (hs script checksum hread) full code
    simp only [Config.stripping]
    rcases hfull : sp.splitText false script with fault | full <;>
      rcases hcode : sp.splitText true script with fault' | code
    all_goals rw [hfull, hcode] at hok
    · exact ⟨rfl, rfl⟩
    · cases hok
    · cases hok
    · exact transact_alike (hstrip full code hfull hcode) _ _ db

/-! ## Some scripts -/

/-- Applying the script at noon to a database with an empty version table. -/
def applied (sp : Splitter) (stripComments : Bool) (script : Text) : Except RunFault Nat × Database :=
  applyOne (Config.stripping {} stripComments) sp (oneScript script) (.of "noon") onlyMigration
    { tables := [(VersionTable.name (.of "sqlbatch_"), .versions [])] }

/-- Applying the script when its events are known. -/
theorem applied_of_splitText {sp : Splitter} {stripComments : Bool} {script : Text} {events : List Event}
    (h : sp.splitText stripComments script = .ok events) : applied sp stripComments script =
      transact (.of "sqlbatch_") ⟨1, .of "a", Sha256.hexDigest script.utf8, .of "noon"⟩ (PlannedBatch.ofEvents events)
        { tables := [(VersionTable.name (.of "sqlbatch_"), .versions [])] } := by
  exact applyOne_eq_transact (readWithChecksum_oneScript script) h _ _

/-- Comments at the ends of lines, over several lines and next to brackets, and a last batch that is all comment. -/
def annotatedScript : Text :=
  .of "create table t -- a\n(x int)\nGO\ninsert into t /*\n*/ values (/**/3)\nGO 2\n/* b */"

/-- What the script holds with its comments. -/
def annotatedEvents : List Event :=
  [.batch (.of "create table t -- a\n(x int)\n"), .directive ⟨.of "GO", none⟩,
    .batch (.of "insert into t /*\n*/ values (/**/3)\n"), .directive ⟨.of "GO 2", some 2⟩, .batch (.of "/* b */\n")]

theorem strippable_annotatedScript : Strippable .unix annotatedScript := by
  have hsplit : Splitter.unix.splitText false annotatedScript = .ok annotatedEvents := by decide +kernel
  refine ⟨by decide +kernel, fun events h sql hsql => ?_, by decide +kernel⟩
  cases hsplit.symm.trans h
  simp only [annotatedEvents, List.mem_cons, Event.batch.injEq, reduceCtorEq, List.not_mem_nil, or_false, false_or] at hsql
  rcases hsql with rfl | rfl | rfl
  · decide +kernel
  · decide +kernel
  · decide +kernel

/-- Without its comments the script has one batch less, and makes the same table with the same rows. -/
theorem applyOne_strip_annotatedScript :
    LineBreak Splitter.unix.terminator ∧
      (∀ script checksum, onlyMigration.readWithChecksum (oneScript annotatedScript) = .ok (script, checksum) →
        Strippable .unix script) ∧
      EndsAlike (applied .unix false annotatedScript) (applied .unix true annotatedScript) ∧
      (applied .unix true annotatedScript).1.isOk = true ∧
      (applied .unix true annotatedScript).2.numbers? (.of "t") = some [3, 3] := by
  have hT : LineBreak Splitter.unix.terminator := ⟨List.forall_mem_singleton.2 rfl, List.mem_cons_self⟩
  have hs : ∀ script checksum, onlyMigration.readWithChecksum (oneScript annotatedScript) = .ok (script, checksum) →
      Strippable .unix script := by
    intro script checksum h
    rw [readWithChecksum_oneScript] at h
    obtain ⟨rfl, -⟩ := Prod.mk.inj (Except.ok.inj h)
    exact strippable_annotatedScript
  have hsplit : Splitter.unix.splitText true annotatedScript = .ok [.batch (.of "create table t \n(x int)\n"),
      .directive ⟨.of "GO", none⟩, .batch (.of "insert into t  values (3)\n"), .directive ⟨.of "GO 2", some 2⟩] := by
    decide +kernel
  refine ⟨hT, hs, applyOne_strip {} .unix hT _ (.of "noon") onlyMigration hs _, ?_⟩
  rw [applied_of_splitText hsplit]
  exact ⟨by decide +kernel, by decide +kernel⟩

/-- A comment is all that keeps the first two words apart. -/
def joinedScript : Text := .of "create/* c */table t (x int)"

/-- The second statement is on a line of its own. -/
def blankedScript : Text := .of "create table t (x int) -- c\n;insert into t values (1)"

/-- A splitter that puts a blank in the place of each line break. -/
def blanked : Splitter := { terminator := [' '], terminator_ne_nil := by decide }

/-- **Comments between tokens can matter.** A comment may be all that keeps two words apart; and where line breaks are
not kept, a comment that is kept goes on into the next line. -/
theorem applied_joinedScript_blankedScript :
    ((Splitter.unix.scan (.start false) (Text.lines '\n' joinedScript)).map Scanned.outcome =
        (Splitter.unix.scan (.start true) (Text.lines '\n' joinedScript)).map Scanned.outcome ∧
      Splitter.unix.splitText false joinedScript = .ok [.batch (.of "create/* c */table t (x int)\n")] ∧
      Readable (.of "create/* c */table t (x int)\n") ∧
      (applied .unix false joinedScript).1.isOk = true ∧ (applied .unix true joinedScript).1.isOk = false) ∧
    ((blanked.scan (.start false) (Text.lines '\n' blankedScript)).map Scanned.outcome =
        (blanked.scan (.start true) (Text.lines '\n' blankedScript)).map Scanned.outcome ∧
      blanked.splitText false blankedScript =
        .ok [.batch (.of "create table t (x int) -- c ;insert into t values (1) ")] ∧
      Readable (.of "create table t (x int) -- c ;insert into t values (1) ") ∧
      (applied blanked false blankedScript).2.numbers? (.of "t") = some [] ∧
      (applied blanked true blankedScript).2.numbers? (.of "t") = some [1]) := by
  have hfull : Splitter.unix.splitText false joinedScript = .ok [.batch (.of "create/* c */table t (x int)\n")] := by
    decide +kernel
  have hcode : Splitter.unix.splitText true joinedScript = .ok [.batch (.of "createtable t (x int)\n")] := by decide +kernel
  have hfull' : blanked.splitText false blankedScript =
      .ok [.batch (.of "create table t (x int) -- c ;insert into t values (1) ")] := by
    decide +kernel
  have hcode' : blanked.splitText true blankedScript =
      .ok [.batch (.of "create table t (x int)  ;insert into t values (1) ")] := by
    decide +kernel
  rw [applied_of_splitText hfull, applied_of_splitText hcode, applied_of_splitText hfull', applied_of_splitText hcode']
  exact ⟨⟨by decide +kernel, hfull, by decide +kernel, by decide +kernel, by decide +kernel⟩,
    ⟨by decide +kernel, hfull', by decide +kernel, by decide +kernel, by decide +kernel⟩⟩

end Runner

end BatchMigrate
