import Mathlib.Algebra.Ring.Nat
import BatchMigrate.Proofs.Runner.Transaction
import BatchMigrate.Proofs.Script.Scan
import BatchMigrate.Sql.Interpreter

/-!
# The execution of a script

The batches of a script with the number of times that each runs are its schedule (`Event.schedule`), and `Sends` says what
comes of a schedule: all its texts are sent in order, or those up to the first that is refused. A script can be carried
out in one pass over its events, which holds each batch back until it is known what follows it; `Execution` does so and
keeps a log of the texts that it sends. It sends what the schedule says (`Execution.sends_run`), and does what carrying out
the plan of the script does (`Execution.run_eq_carryOut`). So `Runner.applyOne_executes` tells which texts a migration
sends, how many it reports and which batch it blames.
-/

namespace BatchMigrate

open Sql

/-! ## Schedules -/

/-- A batch of a script and how often it runs. -/
structure ScheduledBatch where
  sql : Text
  times : Nat

namespace Event

/-- How often the batch at place `i` runs: as the directive right after it says, and once if none is there. -/
def timesAt (events : List Event) (i : Nat) : Nat :=
  match events[i + 1]? with
  | some (.directive d) => d.repeatCount
  | _ => 1

/-- What is scheduled for place `i`, if a batch is there. -/
def scheduledAt? (events : List Event) (i : Nat) : Option ScheduledBatch :=
  match events[i]? with
  | some (.batch sql) => some ⟨sql, timesAt events i⟩
  | _ => none

/-- The batches among the events in order, each with the number of times that it runs. -/
def schedule (events : List Event) : List ScheduledBatch := (List.range events.length).filterMap (scheduledAt? events)

theorem schedule_cons (event : Event) (events : List Event) :
    schedule (event :: events) = (scheduledAt? (event :: events) 0).toList ++ schedule events := by
  rw [schedule, List.length_cons, List.range_succ_eq_map, List.filterMap_cons, List.filterMap_map]
  have htail : (scheduledAt? (event :: events) ∘ Nat.succ) = scheduledAt? events := by
    funext i
    simp [scheduledAt?, timesAt]
  rw [htail]
  cases scheduledAt? (event :: events) 0 <;> rfl

@[simp] theorem schedule_nil : schedule [] = [] := rfl

@[simp] theorem schedule_directive (d : Directive) (events : List Event) :
    schedule (.directive d :: events) = schedule events := by
  rw [schedule_cons]
  rfl

theorem schedule_batch (sql : Text) (events : List Event) :
    schedule (.batch sql :: events) = ⟨sql, timesAt (.batch sql :: events) 0⟩ :: schedule events := by
  rw [schedule_cons]
  rfl

end Event

namespace ScheduledBatch

/-- The texts that are sent for the batch: none if it holds only white space. -/
def copies (b : ScheduledBatch) : List Text := if b.sql.isBlank then [] else List.replicate b.times b.sql

/-- The texts that a schedule sends. -/
def texts (schedule : List ScheduledBatch) : List Text := schedule.flatMap copies

/-- The number of times that batches which hold more than white space run. -/
def total (schedule : List ScheduledBatch) : Nat := ((schedule.filter (!·.sql.isBlank)).map (·.times)).sum

theorem total_cons (b : ScheduledBatch) (rest : List ScheduledBatch) :
    total (b :: rest) = b.copies.length + total rest := by
  unfold total copies
  by_cases hb : b.sql.isBlank = true
  · simp [hb]
  · simp [hb]

end ScheduledBatch

open ScheduledBatch

/-- What comes of sending a schedule, when `number` batches and `executed` texts have been counted before: the texts sent,
the number of texts counted or the batch that is refused and why, and the database. -/
inductive Sends [Interpreter] (number executed : Nat) (schedule : List ScheduledBatch) (db : Database) :
    List Text → Except (Nat × Fault) Nat → Database → Prop
  /-- All texts are sent. -/
  | all {db' : Database} (h : db.runAll (texts schedule) = (.ok (), db')) :
      Sends number executed schedule db (texts schedule) (.ok (executed + total schedule)) db'
  /-- A batch is refused, the first time or a later one, and nothing is sent after it. -/
  | refused {before after : List ScheduledBatch} {b : ScheduledBatch} {earlier : Nat} {fault : Fault} {db₁ db₂ : Database}
      (hschedule : schedule = before ++ b :: after) (hblank : b.sql.isBlank = false) (hearlier : earlier < b.times)
      (hbefore : db.runAll (texts before ++ List.replicate earlier b.sql) = (.ok (), db₁))
      (hrefused : db₁.run b.sql = (.error fault, db₂)) :
      Sends number executed schedule db (texts before ++ List.replicate earlier b.sql ++ [b.sql])
        (.error (number + before.length + 1, fault)) db₂

namespace Sends

variable [Interpreter] {number executed : Nat} {b : ScheduledBatch} {rest : List ScheduledBatch} {db db₁ db' : Database}
  {log : List Text} {result : Except (Nat × Fault) Nat}

theorem nil (number executed : Nat) (db : Database) : Sends number executed [] db [] (.ok executed) db :=
  @all _ number executed [] db db rfl

/-- A first batch that is accepted each time. -/
theorem cons (hb : db.runAll b.copies = (.ok (), db₁))
    (h : Sends (number + 1) (executed + b.copies.length) rest db₁ log result db') :
    Sends number executed (b :: rest) db (b.copies ++ log) result db' := by
  have htexts : ∀ schedule, texts (b :: schedule) = b.copies ++ texts schedule := fun _ => rfl
  cases h with
  | all h =>
    rw [← htexts, Nat.add_assoc, ← total_cons]
    exact .all (by rw [htexts, Database.runAll_append_of_ok _ hb, h])
  | @refused before after c earlier fault db₂ _ hschedule hblank hearlier hbefore hrefused =>
    have h := @refused _ number executed (b :: rest) db (b :: before) after c earlier fault db₂ db' (by rw [hschedule]; rfl)
      hblank hearlier (by rw [htexts, List.append_assoc, Database.runAll_append_of_ok _ hb, hbefore]) hrefused
    rw [htexts, List.length_cons, Nat.add_comm before.length, ← Nat.add_assoc, List.append_assoc, List.append_assoc] at h
    rwa [List.append_assoc]

/-- A first batch that is refused. -/
theorem head {earlier : Nat} {fault : Fault} {db₂ : Database} (hblank : b.sql.isBlank = false)
    (hearlier : earlier < b.times) (hbefore : db.runAll (List.replicate earlier b.sql) = (.ok (), db₁))
    (hrefused : db₁.run b.sql = (.error fault, db₂)) :
    Sends number executed (b :: rest) db (List.replicate earlier b.sql ++ [b.sql]) (.error (number + 1, fault)) db₂ :=
  @refused _ number executed (b :: rest) db [] rest b earlier fault db₁ db₂ rfl hblank hearlier hbefore hrefused

end Sends

/-! ## One pass over the events -/

/-- Where the execution of a script stands. -/
structure Execution where
  db : Database
  /-- A batch of which it is not known yet what follows it. -/
  held : Option Text := none
  /-- The number of batches so far. -/
  number : Nat := 0
  /-- The number of texts counted so far. -/
  executed : Nat := 0
  /-- The texts sent to the database, one after the other, the refused one included. -/
  log : List Text := []

namespace Execution

/-- The events to come, the batch that is held being the first of them. -/
def due (x : Execution) (events : List Event) : List Event := x.held.toList.map .batch ++ events

/-- The number of batches that have run. -/
def done (x : Execution) : Nat := x.number - x.held.toList.length

/-- A batch that is held has been counted. -/
def Counted (x : Execution) : Prop := x.held.isSome → 0 < x.number

variable {sql : Text} {x : Execution}

theorem due_of_held (h : x.held = some sql) (events : List Event) : x.due events = .batch sql :: events := by
  rw [due, h]
  rfl

theorem due_of_none (h : x.held = none) (events : List Event) : x.due events = events := by
  rw [due, h]
  rfl

theorem done_of_held {n : Nat} (h : x.held = some sql) (hn : x.number = n + 1) : x.done = n := by
  rw [done, h, hn]
  rfl

theorem done_of_none (h : x.held = none) : x.done = x.number := by
  rw [done, h]
  rfl

variable [Interpreter]

/-- Sends a text a number of times, up to the first time that it is refused. -/
def send (sql : Text) : Nat → Execution → Except Fault Unit × Execution
  | 0, x => (.ok (), x)
  | n + 1, x =>
    match x.db.run sql with
    | (.ok (), db) => send sql n { x with db, log := x.log ++ [sql] }
    | (.error fault, db) => (.error fault, { x with db, log := x.log ++ [sql] })

/-- Runs a batch a number of times, unless it is blank. -/
def runBatch (sql : Text) (times : Nat) (x : Execution) : Except (Nat × Fault) Unit × Execution :=
  if sql.isBlank then (.ok (), x)
  else
    match send sql times x with
    | (.ok (), x) => (.ok (), { x with executed := x.executed + times })
    | (.error fault, x) => (.error (x.number, fault), x)

/-- Goes on by one event. A batch is held back, and the one that was held before it runs once; a directive runs the batch
that is held as often as it says. -/
def step (x : Execution) : Event → Except (Nat × Fault) Unit × Execution
  | .batch sql =>
    match x.held with
    | some previous =>
      match runBatch previous 1 { x with held := some sql } with
      | (.ok (), x) => (.ok (), { x with number := x.number + 1 })
      | (.error refused, x) => (.error refused, x)
    | none => (.ok (), { x with held := some sql, number := x.number + 1 })
  | .directive d =>
    match x.held with
    | some sql => runBatch sql d.repeatCount { x with held := none }
    | none => (.ok (), x)

/-- Carries out the events, and at last the batch that is still held: the number of texts counted, or the number of the
batch that was refused. -/
def run (x : Execution) : List Event → Except (Nat × Fault) Nat × Execution
  | [] =>
    match x.held with
    | some sql =>
      match runBatch sql 1 { x with held := none } with
      | (.ok (), x) => (.ok x.executed, x)
      | (.error refused, x) => (.error refused, x)
    | none => (.ok x.executed, x)
  | event :: events =>
    match step x event with
    | (.ok (), x) => run x events
    | (.error refused, x) => (.error refused, x)

/-! ### What it sends -/

/-- A text is accepted each time, or refused after some times. -/
theorem send_cases (sql : Text) : ∀ (n : Nat) (x : Execution),
    (∃ db, x.db.runAll (List.replicate n sql) = (.ok (), db) ∧
      send sql n x = (.ok (), { x with db, log := x.log ++ List.replicate n sql })) ∨
    ∃ earlier < n, ∃ fault db₁ db₂, x.db.runAll (List.replicate earlier sql) = (.ok (), db₁) ∧
      db₁.run sql = (.error fault, db₂) ∧
      send sql n x = (.error fault, { x with db := db₂, log := x.log ++ (List.replicate earlier sql ++ [sql]) })
  | 0, x => .inl ⟨x.db, rfl, by rw [List.replicate_zero, List.append_nil]; rfl⟩
  | n + 1, x => by
    rcases hrun : x.db.run sql with ⟨fault | _, db⟩
    · exact .inr ⟨0, Nat.succ_pos n, fault, x.db, db, rfl, hrun, by rw [send, hrun]; rfl⟩
    · have hsend : send sql (n + 1) x = send sql n { x with db, log := x.log ++ [sql] } := by rw [send, hrun]
      have hlog : ∀ texts, x.log ++ [sql] ++ texts = x.log ++ sql :: texts := fun texts => by simp
      rcases send_cases sql n { x with db, log := x.log ++ [sql] } with
        ⟨db', hdb, he⟩ | ⟨earlier, hearlier, fault, db₁, db₂, hbefore, hrefused, he⟩
      · refine .inl ⟨db', ?_, ?_⟩
        · rw [List.replicate_succ, Database.runAll_cons_of_ok hrun, hdb]
        · rw [hsend, he, hlog, List.replicate_succ]
      · refine .inr ⟨earlier + 1, Nat.succ_lt_succ hearlier, fault, db₁, db₂, ?_, hrefused, ?_⟩
        · rw [List.replicate_succ, Database.runAll_cons_of_ok hrun, hbefore]
        · rw [hsend, he, hlog, List.replicate_succ, List.cons_append]

/-- **One batch** is accepted each time and counted, or refused. -/
theorem runBatch_cases (b : ScheduledBatch) (x : Execution) :
    (∃ db, x.db.runAll b.copies = (.ok (), db) ∧ runBatch b.sql b.times x =
      (.ok (), { x with db, executed := x.executed + b.copies.length, log := x.log ++ b.copies })) ∨
    (b.sql.isBlank = false ∧ ∃ earlier < b.times, ∃ fault db₁ db₂,
      x.db.runAll (List.replicate earlier b.sql) = (.ok (), db₁) ∧ db₁.run b.sql = (.error fault, db₂) ∧
      runBatch b.sql b.times x =
        (.error (x.number, fault), { x with db := db₂, log := x.log ++ (List.replicate earlier b.sql ++ [b.sql]) })) := by
  unfold runBatch copies
  cases hblank : b.sql.isBlank with
  | true => exact .inl ⟨x.db, rfl, by simp⟩
  | false =>
    rcases send_cases b.sql b.times x with
      ⟨db, hdb, he⟩ | ⟨earlier, hearlier, fault, db₁, db₂, hbefore, hrefused, he⟩
    · exact .inl ⟨db, hdb, by simp [he]⟩
    · exact .inr ⟨rfl, earlier, hearlier, fault, db₁, db₂, hbefore, hrefused, by simp [he]⟩

/-- After a batch has run, the execution goes on, or it ends with the batch that was refused. -/
def afterBatch (b : ScheduledBatch) (next : Execution → Except (Nat × Fault) Nat × Execution) (x : Execution) :
    Except (Nat × Fault) Nat × Execution :=
  match runBatch b.sql b.times x with
  | (.ok (), x) => next x
  | (.error refused, x) => (.error refused, x)

/-- The first batch of a schedule, and then the others. -/
theorem sends_afterBatch {b : ScheduledBatch} {rest : List ScheduledBatch}
    {next : Execution → Except (Nat × Fault) Nat × Execution} {n : Nat} (hn : x.number = n + 1)
    (hnext : ∀ y : Execution, y.number = n + 1 → y.held = x.held → ∃ log, (next y).2.log = y.log ++ log ∧
      Sends (n + 1) y.executed rest y.db log (next y).1 (next y).2.db) :
    ∃ log, (afterBatch b next x).2.log = x.log ++ log ∧
      Sends n x.executed (b :: rest) x.db log (afterBatch b next x).1 (afterBatch b next x).2.db := by
  unfold afterBatch
  rcases runBatch_cases b x with ⟨db, hdb, he⟩ | ⟨hblank, earlier, hearlier, fault, db₁, db₂, hbefore, hrefused, he⟩
  · obtain ⟨log, hlog, hsends⟩ := hnext { x with
      db, executed := x.executed + b.copies.length, log := x.log ++ b.copies } hn rfl
    rw [he]
    exact ⟨b.copies ++ log, hlog.trans (List.append_assoc _ _ _), hsends.cons hdb⟩
  · rw [he, hn]
    exact ⟨_, rfl, .head hblank hearlier hbefore hrefused⟩

/-! ### Where it runs a batch -/

theorem run_nil_of_held (h : x.held = some sql) :
    run x [] = afterBatch ⟨sql, 1⟩ (fun y => (.ok y.executed, y)) { x with held := none } := by
  simp only [run, h, afterBatch]

theorem run_batch_of_held (h : x.held = some sql) (next : Text) (events : List Event) :
    run x (.batch next :: events) =
      afterBatch ⟨sql, 1⟩ (fun y => run { y with number := y.number + 1 } events) { x with held := some next } := by
  simp only [run, step, h, afterBatch]
  rcases runBatch sql 1 { x with held := some next } with ⟨_ | _, y⟩ <;> rfl

theorem run_directive_of_held (h : x.held = some sql) (d : Directive) (events : List Event) :
    run x (.directive d :: events) =
      afterBatch ⟨sql, d.repeatCount⟩ (fun y => run y events) { x with held := none } := by
  simp only [run, step, h, afterBatch]

/-- **An execution sends what the schedule of the events to come says.** -/
theorem sends_run : ∀ (events : List Event) {x : Execution}, x.Counted → ∃ log, (run x events).2.log = x.log ++ log ∧
    Sends x.done x.executed (Event.schedule (x.due events)) x.db log (run x events).1 (run x events).2.db
  | [], x, hx => by
    cases hheld : x.held with
    | none =>
      have hrun : run x [] = (.ok x.executed, x) := by simp only [run, hheld]
      rw [due_of_none hheld, hrun]
      exact ⟨[], (List.append_nil _).symm, .nil _ _ _⟩
    | some sql =>
      obtain ⟨n, hn⟩ := Nat.exists_eq_add_one.2 (hx (by rw [hheld]; rfl))
      rw [due_of_held hheld, done_of_held hheld hn, run_nil_of_held hheld, Event.schedule_batch]
      exact sends_afterBatch (x := { x with held := none }) hn fun y _ _ => ⟨[], (List.append_nil _).symm, .nil _ _ _⟩
  | .batch next :: events, x, hx => by
    cases hheld : x.held with
    | none =>
      have ih := sends_run events (x := { x with held := some next, number := x.number + 1 }) fun _ => Nat.succ_pos _
      have hrun : run x (.batch next :: events) = run { x with held := some next, number := x.number + 1 } events := by
        simp only [run, step, hheld]
      rw [due_of_none hheld, done_of_none hheld, hrun]
      exact ih
    | some sql =>
      obtain ⟨n, hn⟩ := Nat.exists_eq_add_one.2 (hx (by rw [hheld]; rfl))
      rw [due_of_held hheld, done_of_held hheld hn, run_batch_of_held hheld, Event.schedule_batch]
      refine sends_afterBatch (x := { x with held := some next }) hn fun y hnumber hy => ?_
      have ih := sends_run events (x := { y with number := y.number + 1 }) fun _ => Nat.succ_pos _
      have hheld' : ({ y with number := y.number + 1 } : Execution).held = some next := hy
      rwa [due_of_held hheld', done_of_held hheld' (congrArg (· + 1) hnumber)] at ih
  | .directive d :: events, x, hx => by
    cases hheld : x.held with
    | none =>
      have ih := sends_run events hx
      have hrun : run x (.directive d :: events) = run x events := by simp only [run, step, hheld]
      rw [due_of_none hheld, Event.schedule_directive, hrun]
      rwa [due_of_none hheld] at ih
    | some sql =>
      obtain ⟨n, hn⟩ := Nat.exists_eq_add_one.2 (hx (by rw [hheld]; rfl))
      rw [due_of_held hheld, done_of_held hheld hn, run_directive_of_held hheld, Event.schedule_batch,
        Event.schedule_directive]
      refine sends_afterBatch (x := { x with held := none }) hn fun y hnumber hy => ?_
      have ih := sends_run events (x := y) fun h => by rw [hy] at h; cases h
      rwa [due_of_none hy, done_of_none hy, hnumber] at ih

end Execution

/-! ## The plan that is carried out -/

namespace PlannedBatch

/-- The plan of a schedule, when `n` batches came before. -/
def ofSchedule : Nat → List ScheduledBatch → List PlannedBatch
  | _, [] => []
  | n, b :: rest => ⟨n + 1, b.sql, b.times⟩ :: ofSchedule (n + 1) rest

/-- **The plan of a script** is that of its schedule. -/
theorem ofEventsFrom_eq : ∀ (n : Nat) (events : List Event), ofEventsFrom n events = ofSchedule n (Event.schedule events)
  | _, [] => rfl
  | n, .directive d :: events => by rw [ofEventsFrom, ofEventsFrom_eq, Event.schedule_directive]
  | n, .batch sql :: .directive d :: events => by
    rw [ofEventsFrom, ofEventsFrom_eq, Event.schedule_batch, Event.schedule_directive]
    rfl
  | n, [.batch sql] => rfl
  | n, .batch sql :: .batch next :: events => by
    rw [ofEventsFrom, ofEventsFrom_eq, Event.schedule_batch sql]
    · rfl
    · simp

theorem replicate_sends (n : Nat) (b : ScheduledBatch) :
    List.replicate (sends ⟨n, b.sql, b.times⟩) b.sql = b.copies := by
  unfold sends copies
  split <;> rfl

end PlannedBatch

namespace Runner

open PlannedBatch

variable [Interpreter]

/-- A first batch that is accepted each time. -/
theorem carryOut_ofSchedule_cons {b : ScheduledBatch} {db db₁ : Database} (h : db.runAll b.copies = (.ok (), db₁))
    (executed n : Nat) (rest : List ScheduledBatch) : carryOut executed (ofSchedule n (b :: rest)) db =
      carryOut (executed + b.copies.length) (ofSchedule (n + 1) rest) db₁ := by
  rw [ofSchedule, carryOut, sendTimes_eq_runAll, replicate_sends, h, ← replicate_sends (n + 1), List.length_replicate]

/-- Batches at the start that are accepted each time. -/
theorem carryOut_ofSchedule_append : ∀ {before : List ScheduledBatch} {db db₁ : Database},
    db.runAll (ScheduledBatch.texts before) = (.ok (), db₁) → ∀ (executed n : Nat) (after : List ScheduledBatch),
      carryOut executed (ofSchedule n (before ++ after)) db =
        carryOut (executed + total before) (ofSchedule (n + before.length) after) db₁
  | [], _, _, h, _, _, _ => by
    cases h
    rfl
  | b :: before, db, db₁, h, executed, n, after => by
    have htexts : ScheduledBatch.texts (b :: before) = b.copies ++ ScheduledBatch.texts before := rfl
    rw [htexts] at h
    rcases hb : db.runAll b.copies with ⟨_ | _, db₂⟩
    · rw [Database.runAll_append_of_error _ hb] at h
      cases h
    · rw [Database.runAll_append_of_ok _ hb] at h
      rw [List.cons_append, carryOut_ofSchedule_cons hb, carryOut_ofSchedule_append h, total_cons, List.length_cons,
        Nat.add_assoc, Nat.add_assoc, Nat.add_comm 1]

/-- A first batch that is refused. -/
theorem carryOut_ofSchedule_of_refused {b : ScheduledBatch} {db db₁ db₂ : Database} {earlier : Nat} {fault : Fault}
    (hblank : b.sql.isBlank = false) (hearlier : earlier < b.times)
    (hbefore : db.runAll (List.replicate earlier b.sql) = (.ok (), db₁)) (hrefused : db₁.run b.sql = (.error fault, db₂))
    (executed n : Nat) (rest : List ScheduledBatch) :
    carryOut executed (ofSchedule n (b :: rest)) db = (.error (n + 1, fault), db₂) := by
  obtain ⟨later, hlater⟩ := Nat.exists_eq_add_of_lt hearlier
  have hcopies : b.copies = List.replicate earlier b.sql ++ b.sql :: List.replicate later b.sql := by
    rw [copies, hblank, hlater, Nat.add_assoc, ← List.replicate_succ, List.replicate_append_replicate]
    rfl
  have hrun : db.runAll b.copies = (.error fault, db₂) := by
    rw [hcopies, Database.runAll_append_of_ok _ hbefore, Database.runAll_cons_of_error hrefused]
  rw [ofSchedule, carryOut, sendTimes_eq_runAll, replicate_sends, hrun]

/-- **Carrying out the plan** of a schedule does what comes of sending it. -/
theorem carryOut_ofSchedule {number executed : Nat} {schedule : List ScheduledBatch} {db db' : Database} {log : List Text}
    {result : Except (Nat × Fault) Nat} (h : Sends number executed schedule db log result db') :
    carryOut executed (ofSchedule number schedule) db = (result, db') := by
  cases h with
  | all h =>
    have hall := carryOut_ofSchedule_append h executed number []
    rwa [List.append_nil] at hall
  | @refused before after b earlier fault db₂ _ hschedule hblank hearlier hbefore hrefused =>
    rcases hb : db.runAll (ScheduledBatch.texts before) with ⟨_ | _, db₁⟩
    · rw [Database.runAll_append_of_error _ hb] at hbefore
      cases hbefore
    · rw [Database.runAll_append_of_ok _ hb] at hbefore
      rw [hschedule, carryOut_ofSchedule_append hb, carryOut_ofSchedule_of_refused hblank hearlier hbefore hrefused]

end Runner

namespace Execution

variable [Interpreter]

theorem sends_run_start (db : Database) (events : List Event) :
    Sends 0 0 (Event.schedule events) db (run { db } events).2.log (run { db } events).1 (run { db } events).2.db := by
  obtain ⟨log, hlog, h⟩ := sends_run events (x := { db }) fun h => by cases h
  rw [List.nil_append] at hlog
  rw [hlog]
  exact h

/-- **One pass over the events** does what carrying out the plan does. -/
theorem run_eq_carryOut (db : Database) (events : List Event) :
    ((run { db } events).1, (run { db } events).2.db) = Runner.carryOut 0 (PlannedBatch.ofEvents events) db := by
  rw [PlannedBatch.ofEvents, PlannedBatch.ofEventsFrom_eq, Runner.carryOut_ofSchedule (sends_run_start db events)]

end Execution

namespace Runner

/-- **What a migration executes.** The texts that are sent in the transaction are the batches that are not blank, each as
often as the directive after it says, up to the first that is refused. If none is, their number is reported once the row
of the version is in the table; otherwise the fault names the version and the place of the batch among all batches. -/
theorem applyOne_executes [Interpreter] (config : Config) (sp : Splitter) (d : Disk) (now : Text) (m : Migration)
    {script sum : Text}
    {events : List Event} (hread : m.readWithChecksum d = .ok (script, sum))
    (hsplit : sp.splitText config.splitter.stripComments script = .ok events) (db : Database) :
    match db.beginTransaction with
    | .error fault => applyOne config sp d now m db = (.error (.database fault), db)
    | .ok tx =>
      let (result, x) := Execution.run { db := tx } events
      Sends 0 0 (Event.schedule events) tx x.log result x.db ∧
        match result with
        | .error (batch, fault) =>
          applyOne config sp d now m db = (.error (.execution m.version batch fault), x.db.rollback)
        | .ok sent =>
          (applyOne config sp d now m db).1 =
            ((VersionTable.insert config.tablePrefix ⟨m.version, m.description, sum, now⟩ x.db >>= Database.commit).map
              fun _ => sent).mapError .database := by
  rw [applyOne_eq_transact hread hsplit, transact]
  cases db.beginTransaction with
  | error fault => rfl
  | ok tx =>
    have hcarry := Execution.run_eq_carryOut tx events
    refine ⟨Execution.sends_run_start tx events, ?_⟩
    dsimp only
    rw [← hcarry]
    cases (Execution.run { db := tx } events).1 with
    | error refused => rfl
    | ok sent =>
      dsimp only
      cases hinsert : VersionTable.insert config.tablePrefix ⟨m.version, m.description, sum, now⟩
        (Execution.run { db := tx } events).2.db with
      | error fault => rfl
      | ok db' =>
        dsimp only [bind, Except.bind]
        cases db'.commit <;> rfl

/-- A batch that makes a table, a blank one with a count, one that runs twice, one that does not run, and one that is
refused. -/
def countedScript : Text :=
  .of "create table t (x int)\nGO\n\nGO 3\ninsert into t values (1)\nGO 2\nselect 1\nGO 0\ninsert into u values (1)"

/-- What the script holds. -/
def countedEvents : List Event :=
  [.batch (.of "create table t (x int)\n"), .directive ⟨.of "GO", none⟩, .batch (.of "\n"),
    .directive ⟨.of "GO 3", some 3⟩, .batch (.of "insert into t values (1)\n"), .directive ⟨.of "GO 2", some 2⟩,
    .batch (.of "select 1\n"), .directive ⟨.of "GO 0", some 0⟩, .batch (.of "insert into u values (1)\n")]

/-- Four texts are sent, the last of which is refused: it is the fifth batch. -/
theorem applyOne_executes_countedScript :
    onlyMigration.readWithChecksum (oneScript countedScript) =
        .ok (countedScript, Sha256.hexDigest countedScript.utf8) ∧
      Splitter.unix.splitText false countedScript = .ok countedEvents ∧
      (Execution.run { db := ⟨[], some []⟩ } countedEvents).2.log =
        [.of "create table t (x int)\n", .of "insert into t values (1)\n", .of "insert into t values (1)\n",
          .of "insert into u values (1)\n"] ∧
      applyOne {} .unix (oneScript countedScript) (.of "noon") onlyMigration {} =
        (.error (.execution 1 5 (.noSuchTable (.of "u"))), {}) := by
  have hread := readWithChecksum_oneScript countedScript
  have hsplit : Splitter.unix.splitText false countedScript = .ok countedEvents := by decide +kernel
  have hlog : (Execution.run { db := ⟨[], some []⟩ } countedEvents).2.log =
      [.of "create table t (x int)\n", .of "insert into t values (1)\n", .of "insert into t values (1)\n",
        .of "insert into u values (1)\n"] := by
    decide +kernel
  refine ⟨hread, hsplit, hlog, ?_⟩
  have h := applyOne_executes {} .unix (oneScript countedScript) (.of "noon") onlyMigration hread hsplit {}
  have hbegin : Database.beginTransaction {} = .ok ⟨[], some []⟩ := rfl
  have hrun : (Execution.run { db := ⟨[], some []⟩ } countedEvents).1 = .error (5, .noSuchTable (.of "u")) := by
    decide +kernel
  have hsaved : (Execution.run { db := ⟨[], some []⟩ } countedEvents).2.db.saved = some [] := by decide +kernel
  simp only [hbegin, hrun, Database.rollback, hsaved] at h
  exact h.2

end Runner

end BatchMigrate
