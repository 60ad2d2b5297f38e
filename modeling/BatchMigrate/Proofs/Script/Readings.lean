import BatchMigrate.Proofs.Script.Restart
import BatchMigrate.Proofs.Script.Run

/-!
# Three ways to read a source

A source is read on demand, event by event; or its events are handed over one by one and counted; or it is split as a
whole. All three find the same (`Splitter.Reads`), namely the items of its lines: the pairs that the directives close,
and then what the end of the script leaves (`Splitter.lineItems_eq`). A source that fails hides the line before the
failure, because that line would only be scanned when it is known whether another one follows
(`Splitter.itemsFrom_failed`).
-/

namespace BatchMigrate

/-! ## Reading on demand -/

/-- A run that has some items to give gives them, and then nothing for ever. -/
theorem Run.pull_remaining {sp : Splitter} {r : Run} {items : List Item} (h : r.remaining sp = items) (n : Nat) :
    pull sp (items.length + n) r = items.map some ++ List.replicate n none := by
  induction items generalizing r with
  | nil =>
    have hnone : ∀ i, (r.remaining sp)[i]? = none := fun i => by rw [h, List.getElem?_nil]
    rw [List.length_nil, Nat.zero_add, pull_eq, List.map_nil, List.nil_append]
    simp only [hnone, List.map_const', List.length_range]
  | cons item items ih =>
    obtain ⟨hhead, htail⟩ := takes_next sp r
    rw [h] at hhead htail
    rw [List.length_cons, Nat.succ_add, pull, hhead, ih htail]
    rfl

/-! ## The items of a source -/

namespace Scanned

/-- The events that a line closes. -/
def flushed (x : Scanned) : List Event :=
  match x.outcome with
  | .content => []
  | .directive d => [.batch x.before.pending, .directive d]

/-- The state in which the scan goes on after a line. -/
def next (x : Scanned) : ScanState :=
  match x.outcome with
  | .content => x.after
  | .directive _ => x.after.takePending.2

end Scanned

namespace Splitter

/-- The state at the end of some lines. -/
def final (sp : Splitter) (s : ScanState) (lines : List Text) : ScanState :=
  ((sp.scan s lines).getLast?.map Scanned.next).getD s

variable {sp : Splitter}

theorem final_cons {s s' : ScanState} {line : Text} {rest : List Text} {x : Scanned}
    (h : sp.scan s (line :: rest) = x :: sp.scan s' rest) (hx : x.next = s') :
    sp.final s (line :: rest) = sp.final s' rest := by
  rw [final, final, h, List.getLast?_cons, ← hx]
  cases (sp.scan x.next rest).getLast? <;> rfl

variable (sp) in
/-- **The items of lines** are the pairs that their directives close, and then what is left at the end. -/
theorem lineItems_eq : ∀ (s : ScanState) (lines : List Text),
    sp.lineItems s lines = ((sp.scan s lines).flatMap Scanned.flushed).map .ok ++ closing (sp.final s lines)
  | s, [] => rfl
  | s, line :: rest => by
    cases hd : s.directive? sp.separator line with
    | none =>
      have hscan : sp.scan s (line :: rest) = _ := scan_of_content hd
      rw [lineItems_of_content hd, lineItems_eq, final_cons hscan rfl, hscan, List.flatMap_cons]
      rfl
    | some d =>
      have hscan : sp.scan s (line :: rest) = _ := scan_of_directive hd
      rw [lineItems_of_directive hd, lineItems_eq, final_cons hscan rfl, hscan, List.flatMap_cons]
      rfl

/-- A source that ends has the items of its lines. -/
theorem itemsFrom_finished {more : List Answer} (hm : more = [] ∨ ∃ rest, more = .finished :: rest) :
    ∀ (s : ScanState) (held : Text) (rest : List Text),
      sp.itemsFrom s held (rest.map .line ++ more) = sp.lineItems s (held :: rest)
  | s, held, [] => by
    rw [← itemsFrom_lines]
    rcases hm with rfl | ⟨rest, rfl⟩ <;> rfl
  | s, held, ahead :: rest => by
    rcases sp.scanLine_cases held false s with ⟨d, _, he⟩ | ⟨_, he⟩ <;>
      simp [itemsFrom, lineItems, he, itemsFrom_finished hm]

/-- **A source that fails** has the pairs that are closed before its last line, and then the fault. -/
theorem itemsFrom_failed (fault : ReadFault) (more : List Answer) : ∀ (s : ScanState) (held : Text) (rest : List Text),
    sp.itemsFrom s held (rest.map .line ++ .failed fault :: more) =
      (sp.feed s (held :: rest).dropLast).1.map .ok ++ [.error (.source fault)]
  | s, held, [] => rfl
  | s, held, ahead :: rest => by
    rcases sp.scanLine_cases held false s with ⟨d, _, he⟩ | ⟨_, he⟩ <;>
      simp [itemsFrom, feed, he, itemsFrom_failed fault more, ScanState.takePending]

/-! ## The three readings -/

/-- The value of a reading, unless it met a fault. -/
def orFault {α : Type} (fault : Option SplitFault) (value : α) : Except SplitFault α :=
  match fault with
  | none => .ok value
  | some fault => .error fault

/-- What reading a source finds: on demand, it gives the events, the fault if there is one, and then nothing for ever;
handing over, it hands over the events and gives their number or the fault; and it splits into the events if there is no
fault, and otherwise only gives the fault. -/
structure Reads (sp : Splitter) (stripComments : Bool) (source : Source) (events : List Event)
    (fault : Option SplitFault) : Prop where
  onDemand : ∀ n, Run.pull sp (events.length + fault.toList.length + n) (.start stripComments source) =
    events.map (fun e => some (.ok e)) ++ fault.toList.map (fun f => some (.error f)) ++ List.replicate n none
  handed : sp.process stripComments source = (events, orFault fault events.length)
  whole : sp.split stripComments source = orFault fault events

theorem Reads.of_items {stripComments : Bool} {source : Source} {events : List Event} {fault : Option SplitFault}
    (h : sp.items stripComments source = events.map .ok ++ fault.toList.map .error) :
    sp.Reads stripComments source events fault := by
  have hd : delivered (sp.items stripComments source) = (events, fault) := by
    rw [h, delivered_append]
    cases fault <;> simp [delivered]
  refine ⟨fun n => ?_, ?_, ?_⟩
  · have hpull := Run.pull_remaining ((Run.remaining_start sp stripComments source).trans h) n
    simpa [Function.comp_def] using hpull
  · rw [process, hd]
    cases fault <;> rfl
  · rw [split, hd]
    cases fault <;> rfl

/-- The lines of a source, and how it goes on after them. -/
theorem exists_lines : ∀ answers : List Answer, ∃ (lines : List Text) (more : List Answer),
    answers = lines.map .line ++ more ∧
      ((more = [] ∨ ∃ rest, more = .finished :: rest) ∨ ∃ fault rest, more = .failed fault :: rest)
  | [] => ⟨[], [], rfl, Or.inl (Or.inl rfl)⟩
  | .finished :: rest => ⟨[], _, rfl, Or.inl (Or.inr ⟨rest, rfl⟩)⟩
  | .failed fault :: rest => ⟨[], _, rfl, Or.inr ⟨fault, rest, rfl⟩⟩
  | .line text :: answers => by
    obtain ⟨lines, more, rfl, hm⟩ := exists_lines answers
    exact ⟨text :: lines, more, rfl, hm⟩

/-- The items of a source that ends. -/
theorem items_finished {stripComments : Bool} {lines : List Text} {more : List Answer} {asked : Nat}
    (hm : more = [] ∨ ∃ rest, more = .finished :: rest) :
    sp.items stripComments ⟨lines.map .line ++ more, asked⟩ = sp.lineItems (.start stripComments) lines := by
  cases lines with
  | nil => rcases hm with rfl | ⟨rest, rfl⟩ <;> rfl
  | cons first rest => exact itemsFrom_finished hm _ first rest

/-- The items of a source that fails. -/
theorem items_failed {stripComments : Bool} {lines : List Text} {fault : ReadFault} {more : List Answer} {asked : Nat} :
    sp.items stripComments ⟨lines.map .line ++ .failed fault :: more, asked⟩ =
      (sp.feed (.start stripComments) lines.dropLast).1.map .ok ++ [.error (.source fault)] := by
  cases lines with
  | nil => rfl
  | cons first rest => exact itemsFrom_failed fault more _ first rest

variable (sp) in
theorem reads_failed (stripComments : Bool) (lines : List Text) (fault : ReadFault) (more : List Answer) (asked : Nat) :
    sp.Reads stripComments ⟨lines.map .line ++ .failed fault :: more, asked⟩
      (sp.feed (.start stripComments) lines.dropLast).1 (some (.source fault)) :=
  Reads.of_items items_failed

variable (sp) in
theorem reads_finished (stripComments : Bool) (lines : List Text) {more : List Answer}
    (hm : more = [] ∨ ∃ rest, more = .finished :: rest) (asked : Nat) :
    let closed := (sp.scan (.start stripComments) lines).flatMap Scanned.flushed
    match (sp.final (.start stripComments) lines).finish.1 with
    | .ok sql => sp.Reads stripComments ⟨lines.map .line ++ more, asked⟩ (closed ++ sql.toList.map .batch) none
    | .error fault => sp.Reads stripComments ⟨lines.map .line ++ more, asked⟩ closed (some fault) := by
  intro closed
  have hitems : sp.items stripComments ⟨lines.map .line ++ more, asked⟩ =
      closed.map .ok ++ closing (sp.final (.start stripComments) lines) := by
    rw [items_finished hm, lineItems_eq]
  unfold closing at hitems
  split <;> rename_i hfinish <;> apply Reads.of_items <;> rw [hitems, hfinish]
  · rename_i sql
    cases sql <;> simp
  · rfl

/-- **The three readings agree.** A source that fails after some lines gives the pairs of the directives among all of
these lines but the last one, none of which is scanned as the last line of a script, and then its fault. A source that
ends gives the pairs of the directives among its lines, and then the last batch, if there is one, or the fault of the
open comment. -/
theorem readings_agree (sp : Splitter) (stripComments : Bool) :
    (∀ (lines : List Text) (fault : ReadFault) (more : List Answer) (asked : Nat),
      sp.Reads stripComments ⟨lines.map .line ++ .failed fault :: more, asked⟩
        (sp.feed (.start stripComments) lines.dropLast).1 (some (.source fault))) ∧
    (∀ (lines : List Text) (more : List Answer) (asked : Nat), (more = [] ∨ ∃ rest, more = .finished :: rest) →
      let closed := (sp.scan (.start stripComments) lines).flatMap Scanned.flushed
      match (sp.final (.start stripComments) lines).finish.1 with
      | .ok sql => sp.Reads stripComments ⟨lines.map .line ++ more, asked⟩ (closed ++ sql.toList.map .batch) none
      | .error fault => sp.Reads stripComments ⟨lines.map .line ++ more, asked⟩ closed (some fault)) ∧
    ∀ source, ∃ events fault, sp.Reads stripComments source events fault := by
  refine ⟨reads_failed sp stripComments, fun lines more asked hm => reads_finished sp stripComments lines hm asked,
    fun source => ?_⟩
  obtain ⟨answers, asked⟩ := source
  obtain ⟨lines, more, rfl, hm | ⟨fault, rest, rfl⟩⟩ := exists_lines answers
  · have h := reads_finished sp stripComments lines hm asked
    dsimp only at h
    split at h <;> exact ⟨_, _, h⟩
  · exact ⟨_, _, reads_failed sp stripComments lines fault rest asked⟩

/-- A source that fails after a directive hides it, and one that ends inside a comment has given the pair before. -/
theorem readings_agree_hidden (asked : Nat) :
    unix.Reads false ⟨[.line (.of "a"), .line (.of "GO"), .failed .notFound, .line (.of "b")], asked⟩ []
      (some (.source .notFound)) ∧
    unix.Reads false ⟨[.line (.of "a"), .line (.of "GO"), .line (.of "/* b"), .finished, .line (.of "GO")], asked⟩
      [.batch (.of "a\n"), .directive ⟨.of "GO", none⟩] (some (.unterminatedComment 3)) :=
  ⟨(readings_agree unix false).1 [.of "a", .of "GO"] .notFound [.line (.of "b")] asked,
    (readings_agree unix false).2.1 [.of "a", .of "GO", .of "/* b"] [.finished, .line (.of "GO")] asked
      (Or.inr ⟨_, rfl⟩)⟩

end Splitter

end BatchMigrate
