import BatchMigrate.Proofs.Script.Readings

/-!
# The shape of an event stream

A directive line closes the batch before it, and a run gives the two one right after the other. What a run gives are such
pairs, one for each directive line that it has scanned, and then at most one more item: a batch that holds text, or a
fault (`Splitter.items_eq`). Therefore a directive never comes without the batch that it closes, two batches are never
next to each other, and there are at most two items for each line of the source and one more (`Splitter.pull_shape`).
-/

namespace BatchMigrate

/-! ## The lines of a source -/

/-- The lines among answers, up to the first answer that is none. -/
def Answer.leadingLines : List Answer → List Text
  | .line text :: answers => text :: leadingLines answers
  | _ => []

/-- The lines that a source gives before it ends or fails. -/
def Source.lines (source : Source) : List Text := Answer.leadingLines source.answers

theorem Answer.leadingLines_append {more : List Answer} (h : leadingLines more = []) :
    ∀ lines : List Text, leadingLines (lines.map .line ++ more) = lines
  | [] => h
  | _ :: lines => congrArg _ (leadingLines_append h lines)

/-! ## Pairs and endings -/

/-- A batch with the directive that closed it. -/
structure ClosedBatch where
  sql : Text
  directive : Directive

/-- The pair as items. -/
def ClosedBatch.items (b : ClosedBatch) : List Item := [.ok (.batch b.sql), .ok (.directive b.directive)]

/-- The batch that a line closes, if it is a directive: what was pending before the line. -/
def Scanned.closed? (x : Scanned) : Option ClosedBatch :=
  match x.outcome with
  | .content => none
  | .directive d => some ⟨x.before.pending, d⟩

namespace Splitter

/-- The batches that directives among some lines close, from the begin of a script on. -/
def closed (sp : Splitter) (stripComments : Bool) (lines : List Text) : List ClosedBatch :=
  (sp.scan (.start stripComments) lines).filterMap Scanned.closed?

/-- What may follow the last directive. -/
inductive Ending : List Item → Prop
  | silent : Ending []
  /-- A last batch, which is not empty. -/
  | batch {sql : Text} (h : sql ≠ []) : Ending [.ok (.batch sql)]
  | fault (fault : SplitFault) : Ending [.error fault]

variable {sp : Splitter} {batches : List ClosedBatch} {ending : List Item}

theorem ending_closing (s : ScanState) : Ending (closing s) := by
  cases hl : s.lex with
  | blockComment k =>
    rw [closing_of_blockComment hl]
    exact .fault _
  | plain | lineComment =>
    rw [closing_of_not_inBlock (by rw [hl]; rfl)]
    split
    · exact .silent
    · rename_i hpending
      exact .batch hpending

theorem Ending.length_le (h : Ending ending) : ending.length ≤ 1 := by
  cases h <;> simp

/-- An ending holds no directive. -/
theorem Ending.not_directive (h : Ending ending) (d : Directive) : .ok (.directive d) ∉ ending := by
  cases h <;> simp

theorem length_items : ∀ batches : List ClosedBatch, (batches.flatMap ClosedBatch.items).length = 2 * batches.length
  | [] => rfl
  | b :: batches => by
    rw [List.flatMap_cons, List.length_append, length_items batches, List.length_cons, ClosedBatch.items]
    simp only [List.length_cons, List.length_nil]
    omega

theorem length_closed_le (stripComments : Bool) (lines : List Text) :
    (sp.closed stripComments lines).length ≤ lines.length := by
  have hscan := congrArg List.length (scan_map_line sp (.start stripComments) lines)
  rw [List.length_map] at hscan
  exact hscan ▸ List.length_filterMap_le _ _

/-- The events that lines close are their pairs. -/
theorem map_flushed (xs : List Scanned) :
    (xs.flatMap Scanned.flushed).map .ok = (xs.filterMap Scanned.closed?).flatMap ClosedBatch.items := by
  induction xs with
  | nil => rfl
  | cons x xs ih =>
    rw [List.flatMap_cons, List.map_append, ih]
    cases hx : x.outcome with
    | content =>
      have hnone : x.closed? = none := by rw [Scanned.closed?, hx]
      rw [Scanned.flushed, hx, List.filterMap_cons_none hnone]
      rfl
    | directive d =>
      have hsome : x.closed? = some ⟨x.before.pending, d⟩ := by rw [Scanned.closed?, hx]
      rw [Scanned.flushed, hx, List.filterMap_cons_some hsome, List.flatMap_cons]
      rfl

/-- Lines that go on close the same batches as lines that end a script: the last of them is terminated in another way, but
it does not close what it adds to. -/
theorem fst_feed : ∀ (s : ScanState) (lines : List Text),
    (sp.feed s lines).1 = (sp.scan s lines).flatMap Scanned.flushed
  | _, [] => rfl
  | s, line :: rest => by
    rcases sp.scanLine_cases line false s with ⟨d, hd, he⟩ | ⟨hd, he⟩
    · rw [feed, he, scan_of_directive hd, List.flatMap_cons, ← fst_feed]
      rfl
    · rw [feed, he, scan_of_content hd, List.flatMap_cons]
      cases rest with
      | nil => rfl
      | cons next rest => exact fst_feed _ (next :: rest)

variable (sp) in
/-- **The items of a source** are the pairs that its first lines close, and then an ending. A source that fails hides the
line before the failure. -/
theorem items_eq (stripComments : Bool) (source : Source) : ∃ scanned ending, scanned <+: source.lines ∧ Ending ending ∧
    sp.items stripComments source = (sp.closed stripComments scanned).flatMap ClosedBatch.items ++ ending := by
  obtain ⟨answers, asked⟩ := source
  obtain ⟨lines, more, rfl, hm | ⟨fault, rest, rfl⟩⟩ := exists_lines answers
  · have hlines : Source.lines ⟨lines.map .line ++ more, asked⟩ = lines :=
      Answer.leadingLines_append (by rcases hm with rfl | ⟨rest, rfl⟩ <;> rfl) lines
    refine ⟨lines, _, ?_, ending_closing (sp.final (.start stripComments) lines), ?_⟩
    · exact hlines.symm ▸ List.prefix_refl lines
    · rw [items_finished hm, lineItems_eq, map_flushed]
      rfl
  · have hlines : Source.lines ⟨lines.map .line ++ .failed fault :: rest, asked⟩ = lines :=
      Answer.leadingLines_append rfl lines
    refine ⟨lines.dropLast, _, ?_, .fault (.source fault), ?_⟩
    · rw [hlines]
      exact List.dropLast_prefix lines
    · rw [items_failed, fst_feed, map_flushed]
      rfl

/-! ## What stands next to what -/

/-- A directive comes right after the batch that it closed. -/
theorem exists_batch_before {d : Directive} {after : List Item} (h : Ending ending) :
    ∀ {batches : List ClosedBatch} {before : List Item},
      batches.flatMap ClosedBatch.items ++ ending = before ++ .ok (.directive d) :: after →
        ∃ earlier sql, before = earlier ++ [.ok (.batch sql)] ∧ ⟨sql, d⟩ ∈ batches
  | [], before, he => by
    rw [List.flatMap_nil, List.nil_append] at he
    exact absurd (he ▸ List.mem_append_right _ List.mem_cons_self) (h.not_directive d)
  | b :: batches, [], he => by cases he
  | b :: batches, [first], he => by
    cases he
    exact ⟨[], b.sql, rfl, List.mem_cons_self⟩
  | b :: batches, first :: second :: before, he => by
    obtain ⟨hfirst, he⟩ := List.cons_eq_cons.1 he
    obtain ⟨hsecond, he⟩ := List.cons_eq_cons.1 he
    obtain ⟨earlier, sql, rfl, hmem⟩ := exists_batch_before h he
    exact ⟨first :: second :: earlier, sql, rfl, List.mem_cons_of_mem _ hmem⟩

/-- No two batches are next to each other. -/
theorem not_adjacent_batches (h : Ending ending) (sql sql' : Text) : ∀ batches : List ClosedBatch,
    ¬[.ok (.batch sql), .ok (.batch sql')] <:+: batches.flatMap ClosedBatch.items ++ ending
  | [] => fun hinfix => by
    have hlength : 2 ≤ ending.length := hinfix.length_le
    have hone := h.length_le
    omega
  | b :: batches => by
    have ih := not_adjacent_batches h sql sql' batches
    rw [List.flatMap_cons, List.append_assoc]
    intro hinfix
    rcases List.infix_cons_iff.1 hinfix with hfirst | hinfix
    · -- the batch of the pair is followed by its directive
      simp [List.cons_prefix_cons] at hfirst
    · rcases List.infix_cons_iff.1 hinfix with hsecond | hinfix
      · simp [List.cons_prefix_cons] at hsecond
      · exact ih hinfix

/-- **The shape of an event stream.** From any source, a run gives pairs of a batch and the directive that closed it, then
nothing more, or one batch that is not empty, or one fault; and from then on it gives nothing, however often it is asked.
There are at most as many pairs as lines. So each directive stands right after the batch that it closed, two batches never
stand next to each other, and of `n` lines there come at most `2 * n + 1` items. -/
theorem pull_shape (sp : Splitter) (stripComments : Bool) (source : Source) :
    ∃ scanned ending, scanned <+: source.lines ∧ Ending ending ∧
      let closed := sp.closed stripComments scanned
      let items := closed.flatMap ClosedBatch.items ++ ending
      (∀ n, Run.pull sp (items.length + n) (.start stripComments source) =
        items.map some ++ List.replicate n none) ∧
      closed.length ≤ source.lines.length ∧ items.length ≤ 2 * source.lines.length + 1 ∧
      (∀ before d after, items = before ++ .ok (.directive d) :: after →
        ∃ earlier sql, before = earlier ++ [.ok (.batch sql)] ∧ ⟨sql, d⟩ ∈ closed) ∧
      ∀ sql sql', ¬[.ok (.batch sql), .ok (.batch sql')] <:+: items := by
  obtain ⟨scanned, ending, hscanned, hending, hitems⟩ := items_eq sp stripComments source
  refine ⟨scanned, ending, hscanned, hending, ?_⟩
  intro closed items
  have hclosed : closed.length ≤ source.lines.length :=
    Nat.le_trans (length_closed_le stripComments scanned) hscanned.length_le
  refine ⟨fun n => ?_, hclosed, ?_, fun before d after => exists_batch_before hending, fun sql sql' =>
    not_adjacent_batches hending sql sql' closed⟩
  · exact Run.pull_remaining ((Run.remaining_start sp stripComments source).trans hitems) n
  · have hone := hending.length_le
    rw [List.length_append, length_items]
    omega

end Splitter

end BatchMigrate
