import Mathlib.Data.List.Basic
import Mathlib.Data.List.Induction
import BatchMigrate.Proofs.Script.Reprint
import BatchMigrate.Proofs.Script.Stream

/-!
# Directives in what is printed

The events of a script are printed one after the other, a directive as a line. It stands on a line of its own if what has
been printed before it is empty or ends with a line feed (`Text.AtLineStart`), which depends on the batch that it closes.
The line feed after a line is left out of a batch if it lies inside a stripped comment; so a batch ends in the middle of a
line just when the lines right before its directive, all of which end inside a stripped comment, keep any text
(`Scanned.CutShort`). With comments kept that never happens. `Cli.split_stdout_directives` says so of all inputs.
-/

namespace BatchMigrate

/-- The text is empty or ends with a line feed. -/
def Text.AtLineStart (t : Text) : Prop := t = [] ∨ t.getLast? = some '\n'

instance (t : Text) : Decidable t.AtLineStart := inferInstanceAs (Decidable (_ ∨ _))

namespace Text

theorem atLineStart_nil : AtLineStart [] := .inl rfl

theorem atLineStart_concat (t : Text) : AtLineStart (t ++ ['\n']) := .inr List.getLast?_concat

theorem atLineStart_iff_of_ne_nil {t : Text} (h : t ≠ []) : t.AtLineStart ↔ t.getLast? = some '\n' := or_iff_right h

/-- After a line start it depends on the text that follows. -/
theorem atLineStart_append {t u : Text} (ht : t.AtLineStart) : AtLineStart (t ++ u) ↔ u.AtLineStart := by
  by_cases hu : u = []
  · rw [hu, List.append_nil]
    exact iff_of_true ht atLineStart_nil
  · rw [atLineStart_iff_of_ne_nil hu, atLineStart_iff_of_ne_nil (List.append_ne_nil_of_right_ne_nil _ hu),
      List.getLast?_append_of_ne_nil _ hu]

end Text

/-! ## Batches that end in the middle of a line -/

namespace ScanState

/-- A line keeps none but its own characters. -/
theorem keptText_subset (s : ScanState) (line : Text) : s.keptText line ⊆ line := by
  have hfull : Mark.fullText (s.marks line) = line := Lex.fullText_mark _ _ line
  conv_rhs => rw [← hfull]
  unfold keptText kept
  split
  · exact List.map_subset _ (List.filter_subset_self _)
  · exact List.Subset.refl _

end ScanState

namespace Scanned

/-- The line break after the line lies inside a stripped comment, and is left out. -/
def breakLeftOut (x : Scanned) : Bool := x.after.lex.inBlock && x.before.stripComments

/-- The last text that is kept is followed by nothing but line breaks that are left out. -/
def CutShort (body : List Scanned) : Prop :=
  ∃ earlier x later, body = earlier ++ x :: later ∧ x.kept ≠ [] ∧ ∀ y ∈ x :: later, y.breakLeftOut = true

theorem not_cutShort_nil : ¬CutShort [] := by
  rintro ⟨earlier, x, later, h, -⟩
  exact absurd h.symm (List.append_ne_nil_of_right_ne_nil _ (List.cons_ne_nil x later))

/-- One more line at the end. -/
theorem cutShort_concat {body : List Scanned} {x : Scanned} :
    CutShort (body ++ [x]) ↔ x.breakLeftOut = true ∧ (x.kept ≠ [] ∨ CutShort body) := by
  constructor
  · rintro ⟨earlier, y, later, he, hkept, hout⟩
    rcases List.eq_nil_or_concat later with rfl | ⟨later, z, rfl⟩
    · obtain ⟨-, rfl⟩ := List.append_singleton_inj.1 he
      exact ⟨hout x List.mem_cons_self, .inl hkept⟩
    · rw [List.concat_eq_append, ← List.cons_append, ← List.append_assoc] at he
      obtain ⟨rfl, rfl⟩ := List.append_singleton_inj.1 he
      refine ⟨hout x (by simp), .inr ⟨earlier, y, later, rfl, hkept, fun z hz => hout z ?_⟩⟩
      rw [List.concat_eq_append, ← List.cons_append]
      exact List.mem_append_left _ hz
  · rintro ⟨hx, hkept | ⟨earlier, y, later, rfl, hkept, hout⟩⟩
    · exact ⟨body, x, [], rfl, hkept, by simpa using hx⟩
    · refine ⟨earlier, y, later ++ [x], by simp, hkept, ?_⟩
      rw [← List.cons_append]
      exact List.forall_mem_append.2 ⟨hout, by simpa using hx⟩

/-- **A batch ends a line** iff it is not cut short. -/
theorem atLineStart_iff {body : List Scanned} (hn : ∀ x ∈ body, '\n' ∉ x.line) :
    Text.AtLineStart (body.flatMap (broken ['\n'])) ↔ ¬CutShort body := by
  induction body using List.reverseRecOn with
  | nil => exact iff_of_true Text.atLineStart_nil not_cutShort_nil
  | append_singleton body x ih =>
    obtain ⟨hbody, hx⟩ := List.forall_mem_append.1 hn
    have hbroken : x.broken ['\n'] = x.kept ++ if x.breakLeftOut then [] else ['\n'] := rfl
    rw [List.flatMap_append, List.flatMap_singleton, hbroken, cutShort_concat]
    cases hout : x.breakLeftOut with
    | false =>
      rw [if_neg Bool.false_ne_true, ← List.append_assoc]
      exact iff_of_true (Text.atLineStart_concat _) fun h => Bool.false_ne_true h.1
    | true =>
      rw [if_pos rfl, List.append_nil]
      by_cases hkept : x.kept = []
      · rw [hkept, List.append_nil, ih hbody]
        simp
      · refine iff_of_false (fun h => ?_) fun h => h ⟨rfl, .inl hkept⟩
        rw [Text.atLineStart_iff_of_ne_nil (List.append_ne_nil_of_right_ne_nil _ hkept),
          List.getLast?_append_of_ne_nil _ hkept] at h
        exact hx x List.mem_cons_self (x.before.keptText_subset x.line (List.mem_of_getLast? h))

/-- With comments kept no batch is cut short. -/
theorem not_cutShort_of_keep {body : List Scanned} (h : ∀ x ∈ body, x.before.stripComments = false) : ¬CutShort body := by
  rintro ⟨earlier, x, later, rfl, -, hout⟩
  have hx := hout x List.mem_cons_self
  rw [breakLeftOut, h x (by simp), Bool.and_false] at hx
  cases hx

end Scanned

/-! ## Directives and the batches that they close -/

/-- The pair as events. -/
def ClosedBatch.events (b : ClosedBatch) : List Event := [.batch b.sql, .directive b.directive]

/-- The pair that the lines of a segment make. -/
def Segment.closedBatch (terminator : Text) (g : Segment Scanned) : ClosedBatch :=
  ⟨g.body.flatMap (Scanned.broken terminator), g.directive⟩

/-- Pairs before which some text is pending. -/
def ClosedBatch.after (pending : Text) : List ClosedBatch → List ClosedBatch
  | [] => []
  | b :: batches => { b with sql := pending ++ b.sql } :: batches

namespace ClosedBatch

theorem after_nil (batches : List ClosedBatch) : after [] batches = batches := by
  cases batches <;> rfl

theorem after_after (p q : Text) (batches : List ClosedBatch) : after p (after q batches) = after (p ++ q) batches := by
  cases batches with
  | nil => rfl
  | cons b batches => rw [after, after, after, List.append_assoc]

end ClosedBatch

namespace Segments

/-- The pairs that segments make. -/
def closedBatches (terminator : Text) (s : Segments Scanned) : List ClosedBatch :=
  s.closed.map (Segment.closedBatch terminator)

/-- A line in front is text that is pending before. -/
theorem closedBatches_cons (terminator : Text) (x : Scanned) (s : Segments Scanned) :
    (s.cons x).closedBatches terminator = ClosedBatch.after (x.broken terminator) (s.closedBatches terminator) := by
  obtain ⟨closed, rest⟩ := s
  cases closed <;> rfl

end Segments

namespace Splitter

variable {sp : Splitter}

/-- **The pairs that lines close** are those of their segments. -/
theorem closed_eq_after : ∀ (lines : List Text) (s : ScanState), (sp.scan s lines).filterMap Scanned.closed? =
    ClosedBatch.after s.pending ((Segments.cut Scanned.outcome (sp.scan s lines)).closedBatches sp.terminator)
  | [], _ => rfl
  | line :: rest, s => by
    cases hd : s.directive? sp.separator line with
    | some d =>
      have ih := closed_eq_after rest (s.advance line).takePending.2
      rw [show (s.advance line).takePending.2.pending = [] from rfl, ClosedBatch.after_nil] at ih
      have hclosed : Scanned.closed? ⟨s, line, .directive d, s.advance line⟩ = some ⟨s.pending, d⟩ := rfl
      rw [scan_of_directive hd, List.filterMap_cons_some hclosed, ih]
      show _ = ClosedBatch.mk (s.pending ++ []) d :: _
      rw [List.append_nil]
      rfl
    | none =>
      have hclosed : Scanned.closed? ⟨s, line, .content, s.absorb sp.terminator line rest.isEmpty⟩ = none := rfl
      rw [scan_of_content hd, List.filterMap_cons_none hclosed, Segments.cut, Segments.closedBatches_cons,
        ClosedBatch.after_after, closed_eq_after rest]
      cases rest with
      | nil => rfl
      | cons next rest => exact congrArg (ClosedBatch.after · _) (pending_absorb s line)

/-- The pairs that the lines of a script close. -/
theorem closed_eq (sp : Splitter) (stripComments : Bool) (lines : List Text) : sp.closed stripComments lines =
    (Segments.cut Scanned.outcome (sp.scan (.start stripComments) lines)).closedBatches sp.terminator := by
  rw [closed, closed_eq_after]
  exact ClosedBatch.after_nil _

/-- **The events of a source** are the pairs of the segments of its first lines, and at most one batch after them. -/
theorem exists_events (sp : Splitter) (stripComments : Bool) (source : Source) : ∃ scanned last, scanned <+: source.lines ∧
    (∀ d, .directive d ∉ last) ∧ (delivered (sp.items stripComments source)).1 =
      ((Segments.cut Scanned.outcome (sp.scan (.start stripComments) scanned)).closedBatches sp.terminator).flatMap
        ClosedBatch.events ++ last := by
  obtain ⟨scanned, ending, hscanned, hending, hitems⟩ := items_eq sp stripComments source
  rw [closed_eq] at hitems
  refine ⟨scanned, (delivered ending).1, hscanned, fun d => ?_, ?_⟩
  · cases hending <;> simp [delivered]
  · have hevents : ∀ batches : List ClosedBatch, batches.flatMap ClosedBatch.items =
        (batches.flatMap ClosedBatch.events).map .ok := fun batches => by
      rw [List.map_flatMap]
      rfl
    rw [hitems, hevents, delivered_append]

end Splitter

/-! ## What is printed -/

namespace Event

theorem renderAll_append (a b : List Event) : renderAll (a ++ b) = renderAll a ++ renderAll b := List.flatMap_append

/-- A directive ends a line. -/
theorem atLineStart_renderAll (batches : List ClosedBatch) :
    (renderAll (batches.flatMap ClosedBatch.events)).AtLineStart := by
  induction batches with
  | nil => exact Text.atLineStart_nil
  | cons b batches ih =>
    have hpair : renderAll b.events = b.sql ++ b.directive.token ++ ['\n'] := by
      simp [renderAll, ClosedBatch.events, render]
    rw [List.flatMap_cons, renderAll_append, hpair, Text.atLineStart_append (Text.atLineStart_concat _)]
    exact ih

end Event

theorem Answer.mem_of_mem_leadingLines {line : Text} : ∀ {answers : List Answer}, line ∈ leadingLines answers →
    .line line ∈ answers
  | .line _ :: _, h => by
    rcases List.mem_cons.1 h with rfl | h
    · exact List.mem_cons_self
    · exact List.mem_cons_of_mem _ (mem_of_mem_leadingLines h)
  | [], h => by cases h
  | .finished :: _, h => by cases h
  | .failed _ :: _, h => by cases h

namespace Cli

/-- No line of an input holds a line feed. -/
theorem not_mem_of_inputSource {d : Disk} {stdin : List UInt8} {input : Option Path} {source : Source}
    (h : inputSource d stdin input = .ok source) : ∀ line ∈ source.lines, '\n' ∉ line := by
  have hread : ∀ bytes, ∀ line ∈ (ByteReader.source { chunks := [bytes] }).lines, '\n' ∉ line := fun bytes line hline =>
    ByteReader.not_mem_of_line_mem (Answer.mem_of_mem_leadingLines hline)
  cases input with
  | none =>
    cases h
    exact hread stdin
  | some path =>
    rw [inputSource] at h
    split at h
    · cases h
      exact hread _
    · cases h
      exact fun line hline => by cases hline
    · cases h

/-- What is printed as plain events are the events up to the first fault. -/
theorem stdout_split {d : Disk} {stdin : List UInt8} {input : Option Path} {separator : Text} {sp : Splitter}
    (hsp : Splitter.ofTexts ['\n'] separator = .ok sp) {source : Source} (hin : inputSource d stdin input = .ok source)
    (stripComments : Bool) : (split d stdin input separator stripComments .text).stdout =
      Event.renderAll (Splitter.delivered (sp.items stripComments source)).1 := by
  rcases hfound : Splitter.delivered (sp.items stripComments source) with ⟨events, _ | fault⟩
  · simp only [split, hsp, hin, hfound]
  · simp only [split, hsp, hin, hfound]
    rfl

/-- **Directives in what is printed.** For every input, and whether comments are kept or stripped, what is printed are the
events of the script: for each segment a batch and the directive that closed it, and at most one batch after them. When the
directive of a segment is printed, what has been printed is empty or ends with a line feed just when the batch is empty or
does, and that is the case unless the lines right before the directive, all of which end inside a stripped comment, keep any
text. With comments kept it is always the case. -/
theorem split_stdout_directives {d : Disk} {stdin : List UInt8} {input : Option Path} {separator : Text} {sp : Splitter}
    (hsp : Splitter.ofTexts ['\n'] separator = .ok sp) {source : Source} (hin : inputSource d stdin input = .ok source)
    (stripComments : Bool) :
    let events := (Splitter.delivered (sp.items stripComments source)).1
    (split d stdin input separator stripComments .text).stdout = Event.renderAll events ∧
    ∃ scanned last, scanned <+: source.lines ∧ (∀ d, .directive d ∉ last) ∧
      let segments := (Segments.cut Scanned.outcome (sp.scan (.start stripComments) scanned)).closed
      events = (segments.map (Segment.closedBatch ['\n'])).flatMap ClosedBatch.events ++ last ∧
      ∀ earlier g later, segments = earlier ++ g :: later →
        let batch := (g.closedBatch ['\n']).sql
        let printed := Event.renderAll ((earlier.map (Segment.closedBatch ['\n'])).flatMap ClosedBatch.events ++ [.batch batch])
        (printed.AtLineStart ↔ batch.AtLineStart) ∧ (printed.AtLineStart ↔ ¬Scanned.CutShort g.body) ∧
          (stripComments = false → printed.AtLineStart) := by
  intro events
  have hT := Splitter.terminator_of_ofTexts hsp
  obtain ⟨scanned, last, hscanned, hlast, hevents⟩ := Splitter.exists_events sp stripComments source
  rw [hT] at hevents
  refine ⟨stdout_split hsp hin stripComments, scanned, last, hscanned, hlast, hevents, ?_⟩
  intro earlier g later hsegments batch printed
  have hbatch : printed.AtLineStart ↔ batch.AtLineStart := by
    show Text.AtLineStart (Event.renderAll (_ ++ _)) ↔ _
    rw [Event.renderAll_append, Text.atLineStart_append (Event.atLineStart_renderAll _)]
    simp [Event.renderAll, Event.render]
  have hmem : ∀ x ∈ g.body, x ∈ sp.scan (.start stripComments) scanned := fun x hx =>
    Splitter.mem_scan_of_mem_bodies (Segments.mem_bodies.2 (.inr ⟨g, by rw [hsegments]; simp, rfl⟩)) hx
  have hcut : printed.AtLineStart ↔ ¬Scanned.CutShort g.body := by
    rw [hbatch]
    exact Scanned.atLineStart_iff fun x hx =>
      not_mem_of_inputSource hin x.line (hscanned.subset (Splitter.line_mem_of_mem_scan (hmem x hx)))
  refine ⟨hbatch, hcut, fun hkeep => hcut.2 (Scanned.not_cutShort_of_keep fun x hx => ?_)⟩
  rw [Splitter.stripComments_of_mem_scan (hmem x hx)]
  exact hkeep

/-- Comments that end on the line of a directive, after lines without text outside them and after one with some. -/
theorem split_stdout_directives_comments :
    let script : Text := .of "/* a\n*/ GO\nb\n/* c\n*/ go 2\nd /* e\n*/ GO\n"
    let d : Disk := { root := .folder [] }
    let source := ByteReader.source { chunks := [script.utf8] }
    let events : List Event := [.batch [], .directive ⟨.of "GO", none⟩, .batch (.of "b\n"), .directive ⟨.of "go 2", some 2⟩,
      .batch (.of "d "), .directive ⟨.of "GO", none⟩]
    Splitter.ofTexts ['\n'] (.of "GO") = .ok .unix ∧ inputSource d script.utf8 none = .ok source ∧
    (split d script.utf8 none (.of "GO") true .text).stdout = Event.renderAll events ∧
    ∃ scanned last, scanned <+: source.lines ∧ (∀ d, .directive d ∉ last) ∧
      let segments := (Segments.cut Scanned.outcome (Splitter.unix.scan (.start true) scanned)).closed
      events = (segments.map (Segment.closedBatch ['\n'])).flatMap ClosedBatch.events ++ last ∧
      ∀ earlier g later, segments = earlier ++ g :: later →
        let batch := (g.closedBatch ['\n']).sql
        let printed := Event.renderAll ((earlier.map (Segment.closedBatch ['\n'])).flatMap ClosedBatch.events ++ [.batch batch])
        (printed.AtLineStart ↔ batch.AtLineStart) ∧ (printed.AtLineStart ↔ ¬Scanned.CutShort g.body) := by
  intro script d source events
  have hsp : Splitter.ofTexts ['\n'] (.of "GO") = .ok .unix := rfl
  have hin : inputSource d script.utf8 none = .ok source := rfl
  have hevents : (Splitter.delivered (Splitter.unix.items true source)).1 = events := by
    rw [show source = .ofLines (Text.lines '\n' script) from Splitter.source_text script]
    decide +kernel
  obtain ⟨hprinted, scanned, last, hscanned, hlast, hsegments, hstart⟩ := split_stdout_directives hsp hin true
  rw [hevents] at hprinted hsegments
  exact ⟨hsp, hin, hprinted, scanned, last, hscanned, hlast, hsegments, fun earlier g later h =>
    ⟨(hstart earlier g later h).1, (hstart earlier g later h).2.1⟩⟩

/-- **A separator that is lost.** A batch that ends inside a stripped comment has no line feed, and its directive is printed
on the same line, where it is no separator any more. -/
theorem split_stdout_glued :
    let script : Text := .of "select 1 /* x\n*/ GO\nselect 2\n"
    let d : Disk := { root := .folder [] }
    let events : List Event := [.batch (.of "select 1 "), .directive ⟨.of "GO", none⟩, .batch (.of "select 2\n")]
    let printed : Text := .of "select 1 GO\nselect 2\n"
    Splitter.unix.splitText true script = .ok events ∧
      (split d script.utf8 none (.of "GO") true .text).stdout = printed ∧
      ¬(Event.renderAll (events.take 1)).AtLineStart ∧ Splitter.unix.splitText true printed = .ok [.batch printed] := by
  intro script d events printed
  have hsp : Splitter.ofTexts ['\n'] (.of "GO") = .ok .unix := rfl
  have hitems : Splitter.unix.items true (ByteReader.source { chunks := [script.utf8] }) = events.map .ok := by
    rw [Splitter.source_text]
    decide +kernel
  refine ⟨Splitter.split_eq_ok.2 hitems, ?_, by decide +kernel, Splitter.splitText_eq_ok.2 (by decide +kernel)⟩
  rw [stdout_split hsp rfl, hitems]
  decide +kernel

end Cli

end BatchMigrate
