import BatchMigrate.Cli.Run
import BatchMigrate.Proofs.Script.Lines
import BatchMigrate.Proofs.Script.Restart
import BatchMigrate.Proofs.Script.Segments
import BatchMigrate.Proofs.Script.Separator

/-!
# Splitting what has been printed

With comments kept, the printed events of a script split into the same events. The lines of what is printed are those of
the script, but for two changes (`Splitter.printedLines`): a directive line is replaced by its token, and an empty last
line whose batch is empty is missing. Neither changes the items (`Splitter.lineItems_printedLines`).
-/

namespace BatchMigrate

namespace Splitter

variable {sp : Splitter}

/-- The lines of the printed events of a script whose comments are kept. -/
def printedLines (sp : Splitter) (s : ScanState) : List Text → List Text
  | [] => []
  | line :: rest =>
    match s.directive? sp.separator line with
    | some d => d.token :: printedLines sp (s.advance line).takePending.2 rest
    | none =>
      if rest = [] ∧ s.pending ++ line = [] then []
      else line :: printedLines sp (s.absorb sp.terminator line rest.isEmpty) rest

/-- A line that is printed is a line of the script or the token of one. -/
theorem mem_printedLines {x : Text} : ∀ {lines : List Text} {s : ScanState}, s.stripComments = false →
    x ∈ sp.printedLines s lines → x ∈ lines ∨ ∃ line ∈ lines, ∃ start d, start <+: line ∧
      sp.separator.recognize start = some d ∧ x = d.token
  | [], _, _, h => by cases h
  | line :: rest, s, hs, h => by
    have hrest : ∀ s' : ScanState, s'.stripComments = false → x ∈ sp.printedLines s' rest →
        x ∈ line :: rest ∨ ∃ l ∈ line :: rest, ∃ start d, start <+: l ∧
          sp.separator.recognize start = some d ∧ x = d.token := by
      intro s' hs' hx
      rcases mem_printedLines hs' hx with hx | ⟨l, hl, hx⟩
      · exact Or.inl (List.mem_cons_of_mem _ hx)
      · exact Or.inr ⟨l, List.mem_cons_of_mem _ hl, hx⟩
    unfold printedLines at h
    split at h
    · rename_i d hd
      rcases List.mem_cons.1 h with rfl | h
      · exact Or.inr ⟨line, List.mem_cons_self, _, d, Lex.headText_isPrefix _ _ _,
          (ScanState.recognize_of_directive hs hd).2, rfl⟩
      · exact hrest (s.advance line).takePending.2 hs h
    · split at h
      · cases h
      · rcases List.mem_cons.1 h with rfl | h
        · exact Or.inl List.mem_cons_self
        · exact hrest (s.absorb sp.terminator line rest.isEmpty) hs h

/-- A script whose batch holds something goes on in what is printed. -/
theorem printedLines_ne_nil {s : ScanState} (hp : s.pending ≠ []) {lines : List Text} (h : lines ≠ []) :
    sp.printedLines s lines ≠ [] := by
  cases lines with
  | nil => exact absurd rfl h
  | cons line rest =>
    unfold printedLines
    split
    · exact List.cons_ne_nil _ _
    · rw [if_neg fun hn => hp (List.append_eq_nil_iff.1 hn.2).1]
      exact List.cons_ne_nil _ _

/-- With comments kept, a line joins the batch as it is. -/
theorem pending_absorb_of_keep {s : ScanState} (hs : s.stripComments = false) (line : Text) (isLast : Bool) :
    (s.absorb sp.terminator line isLast).pending =
      if isLast = true ∧ s.pending ++ line = [] then [] else s.pending ++ line ++ sp.terminator := by
  cases isLast <;> simp [ScanState.absorb, ScanState.terminate, ScanState.keptText_of_keep hs, hs]

/-- An empty line at the end of a script with an empty batch changes nothing. -/
theorem closing_absorb_nil {s : ScanState} (hp : s.pending = []) :
    closing (s.absorb sp.terminator [] true) = closing s := by
  obtain ⟨strip, lex, pending, n⟩ := s
  cases hp
  cases strip <;> cases lex <;> rfl

/-- **The printed events** of a script whose comments are kept are its printed lines, each with a line feed. -/
theorem renderAll_eq (hT : sp.terminator = ['\n']) : ∀ {lines : List Text} {s : ScanState} {events : List Event},
    s.stripComments = false → sp.lineItems s lines = events.map .ok →
      Event.renderAll events = s.pending ++ (sp.printedLines s lines).flatMap (· ++ ['\n'])
  | [], s, events, _, h => by
    have hlast : events = Scanned.lastEvents sp.terminator s.pending [] := closing_eq_lastEvents h
    rw [hlast, Scanned.lastEvents, Scanned.lastText, List.append_nil, printedLines, List.flatMap_nil, List.append_nil]
    split
    · rename_i hp
      rw [hp]
      rfl
    · simp [Event.renderAll, Event.render]
  | line :: rest, s, events, hs, h => by
    unfold printedLines
    cases hd : s.directive? sp.separator line with
    | some d =>
      rw [lineItems_of_directive hd] at h
      obtain ⟨tail, rfl, ht⟩ := eq_cons_cons_of_map_ok h
      have ih := renderAll_eq hT (s := (s.advance line).takePending.2) hs ht
      have hp : (s.advance line).takePending.2.pending = [] := rfl
      rw [hp, List.nil_append] at ih
      simp only [List.flatMap_cons, ← ih]
      rfl
    | none =>
      rw [lineItems_of_content hd] at h
      have ih := renderAll_eq hT (s := s.absorb sp.terminator line rest.isEmpty) hs h
      rw [pending_absorb_of_keep hs] at ih
      by_cases hlast : rest = [] ∧ s.pending ++ line = []
      · simp only [List.isEmpty_iff, hlast, and_self, if_true] at ih ⊢
        rw [ih, printedLines, (List.append_eq_nil_iff.1 hlast.2).1]
      · simp only [List.isEmpty_iff, hlast, if_false] at ih ⊢
        rw [ih, hT, List.flatMap_cons, List.append_assoc, List.append_assoc, List.append_assoc]

/-- **The printed lines** have the items of the script. -/
theorem lineItems_printedLines : ∀ (lines : List Text) {s : ScanState}, s.stripComments = false →
    sp.lineItems s (sp.printedLines s lines) = sp.lineItems s lines
  | [], _, _ => rfl
  | line :: rest, s, hs => by
    unfold printedLines
    cases hd : s.directive? sp.separator line with
    | some d =>
      have htoken := ScanState.directive?_token hs hd
      have hnext : (s.advance d.token).takePending.2 = (s.advance line).takePending.2 := by
        rw [ScanState.takePending_advance htoken, ScanState.takePending_advance hd]
      have ih := lineItems_printedLines rest (s := (s.advance line).takePending.2) hs
      rw [lineItems_of_directive hd, lineItems_of_directive htoken, hnext, ih]
    | none =>
      rw [lineItems_of_content hd]
      by_cases hlast : rest = [] ∧ s.pending ++ line = []
      · obtain ⟨rfl, hempty⟩ := hlast
        obtain ⟨hp, rfl⟩ := List.append_eq_nil_iff.1 hempty
        simp only [hempty, and_self, if_true]
        exact (closing_absorb_nil hp).symm
      · have ih := lineItems_printedLines rest (s := s.absorb sp.terminator line rest.isEmpty) hs
        have hlen : (sp.printedLines (s.absorb sp.terminator line rest.isEmpty) rest).isEmpty = rest.isEmpty := by
          cases rest with
          | nil => rfl
          | cons next rest =>
            have hp : (s.absorb sp.terminator line false).pending ≠ [] := by
              rw [pending_absorb_of_keep hs]
              simp [sp.terminator_ne_nil]
            exact List.isEmpty_eq_false_iff.2 (printedLines_ne_nil hp (List.cons_ne_nil next rest))
        simp only [hlast, if_false]
        rw [lineItems_of_content hd, hlen, ih]

/-! ## Texts -/

/-- A text is read as its lines. -/
theorem source_text (t : Text) :
    ByteReader.source { chunks := [t.utf8] } = .ofLines (Text.lines '\n' t) := by
  have hrest : ByteReader.rest { chunks := [t.utf8] } = t.utf8 := List.append_nil _
  rw [ByteReader.source, ByteReader.answers_text hrest, Source.ofLines]

/-- A text splits into the items of its lines. -/
theorem splitText_eq_ok {t : Text} {stripComments : Bool} {events : List Event} :
    sp.splitText stripComments t = .ok events ↔
      sp.lineItems (.start stripComments) (Text.lines '\n' t) = events.map .ok := by
  rw [splitText, source_text, split_eq_ok, items_ofLines]

variable (sp) in
/-- Lines without a carriage return at the end are printed as lines. -/
theorem printedLines_whole {lines : List Text} (hn : ∀ line ∈ lines, '\n' ∉ line)
    (hr : ∀ line ∈ lines, line.getLast? ≠ some '\r') {s : ScanState} (hs : s.stripComments = false) :
    ∀ x ∈ sp.printedLines s lines, '\n' ∉ x ∧ Text.bare '\n' x = x := by
  intro x hx
  have hbare : x.getLast? ≠ some '\r' → Text.bare '\n' x = x := fun h => if_neg fun hc => h hc.2
  rcases mem_printedLines hs hx with hx | ⟨line, hl, start, d, hstart, hd, rfl⟩
  · exact ⟨hn x hx, hbare (hr x hx)⟩
  · refine ⟨fun hm => ?_, hbare fun hlast => ?_⟩
    · exact (Separator.mem_of_mem_token hd hm).elim (by decide) fun hm => hn line hl (hstart.subset hm)
    · exact absurd ((Separator.space_token hd).2 _ hlast) (by decide)

theorem terminator_of_ofTexts {terminator keyword : Text} (h : ofTexts terminator keyword = .ok sp) :
    sp.terminator = terminator := by
  obtain ⟨sp₀, h₀, hw⟩ := exists_of_bind_eq_ok h
  obtain ⟨separator, _, rfl⟩ := exists_of_map_eq_ok hw
  unfold ofTerminator at h₀
  split at h₀
  · cases h₀
    rfl
  · cases h₀

end Splitter

namespace Cli

/-- **Printed events split back.** If a text splits with its comments kept, and no line that is read from it ends with a
carriage return, then what is printed for it splits into the same events. -/
theorem splitText_split_stdout {separator : Text} {sp : Splitter} (hsp : Splitter.ofTexts ['\n'] separator = .ok sp)
    {script : Text} {events : List Event} (h : sp.splitText false script = .ok events)
    (hr : ∀ line, .line line ∈ (ByteReader.source { chunks := [script.utf8] }).answers → line.getLast? ≠ some '\r')
    {d : Disk} {stdin : List UInt8} {input : Option Path}
    (hin : inputSource d stdin input = .ok (ByteReader.source { chunks := [script.utf8] })) :
    let printed := (split d stdin input separator false .text).stdout
    printed = Event.renderAll events ∧ sp.splitText false printed = .ok events := by
  have hT := Splitter.terminator_of_ofTexts hsp
  have hprinted : (split d stdin input separator false .text).stdout = Event.renderAll events := by
    have hd := Splitter.delivered_append events []
    rw [List.append_nil, ← Splitter.split_eq_ok.1 h] at hd
    simp only [split, hsp, hin, hd, Splitter.delivered, List.append_nil]
  rw [Splitter.splitText_eq_ok] at h
  have hlines : ∀ line ∈ Text.lines '\n' script, line.getLast? ≠ some '\r' := fun line hl =>
    hr line (by rw [Splitter.source_text]; exact List.mem_map_of_mem hl)
  have hwhole := Splitter.printedLines_whole sp (fun _ => Text.not_mem_of_mem_lines) hlines
    (s := .start false) rfl
  have hread : Text.lines '\n' (Event.renderAll events) = sp.printedLines (.start false) (Text.lines '\n' script) := by
    rw [Splitter.renderAll_eq hT (s := .start false) rfl h]
    exact Text.lines_flatMap hwhole
  intro printed
  refine ⟨hprinted, ?_⟩
  show sp.splitText false (split d stdin input separator false .text).stdout = _
  rw [hprinted, Splitter.splitText_eq_ok, hread, Splitter.lineItems_printedLines _ rfl, h]

/-- A script with a separator inside a comment, indented separators with a count and with comments after them, and an
empty line at its end. -/
def commentedScript : Text := .of "a /*\n  GO\n*/ b\n\t go \t 2 -- twice\nGO /* once */\n\nGO\n\n"

theorem splitText_split_stdout_commentedScript :
    let events : List Event := [.batch (.of "a /*\n  GO\n*/ b\n"), .directive ⟨.of "go 2", some 2⟩, .batch [],
      .directive ⟨.of "GO", none⟩, .batch (.of "\n"), .directive ⟨.of "GO", none⟩]
    let printed := (split { root := .folder [] } commentedScript.utf8 none (.of "GO") false .text).stdout
    printed = Event.renderAll events ∧ Splitter.unix.splitText false printed = .ok events := by
  have hanswers : (ByteReader.source { chunks := [commentedScript.utf8] }).answers =
      [.line (.of "a /*"), .line (.of "  GO"), .line (.of "*/ b"), .line (.of "\t go \t 2 -- twice"),
        .line (.of "GO /* once */"), .line [], .line (.of "GO"), .line []] := by
    decide +kernel
  have hr : ∀ line, .line line ∈ (ByteReader.source { chunks := [commentedScript.utf8] }).answers →
      line.getLast? ≠ some '\r' := by
    intro line hl
    rw [hanswers] at hl
    simp only [List.mem_cons, Answer.line.injEq, List.not_mem_nil, or_false] at hl
    rcases hl with rfl | rfl | rfl | rfl | rfl | rfl | rfl | rfl <;> decide
  have hsp : Splitter.ofTexts ['\n'] (.of "GO") = .ok .unix := rfl
  exact splitText_split_stdout hsp (by decide +kernel) hr rfl

end Cli

end BatchMigrate
