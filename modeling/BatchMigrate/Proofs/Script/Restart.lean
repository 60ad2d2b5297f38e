import BatchMigrate.Proofs.Script.Run

/-!
# A directive line begins a script anew

After a directive line a scan stands where it began, but for the number of the line: outside comments and with nothing
pending. What follows a directive line is therefore split as a script of its own, in which all line numbers are greater
(`Splitter.lineItems_later`); so the events of a script are those up to a directive line and those of the lines after it
(`Splitter.split_append_directive`).
-/

namespace BatchMigrate

/-! ## Greater line numbers -/

/-- The state of comments with a greater line number. -/
def Lex.later (k : Nat) : Lex → Lex
  | .blockComment n => .blockComment (n + k)
  | lex => lex

/-- The state of a scan of lines that follow `k` other lines. -/
def ScanState.later (k : Nat) (s : ScanState) : ScanState :=
  { s with lex := s.lex.later k, lineNumber := s.lineNumber + k }

/-- The fault of a script that follows `k` lines. -/
def SplitFault.later (k : Nat) : SplitFault → SplitFault
  | .unterminatedComment n => .unterminatedComment (n + k)
  | fault => fault

/-- The item of a script that follows `k` lines. -/
def Splitter.laterItem (k : Nat) : Item → Item
  | .ok event => .ok event
  | .error fault => .error (fault.later k)

namespace Lex

/-- The number of a line is only remembered. -/
theorem mark_later (k n : Nat) (lex : Lex) (line : Text) :
    (lex.later k).mark (n + k) line = ((lex.mark n line).1, (lex.mark n line).2.later k) := by
  fun_induction Lex.mark n lex line <;> simp_all [mark, later]

theorem inBlock_later (k : Nat) (lex : Lex) : (lex.later k).inBlock = lex.inBlock := by
  cases lex <;> rfl

theorem atLineEnd_later (k : Nat) (lex : Lex) : (lex.later k).atLineEnd = lex.atLineEnd.later k := by
  cases lex <;> rfl

end Lex

namespace ScanState

variable (k : Nat) (s : ScanState)

theorem mark_later (line : Text) : (s.later k).lex.mark ((s.later k).lineNumber + 1) line =
    ((s.lex.mark (s.lineNumber + 1) line).1, (s.lex.mark (s.lineNumber + 1) line).2.later k) := by
  show (s.lex.later k).mark (s.lineNumber + k + 1) line = _
  rw [Nat.add_right_comm, Lex.mark_later]

theorem marks_later (line : Text) : (s.later k).marks line = s.marks line := by
  rw [marks, mark_later]
  rfl

theorem advance_later (line : Text) : (s.later k).advance line = (s.advance line).later k := by
  rw [advance, mark_later, Lex.atLineEnd_later]
  simp only [later, advance, Nat.add_right_comm]

theorem directive?_later (separator : Separator) (line : Text) :
    (s.later k).directive? separator line = s.directive? separator line := by
  have hc : candidate s.stripComments (s.lex.later k) (s.marks line) =
      candidate s.stripComments s.lex (s.marks line) := by
    simp only [candidate, Lex.inBlock_later]
  unfold directive?
  rw [advance_later, marks_later]
  show (if ((s.advance line).lex.later k).inBlock then none else
    (candidate s.stripComments (s.lex.later k) (s.marks line)).bind separator.recognize) = _
  rw [Lex.inBlock_later, hc]

theorem absorb_later (terminator line : Text) (isLast : Bool) :
    (s.later k).absorb terminator line isLast = (s.absorb terminator line isLast).later k := by
  have ht : ∀ lex pending, terminate s.stripComments (Lex.later k lex) terminator isLast pending =
      terminate s.stripComments lex terminator isLast pending := by
    intro lex pending
    simp only [terminate, Lex.inBlock_later]
  unfold absorb keptText
  rw [marks_later, advance_later]
  simp only [later, ht]

end ScanState

/-- **A directive line begins the script anew**, but for the numbers of the lines. -/
theorem ScanState.takePending_advance {s : ScanState} {separator : Separator} {line : Text} {d : Directive}
    (h : s.directive? separator line = some d) :
    (s.advance line).takePending.2 = (start s.stripComments).later (s.lineNumber + 1) := by
  have hl := lex_advance_of_directive h
  unfold takePending
  rw [show s.advance line = { s.advance line with lex := .plain } by rw [← hl]]
  simp only [later, start, advance, Lex.later, Nat.zero_add]

namespace Splitter

variable {sp : Splitter}

theorem closing_later (k : Nat) (s : ScanState) : closing (s.later k) = (closing s).map (laterItem k) := by
  cases hl : s.lex with
  | blockComment n =>
    have hk : (s.later k).lex = .blockComment (n + k) := congrArg (Lex.later k) hl
    rw [closing_of_blockComment hl, closing_of_blockComment hk]
    rfl
  | plain | lineComment =>
    have hb : s.lex.inBlock = false := by rw [hl]; rfl
    have hk : (s.later k).lex.inBlock = false := by rw [← hb]; exact Lex.inBlock_later k s.lex
    have hp : (s.later k).pending = s.pending := rfl
    rw [closing_of_not_inBlock hb, closing_of_not_inBlock hk, hp]
    split <;> rfl

/-- Lines that follow other lines have the same items, with greater line numbers. -/
theorem lineItems_later (k : Nat) : ∀ (lines : List Text) (s : ScanState),
    sp.lineItems (s.later k) lines = (sp.lineItems s lines).map (laterItem k)
  | [], s => closing_later k s
  | line :: rest, s => by
    cases hd : s.directive? sp.separator line with
    | none =>
      have hk : (s.later k).directive? sp.separator line = none := by rw [ScanState.directive?_later, hd]
      rw [lineItems_of_content hd, lineItems_of_content hk, ScanState.absorb_later, lineItems_later]
    | some d =>
      have hk : (s.later k).directive? sp.separator line = some d := by rw [ScanState.directive?_later, hd]
      have ih := lineItems_later k rest (s.advance line).takePending.2
      rw [lineItems_of_directive hd, lineItems_of_directive hk, ScanState.advance_later]
      simp only [List.map_cons, ← ih]
      rfl

/-! ## Lines that go on -/

/-- The state after lines of which none is the last one. -/
def scanAll (sp : Splitter) (s : ScanState) (lines : List Text) : ScanState :=
  lines.foldl (fun s line => (sp.scanLine line false s).2) s

/-- The events that the directives among such lines close, and the state after the lines when the pending text is taken
after each directive. -/
def feed (sp : Splitter) (s : ScanState) : List Text → List Event × ScanState
  | [] => ([], s)
  | line :: rest =>
    match sp.scanLine line false s with
    | (.content, after) => feed sp after rest
    | (.directive d, after) =>
      (.batch after.pending :: .directive d :: (feed sp after.takePending.2 rest).1, (feed sp after.takePending.2 rest).2)

/-- Two scans that differ at most in the pending text. -/
def Abreast (s s' : ScanState) : Prop :=
  s.stripComments = s'.stripComments ∧ s.lex = s'.lex ∧ s.lineNumber = s'.lineNumber

theorem Abreast.eq {s s' : ScanState} (h : Abreast s s') : s' = { s with pending := s'.pending } := by
  obtain ⟨_, _, _, _⟩ := s'
  obtain ⟨rfl, rfl, rfl⟩ := h
  rfl

theorem Abreast.directive?_eq {s s' : ScanState} (h : Abreast s s') (separator : Separator) (line : Text) :
    s'.directive? separator line = s.directive? separator line := by
  rw [h.eq]
  rfl

theorem Abreast.advance {s s' : ScanState} (h : Abreast s s') (line : Text) : Abreast (s.advance line) (s'.advance line) := by
  rw [h.eq]
  exact ⟨rfl, rfl, rfl⟩

theorem abreast_scanLine (s : ScanState) (line : Text) (isLast : Bool) :
    Abreast (s.advance line) (sp.scanLine line isLast s).2 := by
  rcases sp.scanLine_cases line isLast s with ⟨d, _, he⟩ | ⟨_, he⟩ <;> rw [he] <;> exact ⟨rfl, rfl, rfl⟩

theorem Abreast.trans {s s' s'' : ScanState} (h : Abreast s s') (h' : Abreast s' s'') : Abreast s s'' :=
  ⟨h.1.trans h'.1, h.2.1.trans h'.2.1, h.2.2.trans h'.2.2⟩

theorem Abreast.symm {s s' : ScanState} (h : Abreast s s') : Abreast s' s := ⟨h.1.symm, h.2.1.symm, h.2.2.symm⟩

variable (sp) in
/-- Taking the pending text changes nothing else. -/
theorem abreast_feed : ∀ (lines : List Text) {s s' : ScanState}, Abreast s s' →
    Abreast (sp.scanAll s lines) (sp.feed s' lines).2
  | [], _, _, h => h
  | line :: rest, s, s', h => by
    have hs : Abreast (sp.scanLine line false s).2 (s'.advance line) :=
      (abreast_scanLine s line false).symm.trans (h.advance line)
    unfold feed
    rcases sp.scanLine_cases line false s' with ⟨d, _, he⟩ | ⟨_, he⟩ <;> rw [he]
    · exact abreast_feed rest (hs.trans ⟨rfl, rfl, rfl⟩)
    · exact abreast_feed rest (hs.trans ⟨rfl, rfl, rfl⟩)

theorem lineNumber_scanAll : ∀ (lines : List Text) (s : ScanState),
    (sp.scanAll s lines).lineNumber = s.lineNumber + lines.length
  | [], _ => rfl
  | line :: rest, s => by
    have hn : (sp.scanLine line false s).2.lineNumber = s.lineNumber + 1 := (abreast_scanLine s line false).2.2.symm
    show (sp.scanAll (sp.scanLine line false s).2 rest).lineNumber = _
    rw [lineNumber_scanAll, hn, List.length_cons, Nat.add_assoc, Nat.add_comm 1]

theorem stripComments_scanAll : ∀ (lines : List Text) (s : ScanState),
    (sp.scanAll s lines).stripComments = s.stripComments
  | [], _ => rfl
  | line :: rest, s => (stripComments_scanAll rest _).trans (abreast_scanLine s line false).1.symm

/-- Lines that go on give what they close, and then the lines after them give their items. -/
theorem lineItems_append {more : List Text} (hm : more ≠ []) : ∀ (lines : List Text) (s : ScanState),
    sp.lineItems s (lines ++ more) = (sp.feed s lines).1.map .ok ++ sp.lineItems (sp.feed s lines).2 more
  | [], _ => rfl
  | line :: rest, s => by
    have hlast : (rest ++ more).isEmpty = false := by
      rw [List.isEmpty_eq_false_iff]
      exact List.append_ne_nil_of_right_ne_nil rest hm
    unfold feed
    rcases sp.scanLine_cases line false s with ⟨d, hd, he⟩ | ⟨hd, he⟩ <;> rw [he]
    · rw [List.cons_append, lineItems_of_directive hd, lineItems_append hm]
      rfl
    · rw [List.cons_append, lineItems_of_content hd, hlast, lineItems_append hm]

/-- The items of a script around a directive line. -/
theorem lineItems_append_directive {s : ScanState} {before : List Text} {line : Text} {d : Directive}
    (h : (sp.scanAll s before).directive? sp.separator line = some d) (after : List Text) :
    sp.lineItems s (before ++ line :: after) =
      ((sp.feed s before).1 ++ [Event.batch (sp.feed s before).2.pending, Event.directive d]).map .ok ++
        (sp.lineItems (.start s.stripComments) after).map (laterItem (s.lineNumber + before.length + 1)) := by
  have hab : Abreast (sp.scanAll s before) (sp.feed s before).2 := abreast_feed sp before ⟨rfl, rfl, rfl⟩
  have hd : (sp.feed s before).2.directive? sp.separator line = some d := by rw [hab.directive?_eq, h]
  have hs : (sp.feed s before).2.stripComments = s.stripComments := by rw [← hab.1, stripComments_scanAll]
  have hn : (sp.feed s before).2.lineNumber = s.lineNumber + before.length := by rw [← hab.2.2, lineNumber_scanAll]
  rw [lineItems_append (List.cons_ne_nil line after), lineItems_of_directive hd,
    ScanState.takePending_advance hd, lineItems_later, hs, hn]
  simp only [List.map_append, List.map_cons, List.map_nil, List.append_assoc, List.cons_append, List.nil_append]

theorem delivered_laterItem (k : Nat) : ∀ (items : List Item),
    delivered (items.map (laterItem k)) = ((delivered items).1, (delivered items).2.map (SplitFault.later k))
  | [] => rfl
  | .ok event :: rest => by simp only [List.map_cons, laterItem, delivered, delivered_laterItem k rest]
  | .error fault :: rest => rfl

/-- **A script around a directive line.** If the lines before it leave the scan so that a line is a directive, the lines
up to it split into some events, with which each script that begins with them begins; the lines after it are split as a
script of their own, with greater line numbers, at once and on demand. -/
theorem split_append_directive (sp : Splitter) (stripComments : Bool) {before : List Text} {line : Text} {isLast : Bool}
    {d : Directive} (h : (sp.scanLine line isLast (sp.scanAll (.start stripComments) before)).1 = .directive d) :
    ∃ first, sp.split stripComments (.ofLines (before ++ [line])) = .ok first ∧ ∀ after,
      sp.split stripComments (.ofLines (before ++ [line] ++ after)) =
        (match sp.split stripComments (.ofLines after) with
        | .ok events => .ok (first ++ events)
        | .error fault => .error (fault.later (before.length + 1))) ∧
      ∀ n, Run.pull sp (first.length + n) (.start stripComments (.ofLines (before ++ [line] ++ after))) =
        first.map (fun event => some (.ok event)) ++
          (Run.pull sp n (.start stripComments (.ofLines after))).map (Option.map (laterItem (before.length + 1))) := by
  have hd := directive_of_scanLine h
  obtain ⟨first, hitems⟩ : ∃ first : List Event, ∀ after, sp.items stripComments (.ofLines (before ++ [line] ++ after)) =
      first.map .ok ++ (sp.items stripComments (.ofLines after)).map (laterItem (before.length + 1)) := by
    refine ⟨(sp.feed (.start stripComments) before).1 ++
      [.batch (sp.feed (.start stripComments) before).2.pending, .directive d], fun after => ?_⟩
    rw [items_ofLines, items_ofLines, List.append_assoc, List.singleton_append, lineItems_append_directive hd]
    simp only [ScanState.start, Nat.zero_add]
  refine ⟨first, split_eq_ok.2 ?_, fun after => ⟨?_, fun n => ?_⟩⟩
  · have hnil := hitems []
    rw [List.append_nil] at hnil
    rw [hnil]
    exact List.append_nil _
  · unfold split
    rw [hitems after, delivered_append, delivered_laterItem]
    cases delivered (sp.items stripComments (.ofLines after)) with
    | mk events fault => cases fault <;> rfl
  · apply Run.pull_append
    rw [Run.remaining_start, Run.remaining_start]
    exact hitems after

/-- A directive line that closes a comment, before a script with a directive that ends inside a comment. -/
theorem split_append_directive_comment :
    let before : List Text := [.of "a /*", .of "GO"]
    let line : Text := .of "*/ go 2"
    let after : List Text := [.of "b", .of "GO", .of "/*"]
    let first : List Event := [.batch (.of "a "), .directive ⟨.of "go 2", some 2⟩]
    (unix.scanLine line false (unix.scanAll (.start true) before)).1 = .directive ⟨.of "go 2", some 2⟩ ∧
      unix.split true (.ofLines (before ++ [line])) = .ok first ∧
      unix.split true (.ofLines after) = .error (.unterminatedComment 3) ∧
      unix.split true (.ofLines (before ++ [line] ++ after)) = .error (.unterminatedComment 6) := by
  intro before line after first
  have h : (unix.scanLine line false (unix.scanAll (.start true) before)).1 = .directive ⟨.of "go 2", some 2⟩ := rfl
  obtain ⟨e, he, hafter⟩ := split_append_directive unix true h
  refine ⟨h, rfl, rfl, ?_⟩
  rw [(hafter after).1]
  rfl

end Splitter

end BatchMigrate
