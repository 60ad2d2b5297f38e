import BatchMigrate.Proofs.Script.Scan

/-!
# A scan that is driven in any order

A splitter scans lines up to the last one, takes the pending text after each directive and ends the scan once. But the
state of a scan can be driven by any calls (`ScanCall`): it may be ended in the middle, scan lines after a last one, with
another separator or terminator for each, and hand out what is pending inside a comment. Whatever the calls, the state
stays sound (`ScanState.Sound.drive`), its state of comments is that of the lines scanned (`ScanState.lex_drive`), and
with comments kept no text is lost or made up (`ScanState.handedOut_append_pending`). `ScanState.drive_invariants` puts
these together.
-/

namespace BatchMigrate

/-! ## Calls -/

/-- A call on the state of a scan. -/
inductive ScanCall
  /-- Scans a line. -/
  | line (separator : Separator) (terminator text : Text) (isLast : Bool)
  /-- Hands out the pending batch. -/
  | take
  /-- Ends the scan. -/
  | finish

namespace ScanCall

/-- The line that a call scans. -/
def line? : ScanCall → Option Text
  | line _ _ text _ => some text
  | take => none
  | finish => none

/-- The lines that some calls scan. -/
def lines (calls : List ScanCall) : List Text := calls.filterMap line?

end ScanCall

namespace ScanState

/-- The state after a call. -/
def call (s : ScanState) : ScanCall → ScanState
  | .line separator terminator text isLast => (s.scanLine separator terminator text isLast).2
  | .take => s.takePending.2
  | .finish => s.finish.2

/-- The state after some calls. -/
def drive (s : ScanState) (calls : List ScanCall) : ScanState := calls.foldl call s

/-- The text that a call hands out or, if it ends the scan inside a comment, drops. -/
def handedOut (s : ScanState) : ScanCall → Text
  | .line .. => []
  | .take => s.takePending.1
  | .finish =>
    match s.finish.1 with
    | .ok sql => sql.getD []
    | .error _ => s.pending

/-- The text of a line that is content, with the terminator after it, unless the line is a last one and nothing is pending
with it. -/
def takenIn (s : ScanState) : ScanCall → Text
  | .line separator terminator text isLast =>
    match (s.scanLine separator terminator text isLast).1 with
    | .directive _ => []
    | .content => text ++ if isLast ∧ s.pending ++ text = [] then [] else terminator
  | .take => []
  | .finish => []

/-- What each of some calls contributes, in order. -/
def total (f : ScanState → ScanCall → Text) (s : ScanState) : List ScanCall → Text
  | [] => []
  | c :: calls => f s c ++ total f (s.call c) calls

end ScanState

/-! ## One call -/

namespace Lex

/-- The state of comments after some lines that follow `n` others. -/
def afterLines (n : Nat) (lex : Lex) : List Text → Lex
  | [] => lex
  | line :: lines => afterLines (n + 1) (lex.mark (n + 1) line).2.atLineEnd lines

theorem afterLines_append (more : List Text) : ∀ (lines : List Text) (n : Nat) (lex : Lex),
    afterLines n lex (lines ++ more) = afterLines (n + lines.length) (afterLines n lex lines) more
  | [], _, _ => rfl
  | line :: lines, n, lex => by
    rw [List.cons_append, afterLines, afterLines_append more lines, List.length_cons, afterLines, Nat.add_right_comm,
      Nat.add_assoc]

/-- A block comment that is open at the end of a line was opened in it, or was open before. -/
theorem openedOn_mark {n k : Nat} {lex : Lex} {line : Text} (h : (lex.mark n line).2 = .blockComment k) :
    k = n ∨ lex = .blockComment k := by
  fun_induction Lex.mark n lex line <;> grind

theorem eq_blockComment_of_atLineEnd {lex : Lex} {k : Nat} (h : lex.atLineEnd = .blockComment k) :
    lex = .blockComment k := by
  cases lex with
  | plain | lineComment => cases h
  | blockComment j => exact h

end Lex

theorem ScanCall.lines_cons (c : ScanCall) (calls : List ScanCall) : lines (c :: calls) = c.line?.toList ++ lines calls := by
  cases c <;> rfl

namespace ScanState

variable {s : ScanState}

/-- The end of a scan leaves nothing pending, and all else as it was. -/
theorem finish_snd (s : ScanState) : s.finish.2 = { s with pending := [] } := by
  unfold finish
  split <;> rfl

theorem finish_of_blockComment {k : Nat} (h : s.lex = .blockComment k) :
    s.finish = (.error (.unterminatedComment k), { s with pending := [] }) := by
  rw [finish, h]

/-- **One call** moves a state on by the line that it scans, if it scans one, and else only changes what is pending. -/
theorem exists_call_eq (s : ScanState) (c : ScanCall) :
    ∃ pending, s.call c = { c.line?.elim s s.advance with pending } := by
  cases c with
  | line separator terminator text isLast =>
    show ∃ pending, (s.scanLine separator terminator text isLast).2 = { s.advance text with pending }
    rcases s.scanLine_cases separator terminator text isLast with ⟨d, _, he⟩ | ⟨_, he⟩ <;> rw [he] <;> exact ⟨_, rfl⟩
  | take => exact ⟨_, rfl⟩
  | finish => exact ⟨_, finish_snd s⟩

theorem lex_call (s : ScanState) (c : ScanCall) :
    (s.call c).lex = Lex.afterLines s.lineNumber s.lex c.line?.toList := by
  obtain ⟨pending, he⟩ := exists_call_eq s c
  rw [he]
  cases c <;> rfl

theorem lineNumber_call (s : ScanState) (c : ScanCall) :
    (s.call c).lineNumber = s.lineNumber + c.line?.toList.length := by
  obtain ⟨pending, he⟩ := exists_call_eq s c
  rw [he]
  cases c <;> rfl

theorem stripComments_call (s : ScanState) (c : ScanCall) : (s.call c).stripComments = s.stripComments := by
  obtain ⟨pending, he⟩ := exists_call_eq s c
  rw [he]
  cases c <;> rfl

/-- What holds between two calls: the state is not inside a line comment, and an open block comment was opened on one of
the lines so far. -/
structure Sound (s : ScanState) : Prop where
  lex_ne : s.lex ≠ .lineComment
  openedOn : ∀ k, s.lex = .blockComment k → 1 ≤ k ∧ k ≤ s.lineNumber

theorem sound_start (stripComments : Bool) : (start stripComments).Sound :=
  ⟨by simp [start], fun k h => by cases h⟩

theorem Sound.advance (h : s.Sound) (line : Text) : (s.advance line).Sound := by
  refine ⟨Lex.atLineEnd_ne_lineComment _, fun k hk => ?_⟩
  have hnumber : (s.advance line).lineNumber = s.lineNumber + 1 := rfl
  rcases Lex.openedOn_mark (Lex.eq_blockComment_of_atLineEnd hk) with rfl | hbefore
  · omega
  · have := h.openedOn k hbefore
    omega

theorem Sound.call (h : s.Sound) (c : ScanCall) : (s.call c).Sound := by
  obtain ⟨pending, he⟩ := exists_call_eq s c
  have hsound : (c.line?.elim s s.advance).Sound := by
    cases c with
    | line separator terminator text isLast => exact h.advance text
    | take | finish => exact h
  rw [he]
  exact ⟨hsound.lex_ne, hsound.openedOn⟩

/-- A directive leaves what is pending, and ends outside comments. -/
theorem scanLine_directive {separator : Separator} {terminator line : Text} {isLast : Bool} {d : Directive}
    (h : (s.scanLine separator terminator line isLast).1 = .directive d) :
    (s.scanLine separator terminator line isLast).2.pending = s.pending ∧
      (s.scanLine separator terminator line isLast).2.lex = .plain := by
  rcases s.scanLine_cases separator terminator line isLast with ⟨d', hd, he⟩ | ⟨_, he⟩
  · rw [he]
    exact ⟨rfl, lex_advance_of_directive hd⟩
  · rw [he] at h
    cases h

/-- **No text is lost in one call** with comments kept: what was pending and what is taken in is handed out or still
pending. -/
theorem handedOut_append_call (hs : s.stripComments = false) (c : ScanCall) :
    s.handedOut c ++ (s.call c).pending = s.pending ++ s.takenIn c := by
  cases c with
  | take => rfl
  | finish =>
    rw [call, finish_snd]
    show s.handedOut .finish ++ [] = s.pending ++ []
    rw [List.append_nil, List.append_nil, handedOut]
    cases hl : s.lex with
    | blockComment k => rw [finish_of_blockComment hl]
    | plain | lineComment =>
      rw [finish, hl]
      by_cases hp : s.pending = [] <;> simp [hp]
  | line separator terminator text isLast =>
    rw [call, takenIn, handedOut, List.nil_append]
    rcases s.scanLine_cases separator terminator text isLast with ⟨d, _, he⟩ | ⟨_, he⟩
    · rw [he]
      exact (List.append_nil _).symm
    · rw [he]
      show terminate s.stripComments _ terminator isLast (s.pending ++ s.keptText text) = _
      rw [keptText_of_keep hs, terminate, hs]
      cases isLast with
      | false => simp
      | true =>
        by_cases hp : s.pending ++ text = []
        · obtain ⟨hpending, rfl⟩ := List.append_eq_nil_iff.1 hp
          simp [hpending]
        · simp [hp]

/-! ## Any calls -/

/-- **The state of comments** depends on the lines that are scanned, and on nothing else. -/
theorem lex_drive : ∀ (calls : List ScanCall) (s : ScanState),
    (s.drive calls).lex = Lex.afterLines s.lineNumber s.lex (ScanCall.lines calls)
  | [], _ => rfl
  | c :: calls, s => by
    rw [ScanCall.lines_cons, Lex.afterLines_append, ← lex_call, ← lineNumber_call]
    exact lex_drive calls (s.call c)

/-- The number of lines counts the lines that are scanned. -/
theorem lineNumber_drive : ∀ (calls : List ScanCall) (s : ScanState),
    (s.drive calls).lineNumber = s.lineNumber + (ScanCall.lines calls).length
  | [], _ => rfl
  | c :: calls, s => by
    rw [ScanCall.lines_cons, List.length_append, ← Nat.add_assoc, ← lineNumber_call]
    exact lineNumber_drive calls (s.call c)

theorem Sound.drive : ∀ {s : ScanState}, s.Sound → ∀ calls : List ScanCall, (s.drive calls).Sound
  | _, h, [] => h
  | _, h, c :: calls => Sound.drive (h.call c) calls

/-- Some calls on a fresh state lead to the state. -/
def Reached (s : ScanState) : Prop := ∃ stripComments calls, s = (start stripComments).drive calls

theorem Reached.sound (h : s.Reached) : s.Sound := by
  obtain ⟨stripComments, calls, rfl⟩ := h
  exact (sound_start stripComments).drive calls

/-- **No text is lost or made up** with comments kept. -/
theorem handedOut_append_pending : ∀ (calls : List ScanCall) {s : ScanState}, s.stripComments = false →
    s.total handedOut calls ++ (s.drive calls).pending = s.pending ++ s.total takenIn calls
  | [], s, _ => (List.append_nil s.pending).symm
  | c :: calls, s, hs => by
    have ih := handedOut_append_pending calls ((stripComments_call s c).trans hs)
    rw [total, total, List.append_assoc, show s.drive (c :: calls) = (s.call c).drive calls from rfl, ih,
      ← List.append_assoc, handedOut_append_call hs, List.append_assoc]

/-- **A scan in any order.** After any calls on a fresh state: it is outside comments or inside a block comment; it has
counted the lines scanned; its state of comments is determined by them; an open block comment was opened on one of them,
and a call that ends the scan there reports that line, drops what is pending and changes nothing else; a line that is a
directive leaves what is pending and ends outside comments; and if comments are kept, the texts handed out and dropped and
the pending text are in order the lines that were content, each with its terminator, unless it was flagged as a last one
and there was no text pending with it. -/
theorem drive_invariants (stripComments : Bool) (calls : List ScanCall) :
    let s := (start stripComments).drive calls
    (s.lex = .plain ∨ ∃ k, s.lex = .blockComment k) ∧
    s.lineNumber = (ScanCall.lines calls).length ∧
    s.lex = Lex.afterLines 0 .plain (ScanCall.lines calls) ∧
    (∀ k, s.lex = .blockComment k → 1 ≤ k ∧ k ≤ s.lineNumber ∧
      s.finish = (.error (.unterminatedComment k), { s with pending := [] })) ∧
    (∀ separator terminator line isLast d, (s.scanLine separator terminator line isLast).1 = .directive d →
      (s.scanLine separator terminator line isLast).2.pending = s.pending ∧
        (s.scanLine separator terminator line isLast).2.lex = .plain) ∧
    (stripComments = false →
      (start stripComments).total handedOut calls ++ s.pending = (start stripComments).total takenIn calls) := by
  intro s
  have hsound : s.Sound := (sound_start stripComments).drive calls
  refine ⟨?_, ?_, lex_drive calls _, fun k hk => ?_, fun _ _ _ _ _ => scanLine_directive, fun hkeep => ?_⟩
  · cases hl : s.lex with
    | plain => exact .inl rfl
    | lineComment => exact absurd hl hsound.lex_ne
    | blockComment k => exact .inr ⟨k, rfl⟩
  · have hnumber := lineNumber_drive calls (start stripComments)
    rwa [show (start stripComments).lineNumber = 0 from rfl, Nat.zero_add] at hnumber
  · obtain ⟨hfirst, hlast⟩ := hsound.openedOn k hk
    exact ⟨hfirst, hlast, finish_of_blockComment hk⟩
  · exact handedOut_append_pending calls hkeep

/-- The scan is ended inside a comment and goes on, after a last line and with another terminator. -/
example :
    let calls : List ScanCall := [.line .go ['\n'] (.of "a /*") false, .take, .line .go ['\n'] (.of "GO") true, .finish,
      .line .go [] (.of "*/ b") true, .line .go ['\n'] (.of "go 2") false]
    let s := (start false).drive calls
    s.lex = .plain ∧ s.lineNumber = 4 ∧ s.pending = .of "*/ b" ∧
      (start false).total handedOut calls = .of "a /*\nGO\n" := by
  decide

end ScanState

end BatchMigrate
