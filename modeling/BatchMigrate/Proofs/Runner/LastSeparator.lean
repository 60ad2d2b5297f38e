import BatchMigrate.Proofs.Runner.Execution
import BatchMigrate.Proofs.Script.LookAhead
import BatchMigrate.Proofs.Script.SeparatorLine

/-!
# A separator at the end of a script

The last line of a script is terminated by a rule of its own, and the batch after it is left out if it is empty. Seen from a
scan that goes on, these rules take away nothing but a blank batch (`Splitter.lineItems_ends`). So a script with one more
separator line has the same events and then the directive, or, in front of it, one more batch, which is blank
(`Splitter.split_append_separator`). The one runs its batch once, as the end of the script does, the other is not sent: both
scripts do the same to a database (`Splitter.run_append_separator`).
-/

namespace BatchMigrate

/-! ## Separator lines without markers -/

namespace Text

variable {a b : Char} {x y : Text}

/-- Two characters in a row stand before a text without the second one. -/
theorem infix_of_append_right (hb : b ∉ y) (h : [a, b] <:+: x ++ y) : [a, b] <:+: x := by
  obtain ⟨before, after, h⟩ := h
  rcases List.append_eq_append_iff.1 h with ⟨more, rfl, -⟩ | ⟨more, hx, rfl⟩
  · exact ⟨before, more, rfl⟩
  · rcases List.eq_nil_or_concat' more with rfl | ⟨init, last, rfl⟩
    · rw [List.append_nil] at hx
      exact hx ▸ (List.suffix_append before [a, b]).isInfix
    · have hlast := congrArg List.getLast? hx
      simp at hlast
      subst hlast
      simp at hb

/-- Two characters in a row stand behind a text without the first one. -/
theorem infix_of_append_left (ha : a ∉ x) (h : [a, b] <:+: x ++ y) : [a, b] <:+: y := by
  obtain ⟨before, after, h⟩ := h
  rw [List.append_assoc] at h
  rcases List.append_eq_append_iff.1 h with ⟨more, rfl, hy⟩ | ⟨more, rfl, rfl⟩
  · cases more with
    | nil => exact ⟨[], after, hy⟩
    | cons c more =>
      obtain ⟨rfl, -⟩ := List.cons_eq_cons.1 hy
      simp at ha
  · exact ⟨more, after, by rw [List.append_assoc]⟩

end Text

namespace Separator

variable {s : Separator} {line : Text} {d : Directive}

/-- A mark of punctuation between the blank and the digits, such as those that comments begin and end with. -/
def IsPunctuation (c : Char) : Prop := 0x20 < c.toNat ∧ c.toNat < 0x30

theorem IsPunctuation.caseless {c : Char} (h : IsPunctuation c) : Text.Caseless c :=
  Text.caseless_of_lt (Nat.zero_lt_of_lt h.1) (Nat.lt_trans h.2 (by decide))

theorem IsPunctuation.isSpace {c : Char} (h : IsPunctuation c) : Text.isSpace c = false := by
  rw [Text.isSpace_eq_false]
  have hranges : ∀ range ∈ Text.spaceRanges, range.2 ≤ 0x20 ∨ 0x30 ≤ range.1 := by decide
  intro range hrange
  have := hranges range hrange
  have := h.1
  have := h.2
  omega

theorem IsPunctuation.isDigit {c : Char} (h : IsPunctuation c) : Text.isDigit c = false :=
  Bool.eq_false_iff.2 fun hdigit => Nat.not_le_of_lt h.2 (Text.toNat_of_isDigit hdigit).1

/-- Two marks of punctuation in a row on a separator line belong to its keyword. -/
theorem infix_keyword {a b : Char} (ha : IsPunctuation a) (hb : IsPunctuation b) (h : s.recognize line = some d)
    (hi : [a, b] <:+: line) : [a, b] <:+: s.keyword := by
  have hblank : ∀ {c : Char} {blank : Text}, IsPunctuation c → blank.isBlank = true → c ∉ blank :=
    fun hc hblank hmem => Bool.false_ne_true (hc.isSpace.symm.trans (Text.isBlank_iff.1 hblank _ hmem))
  obtain ⟨before, after, hbefore, hafter, hline⟩ := Text.exists_trim line
  rw [hline] at hi
  have hbody := Text.infix_of_append_left (hblank ha hbefore) (Text.infix_of_append_right (hblank hb hafter) hi)
  rw [recognize_eq_some] at h
  generalize Text.trim line = body at h hbody
  cases h with
  | bare hword => exact hword.infix ha.caseless hb.caseless hbody
  | counted hword hgap hdigits _ =>
    have hdigit : b ∉ _ := fun hmem => Bool.false_ne_true (hb.isDigit.symm.trans (hdigits.2 b hmem))
    exact hword.infix ha.caseless hb.caseless
      (Text.infix_of_append_right (hblank hb hgap.2) (Text.infix_of_append_right hdigit hbody))

/-- No comment begins on a separator line if none does in the keyword. -/
theorem unmarked_of_recognize (h : s.recognize line = some d) (hk : s.keyword.Unmarked) : line.Unmarked :=
  ⟨fun hi => hk.1 (infix_keyword ⟨by decide, by decide⟩ ⟨by decide, by decide⟩ h hi),
    fun hi => hk.2 (infix_keyword ⟨by decide, by decide⟩ ⟨by decide, by decide⟩ h hi)⟩

/-- No comment ends on a separator line if none does in the keyword. -/
theorem not_close_of_recognize (h : s.recognize line = some d) (hk : ¬['*', '/'] <:+: s.keyword) : ¬['*', '/'] <:+: line :=
  fun hi => hk (infix_keyword ⟨by decide, by decide⟩ ⟨by decide, by decide⟩ h hi)

end Separator

/-! ## The end of a script -/

namespace Event

/-- The second events are the first ones, closed by the directive, with a blank batch in front of it if it has none to
close. -/
def ClosedBy (d : Directive) (events events' : List Event) : Prop :=
  ∃ first sql, events' = first ++ [.batch sql, .directive d] ∧
    (events = first ++ [.batch sql] ∨ events = first ∧ sql.isBlank = true)

end Event

namespace Splitter

variable {sp : Splitter} {s : ScanState} {line : Text} {d : Directive}

/-- What a script may end with after the events that its lines close, when the scan has come to the state: the fault of a
block comment that is open, or the pending batch, which may be left out if it is blank. -/
inductive Ends (s : ScanState) : List Item → Prop
  | fault {k : Nat} (h : s.lex = .blockComment k) : Ends s [.error (.unterminatedComment k)]
  | batch (h : s.lex = .plain) : Ends s [.ok (.batch s.pending)]
  | none (h : s.lex = .plain) (hblank : s.pending.isBlank = true) : Ends s []

theorem ends_closing (h : s.lex ≠ .lineComment) : Ends s (closing s) := by
  cases hl : s.lex with
  | plain =>
    rw [closing_of_not_inBlock (by rw [hl]; rfl)]
    split
    · rename_i hp
      exact .none hl (by rw [hp]; rfl)
    · exact .batch hl
  | lineComment => exact absurd hl h
  | blockComment k =>
    rw [closing_of_blockComment hl]
    exact .fault hl

/-- The rule for the last line takes away the line break of a batch that holds nothing else. -/
theorem ends_absorb (hterm : sp.terminator.isBlank = true) :
    Ends (s.absorb sp.terminator line false) (closing (s.absorb sp.terminator line true)) := by
  cases hl : (s.advance line).lex with
  | plain =>
    have hgoing : (s.absorb sp.terminator line false).pending = s.pending ++ s.keptText line ++ sp.terminator := by
      simp [ScanState.absorb, ScanState.terminate, hl, Lex.inBlock]
    have hlast : (s.absorb sp.terminator line true).pending =
        if s.pending ++ s.keptText line = [] then [] else s.pending ++ s.keptText line ++ sp.terminator := rfl
    rw [closing_of_not_inBlock (s := s.absorb sp.terminator line true) (hl ▸ rfl), hlast]
    by_cases hnone : s.pending ++ s.keptText line = []
    · rw [if_pos hnone, if_pos rfl]
      exact .none hl (by rw [hgoing, hnone]; exact hterm)
    · rw [if_neg hnone, if_neg (List.append_ne_nil_of_left_ne_nil hnone sp.terminator), ← hgoing]
      exact .batch hl
  | lineComment => exact absurd hl (Lex.atLineEnd_ne_lineComment _)
  | blockComment k =>
    rw [closing_of_blockComment (s := s.absorb sp.terminator line true) hl]
    exact .fault hl

/-- **The end of a script**: the events that its lines close if more lines follow, and then what it may end with. -/
theorem lineItems_ends (hterm : sp.terminator.isBlank = true) (hs : s.lex ≠ .lineComment) (lines : List Text) :
    ∃ last, sp.lineItems s lines = (sp.feed s lines).1.map .ok ++ last ∧ Ends (sp.feed s lines).2 last := by
  rcases List.eq_nil_or_concat' lines with rfl | ⟨init, last, rfl⟩
  · exact ⟨closing s, rfl, ends_closing hs⟩
  · rw [lineItems_append (List.cons_ne_nil last []) init s]
    cases hd : (sp.feed s init).2.directive? sp.separator last with
    | some d =>
      rw [lineItems_separator hd, feed_directive hd, List.map_append]
      exact ⟨[], (List.append_nil _).symm, .none (ScanState.lex_advance_of_directive hd) rfl⟩
    | none =>
      rw [lineItems_of_content hd, feed_content hd]
      exact ⟨_, rfl, ends_absorb hterm⟩

/-- In an open block comment, a line that does not close it changes nothing. -/
theorem lineItems_inComment {k : Nat} (hl : s.lex = .blockComment k) (hclose : ¬['*', '/'] <:+: line) :
    sp.lineItems s [line] = [.error (.unterminatedComment k)] := by
  have hadvance : (s.advance line).lex = .blockComment k := by
    show (Lex.mark _ _ _).2.atLineEnd = _
    rw [hl, Lex.mark_blockComment_open _ _ hclose]
    rfl
  have hnone : s.directive? sp.separator line = none := by
    rw [ScanState.directive?, hadvance]
    rfl
  rw [lineItems_of_content hnone]
  exact closing_of_blockComment (s := s.absorb sp.terminator line true) hadvance

/-- **One more separator line.** Both scripts end in the same open comment, or the events of the second one are those of the
first one, closed by the directive. -/
theorem split_append_separator (stripComments : Bool) (lines : List Text) (hterm : sp.terminator.isBlank = true)
    (hk : sp.separator.keyword.Unmarked) (hclose : ¬['*', '/'] <:+: sp.separator.keyword)
    (hline : sp.separator.recognize line = some d) :
    (∃ n, sp.split stripComments (.ofLines lines) = .error (.unterminatedComment n) ∧
      sp.split stripComments (.ofLines (lines ++ [line])) = .error (.unterminatedComment n)) ∨
    ∃ events events', sp.split stripComments (.ofLines lines) = .ok events ∧
      sp.split stripComments (.ofLines (lines ++ [line])) = .ok events' ∧ Event.ClosedBy d events events' := by
  obtain ⟨last, hitems, hends⟩ := lineItems_ends hterm (s := .start stripComments) nofun lines
  have happend : sp.lineItems (.start stripComments) (lines ++ [line]) = _ :=
    lineItems_append (List.cons_ne_nil line []) lines (.start stripComments)
  rw [← items_ofLines] at hitems happend
  generalize (sp.feed (.start stripComments) lines).1 = first at hitems happend
  have hok : ∀ {source : Source} (more : List Event), sp.items stripComments source = first.map .ok ++ more.map .ok →
      sp.split stripComments source = .ok (first ++ more) := by
    intro source more h
    rw [split_eq_ok, h, List.map_append]
  have hfault : ∀ {source : Source} {n : Nat},
      sp.items stripComments source = first.map .ok ++ [.error (.unterminatedComment n)] →
        sp.split stripComments source = .error (.unterminatedComment n) := by
    intro source n h
    rw [split, h, delivered_append]
    rfl
  have hdirective : ∀ {s : ScanState}, s.lex = .plain → s.directive? sp.separator line = some d := fun hl =>
    (ScanState.directive?_of_unmarked hl (Separator.unmarked_of_recognize hline hk)).trans hline
  cases hends with
  | @fault n hl =>
    rw [lineItems_inComment hl (Separator.not_close_of_recognize hline hclose)] at happend
    exact .inl ⟨n, hfault hitems, hfault happend⟩
  | batch hl =>
    rw [lineItems_separator (hdirective hl)] at happend
    exact .inr ⟨_, _, hok [.batch _] hitems, hok [.batch _, .directive d] happend, first, _, rfl, .inl rfl⟩
  | none hl hblank =>
    rw [lineItems_separator (hdirective hl)] at happend
    exact .inr ⟨_, _, hok [] hitems, hok [.batch _, .directive d] happend, first, _, rfl,
      .inr ⟨List.append_nil first, hblank⟩⟩

end Splitter

/-! ## What is sent -/

namespace Execution

variable [Sql.Interpreter] {d : Directive} {sql : Text} {x : Execution}

/-- What there is to see of an execution: its result, the texts that it has sent, and the database. -/
def outcome (r : Except (Nat × Sql.Fault) Nat × Execution) : Except (Nat × Sql.Fault) Nat × List Text × Sql.Database :=
  (r.1, r.2.log, r.2.db)

/-- The events to come decide what there is to see. -/
theorem outcome_append {events events' : List Event} (h : ∀ x, outcome (run x events) = outcome (run x events')) :
    ∀ (first : List Event) (x : Execution), outcome (run x (first ++ events)) = outcome (run x (first ++ events'))
  | [], x => h x
  | event :: first, x => by
    simp only [List.cons_append, run]
    rcases step x event with ⟨_ | _, y⟩
    · rfl
    · exact outcome_append h first y

/-- What is held back is not looked at by a batch that runs. -/
theorem send_held (sql : Text) (held : Option Text) : ∀ (n : Nat) (x : Execution),
    send sql n { x with held } = ((send sql n x).1, { (send sql n x).2 with held })
  | 0, _ => rfl
  | n + 1, x => by
    rcases hrun : x.db.run sql with ⟨_ | _, db⟩
    · simp only [send, hrun]
    · simp only [send, hrun]
      exact send_held sql held n { x with db, log := x.log ++ [sql] }

theorem runBatch_held (sql : Text) (times : Nat) (held : Option Text) (x : Execution) :
    runBatch sql times { x with held } = ((runBatch sql times x).1, { (runBatch sql times x).2 with held }) := by
  unfold runBatch
  split
  · rfl
  · rw [send_held]
    rcases send sql times x with ⟨_ | _, y⟩ <;> rfl

/-- A directive at the end that asks for one run asks for what is done without it. -/
theorem run_directive_one (h : d.repeatCount = 1) (x : Execution) : run x [.directive d] = run x [] := by
  cases hheld : x.held with
  | none => simp only [run, step, hheld]
  | some sql =>
    rw [run_directive_of_held hheld, run_nil_of_held hheld, h]
    unfold afterBatch
    rw [runBatch_held]
    rcases runBatch sql 1 x with ⟨_ | _, y⟩ <;> rfl

/-- A blank batch at the end leaves nothing to see. -/
theorem outcome_blank (h : sql.isBlank = true) (x : Execution) : outcome (run x [.batch sql]) = outcome (run x []) := by
  have hend : ∀ y : Execution, outcome (run { y with held := some sql, number := y.number + 1 } []) =
      outcome (.ok y.executed, y) := by
    intro y
    simp only [run, runBatch, h, if_true, outcome]
  cases hheld : x.held with
  | none =>
    have hstep : run x [.batch sql] = run { x with held := some sql, number := x.number + 1 } [] := by
      simp only [run, step, hheld]
    have hnil : run x [] = (.ok x.executed, x) := by simp only [run, hheld]
    rw [hstep, hend, hnil]
  | some previous =>
    rw [run_batch_of_held hheld, run_nil_of_held hheld]
    unfold afterBatch
    rw [runBatch_held, runBatch_held _ _ none]
    rcases runBatch previous 1 x with ⟨_ | _, y⟩
    · rfl
    · exact hend y

/-- **A last directive that asks for one run** does not change what there is to see. -/
theorem outcome_of_closedBy {events events' : List Event} (hd : d.repeatCount = 1) (h : Event.ClosedBy d events events')
    (x : Execution) : outcome (run x events') = outcome (run x events) := by
  obtain ⟨first, sql, rfl, hevents⟩ := h
  have hlast : ∀ x, outcome (run x [.batch sql, .directive d]) = outcome (run x [.batch sql]) :=
    outcome_append (fun x => congrArg outcome (run_directive_one hd x)) [.batch sql]
  rcases hevents with rfl | ⟨rfl, hblank⟩
  · exact outcome_append hlast first x
  · have hnone := outcome_append (fun x => (hlast x).trans (outcome_blank hblank x)) events x
    rwa [List.append_nil] at hnone

end Execution

namespace Splitter

variable {sp : Splitter} {line : Text} {d : Directive}

/-- **A separator at the end is optional.** If line breaks are white space and no comment begins or ends in the keyword, a
script and the script with one more separator line that asks for one run end in the same open comment, or both split and on
every database send the same texts, with the same count, or the same number of the batch that is refused and its fault, and
leave the same database; so their plans are carried out alike. -/
theorem run_append_separator [Sql.Interpreter] (stripComments : Bool) (lines : List Text)
    (hterm : sp.terminator.isBlank = true)
    (hk : sp.separator.keyword.Unmarked) (hclose : ¬['*', '/'] <:+: sp.separator.keyword)
    (hline : sp.separator.recognize line = some d) (hd : d.repeatCount = 1) :
    (∃ n, sp.split stripComments (.ofLines lines) = .error (.unterminatedComment n) ∧
      sp.split stripComments (.ofLines (lines ++ [line])) = .error (.unterminatedComment n)) ∨
    ∃ events events', sp.split stripComments (.ofLines lines) = .ok events ∧
      sp.split stripComments (.ofLines (lines ++ [line])) = .ok events' ∧ ∀ db,
        Execution.outcome (Execution.run { db } events') = Execution.outcome (Execution.run { db } events) ∧
        Runner.carryOut 0 (PlannedBatch.ofEvents events') db = Runner.carryOut 0 (PlannedBatch.ofEvents events) db := by
  rcases split_append_separator stripComments lines hterm hk hclose hline with hfault | ⟨events, events', h, h', hclosed⟩
  · exact .inl hfault
  · refine .inr ⟨events, events', h, h', fun db => ?_⟩
    have houtcome := Execution.outcome_of_closedBy hd hclosed { db }
    refine ⟨houtcome, ?_⟩
    obtain ⟨hresult, hseen⟩ := Prod.mk.inj houtcome
    rw [← Execution.run_eq_carryOut, ← Execution.run_eq_carryOut, hresult, (Prod.mk.inj hseen).2]

/-- The script ends with a directive and an empty line, so that one more separator makes a blank batch. -/
theorem run_append_separator_blank :
    let lines : List Text := [.of "insert into t values (1)", .of "GO 2", []]
    let line : Text := .of "\tgO 01 "
    let events : List Event := [.batch (.of "insert into t values (1)\n"), .directive ⟨.of "GO 2", some 2⟩]
    let events' : List Event := events ++ [.batch ['\n'], .directive ⟨.of "gO 01", some 1⟩]
    unix.terminator.isBlank = true ∧ unix.separator.keyword.Unmarked ∧ (¬['*', '/'] <:+: unix.separator.keyword) ∧
      unix.separator.recognize line = some ⟨.of "gO 01", some 1⟩ ∧
      unix.split false (.ofLines lines) = .ok events ∧
      unix.split false (.ofLines (lines ++ [line])) = .ok events' ∧ ∀ db,
        Execution.outcome (Execution.run { db } events') = Execution.outcome (Execution.run { db } events) ∧
        Runner.carryOut 0 (PlannedBatch.ofEvents events') db = Runner.carryOut 0 (PlannedBatch.ofEvents events) db := by
  intro lines line events events'
  have hk : unix.separator.keyword.Unmarked := ⟨by decide, by decide⟩
  have hclose : ¬['*', '/'] <:+: unix.separator.keyword := by decide
  have hline : unix.separator.recognize line = some ⟨.of "gO 01", some 1⟩ := by decide +kernel
  have hsplit : unix.split false (.ofLines lines) = .ok events := by decide +kernel
  have hsplit' : unix.split false (.ofLines (lines ++ [line])) = .ok events' := by decide +kernel
  refine ⟨rfl, hk, hclose, hline, hsplit, hsplit', ?_⟩
  rcases run_append_separator false lines rfl hk hclose hline rfl with ⟨n, hfault, -⟩ | ⟨first, second, h, h', hsame⟩
  · rw [hsplit] at hfault
    cases hfault
  · rw [hsplit] at h
    rw [hsplit'] at h'
    cases h
    cases h'
    exact hsame

end Splitter

end BatchMigrate
