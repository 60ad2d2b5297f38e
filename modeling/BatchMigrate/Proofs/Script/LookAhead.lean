import BatchMigrate.Proofs.Script.Stream

/-!
# How far a run reads ahead

A run asks its source for lines at two places, and is interrupted at each event that it gives. `Run.Progress` says how far
it has come: it has asked for nothing, or some lines have been scanned and one more answer has been asked for, or that
answer was no line and the run is over. One request leads from one such state to the next (`Run.Progress.next_cases`),
so after any number of requests the source has been asked once more than lines have been scanned
(`Run.Progress.skip`). Hence the source is one line ahead of a directive when its batch and the directive itself are
given, it is asked for nothing after an answer that was no line, and it is asked once more than it has lines by a run that
comes to its end (`Run.asked_ahead`).
-/

namespace BatchMigrate

/-! ## Lines that go on -/

namespace Splitter

variable {sp : Splitter}

theorem feed_append (more : List Text) : ∀ (lines : List Text) (s : ScanState), sp.feed s (lines ++ more) =
    ((sp.feed s lines).1 ++ (sp.feed (sp.feed s lines).2 more).1, (sp.feed (sp.feed s lines).2 more).2)
  | [], _ => rfl
  | line :: lines, s => by
    rw [List.cons_append, feed, feed]
    rcases sp.scanLine_cases line false s with ⟨d, _, he⟩ | ⟨_, he⟩ <;>
      simp only [he, feed_append more lines, List.cons_append]

/-- One more line that is content closes nothing. -/
theorem feed_content {s : ScanState} {lines : List Text} {line : Text}
    (h : (sp.feed s lines).2.directive? sp.separator line = none) :
    sp.feed s (lines ++ [line]) = ((sp.feed s lines).1, (sp.feed s lines).2.absorb sp.terminator line false) := by
  simp only [feed_append, feed, scanLine_of_content h, List.append_nil]

/-- One more line that is a directive closes what is pending. -/
theorem feed_directive {s : ScanState} {lines : List Text} {line : Text} {d : Directive}
    (h : (sp.feed s lines).2.directive? sp.separator line = some d) :
    sp.feed s (lines ++ [line]) =
      ((sp.feed s lines).1 ++ [.batch (sp.feed s lines).2.pending, .directive d],
        ((sp.feed s lines).2.advance line).takePending.2) := by
  simp only [feed_append, feed, scanLine_of_directive h]
  rfl

/-- A last line that is a directive closes what is pending, and nothing is left. -/
theorem lineItems_separator {s : ScanState} {line : Text} {d : Directive} (h : s.directive? sp.separator line = some d) :
    sp.lineItems s [line] = [.ok (.batch s.pending), .ok (.directive d)] := by
  have hclosed : closing (s.advance line).takePending.2 = [] :=
    closing_of_not_inBlock (congrArg Lex.inBlock (ScanState.lex_advance_of_directive h))
  rw [lineItems_of_directive h, lineItems, hclosed]

/-- Lines up to a directive split into the events that the directives among them close. -/
theorem split_feed {stripComments : Bool} {before : List Text} {line : Text} {d : Directive}
    (h : (sp.feed (.start stripComments) before).2.directive? sp.separator line = some d) :
    sp.split stripComments (.ofLines (before ++ [line])) = .ok (sp.feed (.start stripComments) (before ++ [line])).1 := by
  rw [split_eq_ok, items_ofLines, lineItems_append (List.cons_ne_nil line []), lineItems_separator h, feed_directive h,
    List.map_append]
  rfl

end Splitter

/-! ## Progress -/

/-- The line that comes first among some answers. -/
def Answer.ahead : List Answer → Option Text
  | .line text :: _ => some text
  | _ => none

namespace Run

/-- The run after some requests. -/
def skip (sp : Splitter) : Nat → Run → Run
  | 0, r => r
  | k + 1, r => skip sp k (r.next sp).2

/-- The events that have been given, and the directive that is to follow, are what the scanned lines close. The last of
these lines is that directive. -/
structure Gives (sp : Splitter) (stripComments : Bool) (lines : List Text) (given : List Event)
    (queued : Option Directive) : Prop where
  events : given ++ queued.toList.map .directive = (sp.feed (.start stripComments) lines).1
  queued : ∀ d, queued = some d → ∃ before line, lines = before ++ [line] ∧
    (sp.feed (.start stripComments) before).2.directive? sp.separator line = some d

/-- How far a run has come with a source of the given answers, and the events that it has given. -/
inductive Progress (sp : Splitter) (stripComments : Bool) (answers : List Answer) : List Event → Run → Prop
  /-- Nothing has been asked for. -/
  | fresh : Progress sp stripComments answers [] (.start stripComments { answers })
  /-- Some lines have been scanned, and one more answer has been asked for. -/
  | reading {lines : List Text} {more : List Answer} {given : List Event} {r : Run}
      (hanswers : answers = lines.map .line ++ more) (hsource : r.source = ⟨more.tail, lines.length + 1⟩)
      (hscan : r.scan = (sp.feed (.start stripComments) lines).2) (hphase : r.phase = .reading (Answer.ahead more))
      (hgives : Gives sp stripComments lines given r.queued) : Progress sp stripComments answers given r
  /-- After some lines the source has ended or failed. -/
  | ended {lines : List Text} {more : List Answer} {given : List Event} {r : Run}
      (hanswers : answers = lines.map .line ++ more) (hmore : Answer.leadingLines more = [])
      (hsource : r.source = ⟨more.tail, lines.length + 1⟩) (hphase : r.phase = .over) (hqueued : r.queued = none) :
      Progress sp stripComments answers given r

/-- A request gave a batch, or the run is over. -/
def Advances (sp : Splitter) (stripComments : Bool) (answers : List Answer) (given : List Event)
    (result : Option Item × Run) : Prop :=
  (∃ sql, result.1 = some (.ok (.batch sql)) ∧ Progress sp stripComments answers (given ++ [.batch sql]) result.2) ∨
    ((∀ e, result.1 ≠ some (.ok e)) ∧ result.2.phase = .over ∧ Progress sp stripComments answers given result.2)

variable {sp : Splitter} {stripComments : Bool} {answers : List Answer} {given : List Event} {r : Run}

/-! ## One request -/

/-- One more line has been scanned. -/
theorem answers_concat {lines : List Text} {line : Text} {more : List Answer}
    (hanswers : answers = lines.map .line ++ .line line :: more) : answers = (lines ++ [line]).map .line ++ more := by
  rw [hanswers, List.map_append, List.append_assoc]
  rfl

/-- The end of a script is the end of the run. -/
theorem advances_close {lines : List Text} {more : List Answer} {source : Source} (s : ScanState)
    (hanswers : answers = lines.map .line ++ more) (hmore : Answer.leadingLines more = [])
    (hsource : source = ⟨more.tail, lines.length + 1⟩) : Advances sp stripComments answers given (close source s) := by
  unfold close
  rcases s.finish with ⟨fault | (_ | sql), scan⟩
  · exact .inr ⟨fun _ => nofun, rfl, .ended hanswers hmore hsource rfl rfl⟩
  · exact .inr ⟨fun _ => nofun, rfl, .ended hanswers hmore hsource rfl rfl⟩
  · exact .inl ⟨sql, rfl, .ended hanswers hmore hsource rfl rfl⟩

/-- A directive on the next line closes the batch before it. -/
theorem advances_flush {lines : List Text} {line : Text} {more : List Answer} {d : Directive}
    (hanswers : answers = lines.map .line ++ .line line :: more)
    (hd : (sp.feed (.start stripComments) lines).2.directive? sp.separator line = some d) :
    Advances sp stripComments answers (sp.feed (.start stripComments) lines).1
      (flush ⟨more.tail, lines.length + 1 + 1⟩ d (Answer.ahead more)
        ((sp.feed (.start stripComments) lines).2.advance line)) := by
  have hfeed := Splitter.feed_directive hd
  refine .inl ⟨_, rfl, .reading (answers_concat hanswers) ?_ ?_ rfl ⟨?_, ?_⟩⟩
  · rw [List.length_append]
    rfl
  · rw [hfeed]
    rfl
  · rw [hfeed, List.append_assoc]
    rfl
  · rintro _ ⟨⟩
    exact ⟨lines, line, rfl, hd⟩

/-- The last line is a directive, or ends the script. -/
theorem advances_lastLine {lines : List Text} {line : Text} {more : List Answer}
    (hanswers : answers = lines.map .line ++ .line line :: more) (hmore : Answer.leadingLines more = [])
    (hahead : Answer.ahead more = none) :
    Advances sp stripComments answers (sp.feed (.start stripComments) lines).1
      (lastLine sp ⟨more.tail, lines.length + 1 + 1⟩ (sp.feed (.start stripComments) lines).2 line) := by
  rw [lastLine]
  rcases sp.scanLine_cases line true (sp.feed (.start stripComments) lines).2 with ⟨d, hd, he⟩ | ⟨_, he⟩ <;> rw [he]
  · rw [← hahead]
    exact advances_flush hanswers hd
  · exact advances_close _ (answers_concat hanswers) hmore (by simp)

/-- **Reading on** from a line that has not been scanned. -/
theorem advances_advance : ∀ (rest : List Answer) (lines : List Text) {line : Text} {s : ScanState} {asked : Nat} {given},
    answers = lines.map .line ++ .line line :: rest → s = (sp.feed (.start stripComments) lines).2 →
      asked = lines.length + 1 → (sp.feed (.start stripComments) lines).1 = given →
        Advances sp stripComments answers given (advance sp s line asked rest)
  | [], lines, line, _, _, _, hanswers, hs, hasked, hgiven => by
    subst hs hasked hgiven
    exact advances_lastLine hanswers rfl rfl
  | .finished :: rest, lines, line, _, _, _, hanswers, hs, hasked, hgiven => by
    subst hs hasked hgiven
    exact advances_lastLine hanswers rfl rfl
  | .failed fault :: rest, lines, line, _, _, _, hanswers, hs, hasked, hgiven => by
    subst hs hasked hgiven
    exact .inr ⟨fun _ => nofun, rfl, .ended (answers_concat hanswers) rfl (by simp [advance]) rfl rfl⟩
  | .line ahead :: rest, lines, line, _, _, _, hanswers, hs, hasked, hgiven => by
    subst hs hasked hgiven
    rw [advance]
    rcases sp.scanLine_cases line false (sp.feed (.start stripComments) lines).2 with ⟨d, hd, he⟩ | ⟨hd, he⟩ <;> rw [he]
    · exact advances_flush hanswers hd
    · have hfeed := Splitter.feed_content hd
      refine advances_advance rest (lines ++ [line]) (answers_concat hanswers) ?_ ?_ ?_
      · rw [hfeed]
      · rw [List.length_append]
        rfl
      · rw [hfeed]

/-- **One request** gives the directive that follows a batch, or reads on. -/
theorem Progress.next_cases (h : Progress sp stripComments answers given r) :
    (∃ d, r.queued = some d ∧ (r.next sp).1 = some (.ok (.directive d)) ∧
      Progress sp stripComments answers (given ++ [.directive d]) (r.next sp).2) ∨
    (r.queued = none ∧ Advances sp stripComments answers given (r.next sp)) := by
  obtain ⟨source, scan, phase, queued⟩ := r
  cases h with
  | fresh =>
    refine .inr ⟨rfl, ?_⟩
    have hnone : ∀ more : List Answer, more = ([] : List Text).map .line ++ more := fun _ => rfl
    rcases answers with _ | ⟨first | _ | fault, rest⟩
    · exact advances_close _ (hnone []) rfl rfl
    · exact advances_advance rest [] rfl rfl rfl rfl
    · exact advances_close _ (hnone (.finished :: rest)) rfl rfl
    · exact .inr ⟨fun _ => nofun, rfl, .ended (hnone (.failed fault :: rest)) rfl rfl rfl rfl⟩
  | @reading lines more given r hanswers hsource hscan hphase hgives =>
    dsimp only at hsource hscan hphase hgives
    subst hsource hscan hphase
    cases queued with
    | some d =>
      refine .inl ⟨d, rfl, rfl, .reading hanswers rfl rfl rfl ⟨?_, fun _ he => by cases he⟩⟩
      rw [← hgives.events]
      exact List.append_nil _
    | none =>
      refine .inr ⟨rfl, ?_⟩
      have hgiven := hgives.events
      rw [Option.toList_none, List.map_nil, List.append_nil] at hgiven
      rcases more with _ | ⟨line | _ | fault, rest⟩
      · exact advances_close _ hanswers rfl rfl
      · exact advances_advance rest lines hanswers rfl rfl hgiven.symm
      · exact advances_close _ hanswers rfl rfl
      · exact advances_close _ hanswers rfl rfl
  | @ended lines more given r hanswers hmore hsource hphase hqueued =>
    dsimp only at hsource hphase hqueued
    subst hsource hphase hqueued
    exact .inr ⟨rfl, .inr ⟨fun _ => nofun, rfl, .ended hanswers hmore rfl rfl rfl⟩⟩

/-! ## Any number of requests -/

theorem skip_succ (k : Nat) (r : Run) : skip sp (k + 1) r = ((skip sp k r).next sp).2 := by
  induction k generalizing r with
  | zero => rfl
  | succ k ih => rw [skip, ih, skip]

theorem pull_succ (k : Nat) (r : Run) : pull sp (k + 1) r = pull sp k r ++ [((skip sp k r).next sp).1] := by
  induction k generalizing r with
  | zero => rfl
  | succ k ih => rw [pull, ih, pull, skip, List.cons_append]

variable (sp stripComments answers) in
/-- **Any number of requests** keep a run in progress, and up to its end they give its events. -/
theorem Progress.skip (k : Nat) : ∃ given,
    Progress sp stripComments answers given (Run.skip sp k (.start stripComments { answers })) ∧
      ((Run.skip sp k (.start stripComments { answers })).phase ≠ .over →
        pull sp k (.start stripComments { answers }) = given.map fun e => some (.ok e)) := by
  induction k with
  | zero => exact ⟨[], .fresh, fun _ => rfl⟩
  | succ k ih =>
    obtain ⟨given, hprogress, hpull⟩ := ih
    rw [skip_succ]
    -- a run that is over stays so
    have hphase : ∀ {r : Run}, (r.next sp).2.phase ≠ .over → r.phase ≠ .over := by
      rintro ⟨source, scan, phase, queued⟩ hnext rfl
      cases queued <;> exact hnext rfl
    have hgives : ∀ e, ((Run.skip sp k (.start stripComments { answers })).next sp).1 = some (.ok e) →
        ((Run.skip sp k (.start stripComments { answers })).next sp).2.phase ≠ .over →
          pull sp (k + 1) (.start stripComments { answers }) = (given ++ [e]).map fun e => some (.ok e) := by
      intro e he hnext
      rw [pull_succ, hpull (hphase hnext), he, List.map_append]
      rfl
    rcases hprogress.next_cases with ⟨d, _, hd, hnext⟩ | ⟨_, ⟨sql, hsql, hnext⟩ | ⟨_, hover, hnext⟩⟩
    · exact ⟨_, hnext, hgives _ hd⟩
    · exact ⟨_, hnext, hgives _ hsql⟩
    · exact ⟨_, hnext, fun hne => absurd hover hne⟩

/-- A source has been asked for all lines scanned and for one answer more, and has no more lines when the run is over. -/
theorem Progress.asked_cases (h : Progress sp stripComments answers given r) :
    (r = .start stripComments { answers }) ∨ ∃ lines more, answers = lines.map .line ++ more ∧
      r.source = ⟨more.tail, lines.length + 1⟩ ∧ (r.phase = .over → Answer.leadingLines answers = lines) := by
  cases h with
  | fresh => exact .inl rfl
  | @reading lines more _ _ hanswers hsource _ hphase _ =>
    refine .inr ⟨lines, more, hanswers, hsource, fun hover => ?_⟩
    rw [hphase] at hover
    cases hover
  | @ended lines more _ _ hanswers hmore hsource _ _ =>
    exact .inr ⟨lines, more, hanswers, hsource, fun _ => hanswers ▸ Answer.leadingLines_append hmore lines⟩

/-- **What has been asked for.** The answers so far are gone from the source, and all of them but the last were lines. -/
theorem Progress.answered (h : Progress sp stripComments answers given r) :
    r.source.answers = answers.drop r.source.asked ∧
      ∀ i, i + 1 < r.source.asked → ∃ text, answers[i]? = some (.line text) := by
  rcases h.asked_cases with rfl | ⟨lines, more, rfl, hsource, _⟩
  · exact ⟨rfl, fun i hi => absurd hi (Nat.not_lt_zero _)⟩
  · rw [hsource]
    refine ⟨?_, fun i hi => ?_⟩
    · rw [← List.drop_drop, List.drop_left' (List.length_map _), List.drop_one]
    · have hlt : i < lines.length := Nat.lt_of_succ_lt_succ hi
      refine ⟨lines[i], ?_⟩
      rw [List.getElem?_append_left (by simpa using hlt)]
      simp

/-- Before a directive is given, its batch has been, and the source has been asked for its line and one answer more. -/
theorem Progress.exists_directive {d : Directive} (h : Progress sp stripComments answers given r)
    (hd : r.queued = some d) : r.phase ≠ .over ∧ ∃ before line earlier sql, (before ++ [line]).map .line <+: answers ∧
      (sp.feed (.start stripComments) before).2.directive? sp.separator line = some d ∧
      sp.split stripComments (.ofLines (before ++ [line])) = .ok (earlier ++ [.batch sql, .directive d]) ∧
      given = earlier ++ [.batch sql] ∧ r.source.asked = before.length + 1 + 1 := by
  cases h with
  | fresh => cases hd
  | @reading lines more _ _ hanswers hsource _ hphase hgives =>
    obtain ⟨before, line, rfl, hline⟩ := hgives.queued d hd
    have hfeed := Splitter.feed_directive hline
    have hevents := hgives.events
    rw [hd, hfeed, List.append_cons _ (Event.batch _)] at hevents
    refine ⟨by rw [hphase]; nofun, before, line, _, _, ?_, hline, ?_, List.append_cancel_right hevents, ?_⟩
    · rw [hanswers]
      exact List.prefix_append _ _
    · rw [Splitter.split_feed hline, hfeed]
    · rw [hsource, List.length_append]
      rfl
  | ended _ _ _ _ hqueued => rw [hqueued] at hd; cases hd

theorem Progress.queued_of_over (h : Progress sp stripComments answers given r) (hover : r.phase = .over) :
    r.queued = none := by
  cases h with
  | fresh => cases hover
  | reading _ _ _ hphase _ => rw [hphase] at hover; cases hover
  | ended _ _ _ _ hqueued => exact hqueued

theorem Progress.asked_of_over (h : Progress sp stripComments answers given r) (hover : r.phase = .over) :
    r.source.asked = (Answer.leadingLines answers).length + 1 := by
  rcases h.asked_cases with rfl | ⟨lines, more, _, hsource, hlines⟩
  · cases hover
  · rw [hsource, hlines hover]

/-- A directive is given only after its batch, and without asking the source. -/
theorem Progress.queued_of_next {d : Directive} (h : Progress sp stripComments answers given r)
    (hd : (r.next sp).1 = some (.ok (.directive d))) : r.queued = some d ∧ (r.next sp).2.source = r.source := by
  rcases h.next_cases with ⟨d', hqueued, hresult, _⟩ | ⟨_, ⟨sql, hsql, _⟩ | ⟨hno, _, _⟩⟩
  · obtain rfl : d' = d := by simpa using hresult.symm.trans hd
    exact ⟨hqueued, by rw [next, hqueued]⟩
  · cases hsql.symm.trans hd
  · exact absurd hd (hno _)

/-- A run that gives nothing or a fault is over. -/
theorem Progress.over_of_next (h : Progress sp stripComments answers given r)
    (hend : (r.next sp).1 = none ∨ ∃ fault, (r.next sp).1 = some (.error fault)) :
    (r.next sp).2.phase = .over ∧ Progress sp stripComments answers given (r.next sp).2 := by
  have hno : ∀ e, (r.next sp).1 ≠ some (.ok e) := by
    rcases hend with hnone | ⟨fault, hfault⟩
    · simp [hnone]
    · simp [hfault]
  rcases h.next_cases with ⟨d, _, hresult, _⟩ | ⟨_, ⟨sql, hsql, _⟩ | ⟨_, hover, hnext⟩⟩
  · exact absurd hresult (hno _)
  · exact absurd hsql (hno _)
  · exact ⟨hover, hnext⟩

/-- A run that is over stays as it is. -/
theorem next_of_over (hphase : r.phase = .over) (hqueued : r.queued = none) : r.next sp = (none, r) := by
  rw [next, hqueued, hphase]

/-- **One line ahead, and no further.** When a run gives the batch and the directive of a directive line, which are the
last events of the lines up to that one, its source has been asked for the line after it too, and for nothing else. What
the source has been asked for before its last answer were lines: after it has ended or failed it is never asked again,
however often the run is asked. And once a run has given nothing or a fault, its source has been asked once for each of
its lines and once more. -/
theorem asked_ahead (sp : Splitter) (stripComments : Bool) (answers : List Answer) :
    let run k := Run.skip sp k (.start stripComments { answers })
    let result k := ((run k).next sp).1
    let asked k := (run k).source.asked
    (∀ k d, result k = some (.ok (.directive d)) → ∃ before line earlier sql,
      (before ++ [line]).map .line <+: answers ∧
      (sp.scanLine line false (sp.scanAll (.start stripComments) before)).1 = .directive d ∧
      sp.split stripComments (.ofLines (before ++ [line])) = .ok (earlier ++ [.batch sql, .directive d]) ∧
      pull sp (k + 1) (run 0) = (earlier ++ [.batch sql, .directive d]).map (fun e => some (.ok e)) ∧
      asked k = (before ++ [line]).length + 1 ∧ asked (k + 1) = (before ++ [line]).length + 1) ∧
    (∀ k, (run k).source.answers = answers.drop (asked k) ∧
      ∀ i, i + 1 < asked k → ∃ text, answers[i]? = some (.line text)) ∧
    ∀ k, (result k = none ∨ ∃ fault, result k = some (.error fault)) →
      ∀ n, k < n → asked n = (Answer.leadingLines answers).length + 1 := by
  intro run result asked
  have hprogress : ∀ k, ∃ given, Progress sp stripComments answers given (run k) ∧
      ((run k).phase ≠ .over → pull sp k (run 0) = given.map fun e => some (.ok e)) :=
    Progress.skip sp stripComments answers
  have hrun : ∀ k, run (k + 1) = ((run k).next sp).2 := fun k => skip_succ k _
  refine ⟨fun k d hd => ?_, fun k => ?_, fun k hend n hn => ?_⟩
  · obtain ⟨given, hk, hpull⟩ := hprogress k
    obtain ⟨hqueued, hsource⟩ := hk.queued_of_next hd
    obtain ⟨hphase, before, line, earlier, sql, hprefix, hline, hsplit, rfl, hasked⟩ := hk.exists_directive hqueued
    have hscan : (sp.scanAll (.start stripComments) before).directive? sp.separator line = some d := by
      rw [← (Splitter.abreast_feed sp before ⟨rfl, rfl, rfl⟩).directive?_eq, hline]
    have hlength : asked k = (before ++ [line]).length + 1 := by rw [List.length_append]; exact hasked
    refine ⟨before, line, earlier, sql, hprefix, ScanState.fst_scanLine_eq_directive.2 hscan, hsplit, ?_, hlength, ?_⟩
    · rw [pull_succ, hpull hphase]
      show _ ++ [result k] = _
      rw [hd, ← List.map_singleton (f := fun e => some (Except.ok e)), ← List.map_append, List.append_assoc]
      rfl
    · rw [← hlength]
      exact congrArg Source.asked ((congrArg Run.source (hrun k)).trans hsource)
  · obtain ⟨given, hk, _⟩ := hprogress k
    exact hk.answered
  · obtain ⟨given, hk, _⟩ := hprogress k
    obtain ⟨hover, hnext⟩ := hk.over_of_next hend
    rw [← hrun] at hover hnext
    obtain ⟨more, rfl⟩ := Nat.exists_eq_add_of_lt hn
    -- the run does not change any more
    have hstays : run (k + more + 1) = run (k + 1) := by
      induction more with
      | zero => rfl
      | succ more ih =>
        rw [hrun, ← Nat.add_assoc, ih (by omega)]
        exact congrArg Prod.snd (next_of_over hover (hnext.queued_of_over hover))
    rw [show asked (k + more + 1) = asked (k + 1) from congrArg (·.source.asked) hstays]
    exact hnext.asked_of_over hover

/-- The source fails after the line that follows a directive, and would go on after that. -/
example :
    let answers : List Answer := [.line (.of "a"), .line (.of "GO"), .line (.of "b"), .failed .notFound, .line (.of "c")]
    let run k := Run.skip Splitter.unix k (.start false { answers })
    (List.range 5).map (fun k => (run k).source.asked) = [0, 3, 3, 4, 4] := rfl

end Run

end BatchMigrate
