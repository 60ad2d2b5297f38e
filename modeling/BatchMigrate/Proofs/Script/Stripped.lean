import BatchMigrate.Proofs.Script.Lossless
import BatchMigrate.Proofs.Script.Reprint
import BatchMigrate.Proofs.Sql.Comments

/-!
# Batches with their comments and without them

The marks of a line continue the text before it (`Mark.follows_mark`), also through the terminators between lines, so the
lines between two directives are marked text from their first character on (`Splitter.follows_cut`). With comments kept a
batch is all of that text, and with comments stripped it is what the text leaves outside comments
(`Splitter.agree_strip`), as long as the same lines are directives.
-/

namespace BatchMigrate

open Sql (isGap throughClose)

/-- SQL takes the text for white space that ends a line. -/
structure Sql.LineBreak (T : Text) : Prop where
  gap : ∀ c ∈ T, isGap c = true
  mem : '\n' ∈ T

/-! ## Marks that continue a text -/

namespace Mark

/-- The marks continue a text that has come to the given state of comments. -/
def Follows : Lex → List Mark → Prop
  | .plain, M => Marked M
  | .lineComment, M => ∃ (gap : List Mark) (blank : Text) (M' : List Mark),
      M = gap ++ (blank.map code ++ code '\n' :: M') ∧ (∀ m ∈ gap, m.inComment = true ∧ m.char ≠ '\n') ∧
      (∀ c ∈ blank, isGap c = true ∧ c ≠ '\n') ∧ Marked M'
  | .blockComment _, M => ∃ gap M', M = gap ++ M' ∧ (∀ m ∈ gap, m.inComment = true) ∧
      throughClose (fullText gap ++ fullText M') = (fullText gap, fullText M') ∧ Marked M'

theorem not_opens_of_isGap {c d : Char} (h : isGap c = true) : ¬Opens c d := by
  rintro (⟨rfl, -⟩ | ⟨rfl, -⟩) <;> cases h

theorem not_opens_isGap {c d : Char} (h : isGap d = true) : ¬Opens c d := by
  rintro (⟨-, rfl⟩ | ⟨-, rfl⟩) <;> cases h

/-- White space is code wherever it stands. -/
theorem Marked.blank : ∀ {blank : Text} {M : List Mark}, (∀ c ∈ blank, isGap c = true) → Marked M →
    Marked (blank.map Mark.code ++ M)
  | [], _, _, h => h
  | _ :: _, _, hb, h =>
    .code (fun _ _ => not_opens_of_isGap (hb _ List.mem_cons_self))
      (Marked.blank (fun c hc => hb c (List.mem_cons_of_mem _ hc)) h)

theorem throughClose_cons {c : Char} {r : Text} (h : ∀ r', c = '*' → r ≠ '/' :: r') :
    throughClose (c :: r) = (c :: (throughClose r).1, (throughClose r).2) := by
  rw [throughClose]
  exact fun r' hc hr => h r' hc hr

/-- Text without an asterisk closes no comment. -/
theorem throughClose_append_of_ne {rest cut after : Text} (h : throughClose rest = (cut, after)) :
    ∀ {gap : Text}, (∀ c ∈ gap, c ≠ '*') → throughClose (gap ++ rest) = (gap ++ cut, after)
  | [], _ => h
  | c :: gap, hgap => by
    obtain ⟨hc, hgap⟩ := List.forall_mem_cons.1 hgap
    rw [List.cons_append, throughClose_cons fun _ he => absurd he hc, throughClose_append_of_ne h hgap]
    rfl

/-- **The end of a line.** The terminator ends a comment that `--` opened, and is part of a block comment. -/
theorem follows_terminator {T : Text} (hT : Sql.LineBreak T) {lex : Lex} {M : List Mark}
    (h : Follows lex.atLineEnd M) : Follows lex (T.map (fun c => ⟨c, lex.atLineEnd.inBlock⟩) ++ M) := by
  obtain ⟨hT, hbreak⟩ := hT
  cases lex with
  | plain => exact Marked.blank hT h
  | lineComment =>
    obtain ⟨blank, rest, rfl, hblank⟩ := List.eq_append_cons_of_mem hbreak
    obtain ⟨hfirst, hrest⟩ := List.forall_mem_append.1 hT
    refine ⟨[], blank, rest.map code ++ M, ?_, List.forall_mem_nil _, fun c hc => ⟨hfirst c hc, ?_⟩,
      Marked.blank (fun c hc => hrest c (List.mem_cons_of_mem _ hc)) h⟩
    · rw [List.map_append, List.append_assoc]
      rfl
    · rintro rfl
      exact hblank hc
  | blockComment k =>
    obtain ⟨gap, M', rfl, hgap, hclose, hM'⟩ := h
    have hstar : ∀ c ∈ T, c ≠ '*' := fun c hc he => by
      have := hT c hc
      rw [he] at this
      cases this
    refine ⟨T.map comment ++ gap, M', (List.append_assoc ..).symm, ?_, ?_, hM'⟩
    · refine List.forall_mem_append.2 ⟨fun m hm => ?_, hgap⟩
      obtain ⟨c, -, rfl⟩ := List.mem_map.1 hm
      rfl
    · have hfull : fullText (T.map comment ++ gap) = T ++ fullText gap := by
        rw [fullText_append, fullText, List.map_map]
        exact congrArg (· ++ _) (List.map_id T)
      rw [hfull, List.append_assoc]
      exact throughClose_append_of_ne hclose hstar

/-- **One line.** The marks of a line go on where the text before it has come to. -/
theorem follows_mark (n : Nat) {lex : Lex} {line : Text} {M : List Mark} (hline : '\n' ∉ line)
    (hM : ∀ d ∈ (fullText M).head?, isGap d = true) (h : Follows (lex.mark n line).2 M) :
    Follows lex ((lex.mark n line).1 ++ M) := by
  fun_induction Lex.mark n lex line with
  | case1 => exact h
  | case2 r marks final he ih =>
    rw [he] at ih
    obtain ⟨gap, M', hgap, hcomment, hclose, hM'⟩ := ih (fun hm => hline (by simp [hm])) h
    show Marked (comment '/' :: comment '*' :: (marks ++ M))
    rw [hgap]
    exact .block hcomment hclose hM'
  | case3 r marks final he ih =>
    rw [he] at ih
    obtain ⟨gap, blank, M', hgap, hcomment, hblank, hM'⟩ := ih (fun hm => hline (by simp [hm])) h
    show Marked (comment '-' :: comment '-' :: (marks ++ M))
    rw [hgap]
    exact .line hcomment hblank hM'
  | case4 c r hblock hhyphen marks final he ih =>
    rw [he] at ih
    have hr := Lex.fullText_mark n .plain r
    rw [he] at hr
    refine .code (fun d hd => ?_) (ih (fun hm => hline (List.mem_cons_of_mem _ hm)) h)
    replace hd : d ∈ (fullText (marks ++ M)).head? := hd
    rw [fullText_append, hr] at hd
    cases r with
    | nil => exact not_opens_isGap (hM d hd)
    | cons e r =>
      cases hd
      rintro (⟨rfl, rfl⟩ | ⟨rfl, rfl⟩)
      · exact hblock r rfl rfl
      · exact hhyphen r rfl rfl
  | case5 c r marks final he ih =>
    rw [he] at ih
    obtain ⟨hc, hr⟩ := not_or.1 (List.mem_cons.not.1 hline)
    obtain ⟨gap, blank, M', hgap, hcomment, hblank, hM'⟩ := ih hr h
    refine ⟨comment c :: gap, blank, M', congrArg (comment c :: ·) hgap, ?_, hblank, hM'⟩
    exact List.forall_mem_cons.2 ⟨⟨rfl, Ne.symm hc⟩, hcomment⟩
  | case6 k r marks final he ih =>
    rw [he] at ih
    exact ⟨[comment '*', comment '/'], marks ++ M, rfl, by simp [comment], by simp [fullText, comment, throughClose],
      ih (fun hm => hline (by simp [hm])) h⟩
  | case7 k c r hstar marks final he ih =>
    rw [he] at ih
    obtain ⟨gap, M', hgap, hcomment, hclose, hM'⟩ := ih (fun hm => hline (List.mem_cons_of_mem _ hm)) h
    have hr := Lex.fullText_mark n (.blockComment k) r
    rw [he] at hr
    have hrest : fullText gap ++ fullText M' = r ++ fullText M := by
      rw [← fullText_append, ← hgap, fullText_append, hr]
    refine ⟨comment c :: gap, M', congrArg (comment c :: ·) hgap, List.forall_mem_cons.2 ⟨rfl, hcomment⟩, ?_, hM'⟩
    show throughClose (c :: (fullText gap ++ fullText M')) = (c :: fullText gap, _)
    rw [throughClose_cons, hclose]
    intro r' hc hslash
    rw [hrest] at hslash
    cases r with
    | nil =>
      have := hM '/' (by rw [show fullText M = _ from hslash]; rfl)
      cases this
    | cons e r =>
      cases hslash
      exact hstar r hc rfl

end Mark

/-! ## The lines between two directives -/

namespace Scanned

/-- The marks of a line and of the terminator after it. -/
def marksWith (T : Text) (x : Scanned) : List Mark :=
  x.before.marks x.line ++ T.map fun c => ⟨c, x.after.lex.inBlock⟩

theorem fullText_marksWith (T : Text) (x : Scanned) : Mark.fullText (x.marksWith T) = x.line ++ T := by
  rw [marksWith, Mark.fullText_append, ScanState.marks, Lex.fullText_mark, Mark.fullText, List.map_map]
  exact congrArg _ (List.map_id T)

/-- Without its comments a line has its terminator unless that is part of a block comment. -/
theorem codeText_marksWith (T : Text) (x : Scanned) : Mark.codeText (x.marksWith T) =
    Mark.codeText (x.before.marks x.line) ++ if x.after.lex.inBlock then [] else T := by
  rw [marksWith, Mark.codeText_append]
  cases x.after.lex.inBlock with
  | true =>
    have hcomment : ∀ m ∈ T.map Mark.comment, m.inComment = true := by
      intro m hm
      obtain ⟨c, -, rfl⟩ := List.mem_map.1 hm
      rfl
    exact congrArg _ (Mark.codeText_of_comment hcomment)
  | false => exact congrArg _ (Mark.codeText_code T)

end Scanned

namespace Segments

variable {α β : Type}

/-- The lines of the segments are marked text; those of the first one continue a text in the given state. -/
def Follows (T : Text) (lex : Lex) : Segments Scanned → Prop
  | ⟨[], rest⟩ => Mark.Follows lex (rest.flatMap (Scanned.marksWith T))
  | ⟨g :: closed, rest⟩ => Mark.Follows lex (g.body.flatMap (Scanned.marksWith T)) ∧
      ∀ body ∈ bodies ⟨closed, rest⟩, Mark.Marked (body.flatMap (Scanned.marksWith T))

theorem follows_plain {T : Text} : ∀ {s : Segments Scanned}, s.Follows T .plain →
    ∀ body ∈ s.bodies, Mark.Marked (body.flatMap (Scanned.marksWith T))
  | ⟨[], _⟩, h => List.forall_mem_singleton.2 h
  | ⟨_ :: _, _⟩, h => List.forall_mem_cons.2 h

/-- One more line at the front. -/
theorem follows_cons {T : Text} (hT : Sql.LineBreak T) {x : Scanned} (hline : '\n' ∉ x.line)
    (hafter : x.after.lex = (x.before.advance x.line).lex) :
    ∀ {s : Segments Scanned}, s.Follows T x.after.lex → (s.cons x).Follows T x.before.lex := by
  have hcons : ∀ {M : List Mark}, Mark.Follows x.after.lex M → Mark.Follows x.before.lex (x.marksWith T ++ M) := by
    intro M h
    rw [Scanned.marksWith, List.append_assoc, hafter]
    rw [hafter] at h
    refine Mark.follows_mark _ hline (fun d hd => ?_) (Mark.follows_terminator hT h)
    cases T with
    | nil => cases hT.mem
    | cons c T =>
      cases hd
      exact hT.gap _ List.mem_cons_self
  rintro ⟨_ | ⟨g, closed⟩, rest⟩ h
  · exact hcons h
  · exact ⟨hcons h.1, h.2⟩

/-- Segments with related lines and the same directives. -/
structure Agree (R : α → β → Prop) (s : Segments α) (s' : Segments β) : Prop where
  closed : List.Forall₂ (fun g g' => List.Forall₂ R g.body g'.body ∧ g.directive = g'.directive) s.closed s'.closed
  rest : List.Forall₂ R s.rest s'.rest

variable {R : α → β → Prop}

theorem Agree.cons {a : α} {b : β} (hab : R a b) : ∀ {s : Segments α} {s' : Segments β}, Agree R s s' →
    Agree R (s.cons a) (s'.cons b)
  | ⟨[], _⟩, ⟨[], _⟩, ⟨_, hrest⟩ => ⟨.nil, .cons hab hrest⟩
  | ⟨_ :: _, _⟩, ⟨_ :: _, _⟩, ⟨.cons ⟨hbody, hd⟩ hclosed, hrest⟩ => ⟨.cons ⟨.cons hab hbody, hd⟩ hclosed, hrest⟩

/-- Related lines are cut in the same way. -/
theorem agree_cut {outcome : α → LineOutcome} {outcome' : β → LineOutcome}
    (ho : ∀ a b, R a b → outcome a = outcome' b) {xs : List α} {ys : List β} (h : List.Forall₂ R xs ys) :
    Agree R (cut outcome xs) (cut outcome' ys) := by
  induction h with
  | nil => exact ⟨.nil, .nil⟩
  | @cons a b xs ys hab h ih =>
    rw [cut, cut, ho a b hab]
    cases outcome' b with
    | content => exact ih.cons hab
    | directive d => exact ⟨.cons ⟨.nil, rfl⟩ ih.closed, ih.rest⟩

/-- Each segment of one side belongs to one of the other. -/
theorem Agree.exists_body {body' : List β} : ∀ {s : Segments α} {s' : Segments β}, Agree R s s' → body' ∈ s'.bodies →
    ∃ body ∈ s.bodies, List.Forall₂ R body body'
  | ⟨[], rest⟩, ⟨[], _⟩, ⟨_, hrest⟩, h => ⟨rest, List.mem_cons_self, List.mem_singleton.1 h ▸ hrest⟩
  | ⟨g :: closed, rest⟩, ⟨g' :: closed', rest'⟩, ⟨.cons ⟨hbody, _⟩ hclosed, hrest⟩, h => by
    rcases List.mem_cons.1 h with rfl | h
    · exact ⟨g.body, List.mem_cons_self, hbody⟩
    · have hagree : Agree R ⟨closed, rest⟩ ⟨closed', rest'⟩ := ⟨hclosed, hrest⟩
      obtain ⟨body, hmem, hrel⟩ := hagree.exists_body h
      exact ⟨body, List.mem_cons_of_mem _ hmem, hrel⟩

/-- The texts of segments, each as often as its directive says, and that of the rest. -/
def sent (text : List α → Text) (s : Segments α) : List Text :=
  (s.closed.flatMap fun g => List.replicate g.directive.repeatCount (text g.body)) ++ [text s.rest]

theorem forall₂_replicate {Q : Text → Text → Prop} {k t : Text} (h : Q k t) :
    ∀ n, List.Forall₂ Q (List.replicate n k) (List.replicate n t)
  | 0 => .nil
  | n + 1 => .cons h (forall₂_replicate h n)

/-- Segments that agree send texts in pairs. -/
theorem Agree.forall₂_sent {Q : Text → Text → Prop} {text : List α → Text} {text' : List β → Text} :
    ∀ {s : Segments α} {s' : Segments β}, Agree R s s' →
      (∀ body ∈ s.bodies, ∀ body', List.Forall₂ R body body' → Q (text body) (text' body')) →
        List.Forall₂ Q (s.sent text) (s'.sent text')
  | ⟨[], _⟩, ⟨[], _⟩, ⟨_, hrest⟩, hQ => .cons (hQ _ List.mem_cons_self _ hrest) .nil
  | ⟨g :: closed, rest⟩, ⟨g' :: closed', rest'⟩, ⟨.cons ⟨hbody, hd⟩ hclosed, hrest⟩, hQ => by
    have ih : List.Forall₂ Q (sent text ⟨closed, rest⟩) (sent text' ⟨closed', rest'⟩) :=
      forall₂_sent ⟨hclosed, hrest⟩ fun body hb => hQ body (List.mem_cons_of_mem _ hb)
    simp only [sent, List.flatMap_cons, List.append_assoc, ← hd] at ih ⊢
    exact List.rel_append (forall₂_replicate (hQ _ List.mem_cons_self _ hbody) _) ih

end Segments

theorem Mark.follows_nil {lex : Lex} (hlex : lex.atLineEnd = lex) (h : lex.inBlock = false) : Follows lex [] := by
  rw [← hlex] at h
  rw [← hlex, Lex.atLineEnd_eq_plain h]
  exact .nil

theorem Lex.atLineEnd_atLineEnd (lex : Lex) : lex.atLineEnd.atLineEnd = lex.atLineEnd := by cases lex <;> rfl

namespace Splitter

variable {sp : Splitter}

/-- **Lines with their terminators** are marked text between any two directives. -/
theorem follows_cut (hT : Sql.LineBreak sp.terminator) : ∀ {lines : List Text} {s : ScanState},
    s.stripComments = false → s.lex.atLineEnd = s.lex → (∀ line ∈ lines, '\n' ∉ line) →
      (((sp.scan s lines).map (·.after.lex)).getLast?.getD s.lex).inBlock = false →
        (Segments.cut Scanned.outcome (sp.scan s lines)).Follows sp.terminator s.lex
  | [], s, hs, hlex, _, hlast => Mark.follows_nil hlex hlast
  | line :: rest, s, hs, hlex, hn, hlast => by
    obtain ⟨hline, hn⟩ := List.forall_mem_cons.1 hn
    have hnext := Lex.atLineEnd_atLineEnd (s.lex.mark (s.lineNumber + 1) line).2
    cases hd : s.directive? sp.separator line with
    | none =>
      rw [scan_of_content hd, List.map_cons, List.getLast?_cons] at hlast
      rw [scan_of_content hd]
      exact Segments.follows_cons hT hline rfl (follows_cut hT hs hnext hn hlast)
    | some d =>
      rw [scan_of_directive hd, List.map_cons, List.getLast?_cons] at hlast
      rw [scan_of_directive hd]
      have ih := follows_cut (s := (s.advance line).takePending.2) hT hs hnext hn hlast
      refine ⟨Mark.follows_nil hlex (ScanState.inBlock_of_directive hs hd), Segments.follows_plain ?_⟩
      rw [show (s.advance line).takePending.2.lex = .plain from ScanState.lex_advance_of_directive hd] at ih
      exact ih

/-! ## Both ways -/

/-- A line with its comments and the same line without them. -/
structure Scanned.Strips (T : Text) (x y : Scanned) : Prop where
  outcome : x.outcome = y.outcome
  full : x.broken T = Mark.fullText (x.marksWith T)
  code : y.broken T = Mark.codeText (x.marksWith T)

theorem strips_of_inStep {T : Text} {x y : Scanned} (h : Scanned.InStep x y) (ho : x.outcome = y.outcome)
    (hx : x.before.stripComments = false) (hy : y.before.stripComments = true) (hn : '\n' ∉ x.line) :
    Scanned.Strips T x y := by
  refine ⟨ho, by rw [Scanned.broken_of_keep hx, Scanned.fullText_marksWith], ?_⟩
  have hmarks : y.before.marks y.line = x.before.marks x.line := by
    rw [← h.line, ScanState.marks_eq hn, ScanState.marks_eq hn, h.before]
  rw [Scanned.codeText_marksWith, Scanned.broken, Scanned.kept, ScanState.keptText_of_strip hy, hmarks, hy, h.after,
    Bool.and_true]

theorem forall₂_strips {T : Text} {xs ys : List Scanned} (h : List.Forall₂ Scanned.InStep xs ys)
    (ho : xs.map Scanned.outcome = ys.map Scanned.outcome) (hx : ∀ x ∈ xs, x.before.stripComments = false)
    (hy : ∀ y ∈ ys, y.before.stripComments = true) (hn : ∀ x ∈ xs, '\n' ∉ x.line) :
    List.Forall₂ (Scanned.Strips T) xs ys := by
  induction h with
  | nil => exact .nil
  | @cons x y xs ys hxy h ih =>
    obtain ⟨hhead, htail⟩ := List.cons_eq_cons.1 ho
    obtain ⟨hx, hxs⟩ := List.forall_mem_cons.1 hx
    obtain ⟨hy, hys⟩ := List.forall_mem_cons.1 hy
    obtain ⟨hn, hns⟩ := List.forall_mem_cons.1 hn
    exact .cons (strips_of_inStep hxy hhead hx hy hn) (ih htail hxs hys hns)

/-- What the lines of a batch keep is their marked text, and what that text leaves outside comments. -/
theorem broken_of_strips {T : Text} {body body' : List Scanned} (h : List.Forall₂ (Scanned.Strips T) body body') :
    body.flatMap (Scanned.broken T) = Mark.fullText (body.flatMap (Scanned.marksWith T)) ∧
      body'.flatMap (Scanned.broken T) = Mark.codeText (body.flatMap (Scanned.marksWith T)) := by
  induction h with
  | nil => exact ⟨rfl, rfl⟩
  | cons hxy h ih =>
    simp only [List.flatMap_cons, Mark.fullText_append, Mark.codeText_append, hxy.full, hxy.code, ih.1, ih.2]
    exact ⟨trivial, trivial⟩

/-- **The segments of a script** with its comments and without them, if the same lines are directives. -/
theorem agree_strip {lines : List Text} (hn : ∀ line ∈ lines, '\n' ∉ line)
    (ho : (sp.scan (.start false) lines).map Scanned.outcome = (sp.scan (.start true) lines).map Scanned.outcome) :
    Segments.Agree (Scanned.Strips sp.terminator) (Segments.cut Scanned.outcome (sp.scan (.start false) lines))
      (Segments.cut Scanned.outcome (sp.scan (.start true) lines)) := by
  have hline : ∀ x ∈ sp.scan (.start false) lines, '\n' ∉ x.line := fun x hx => hn _ (line_mem_of_mem_scan hx)
  have hstrips : List.Forall₂ (Scanned.Strips sp.terminator) (sp.scan (.start false) lines)
      (sp.scan (.start true) lines) :=
    forall₂_strips (forall₂_scan sp lines rfl rfl rfl rfl) ho (fun x hx => stripComments_of_mem_scan hx)
      (fun y hy => stripComments_of_mem_scan hy) hline
  exact Segments.agree_cut (fun x y h => h.outcome) hstrips

end Splitter

end BatchMigrate
