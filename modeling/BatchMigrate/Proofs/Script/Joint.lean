import BatchMigrate.Proofs.Script.Cursor
import BatchMigrate.Proofs.Script.Lossless

/-!
# Terminators that are line breaks

A scan takes the end of a line for the end of a comment that `--` opened; whoever reads a batch as one text sees the
terminator there instead. The two agree on which characters of the lines are comments (`Text.KeepsComments`) just when the
terminator is read as a line break wherever it may stand (`Text.IsLineBreak`): no marker goes across its two ends, and it
leads out of a comment that `--` opened, but not out of a block comment nor into one. Line feeds are such terminators, with
or without text around them that is no part of a marker; a blank is not, nor is a comment. `Text.keepsComments_iff` is the
equivalence.
-/

namespace BatchMigrate

/-! ## Line breaks -/

namespace Cursor

/-- The place after a line break. -/
def afterBreak : Cursor → Cursor
  | plain => plain
  | slash => plain
  | hyphen => plain
  | lineComment => plain
  | blockComment => blockComment
  | star => blockComment

theorem afterBreak_eq (q : Cursor) : q.afterBreak = q.mode.afterBreak.cursor := by cases q <;> rfl

/-- Characters that lead nowhere else. -/
theorem after_eq_self {q : Cursor} {t : Text} (h : ∀ c ∈ t, q.next c = q) : q.after t = q := by
  induction t with
  | nil => rfl
  | cons c t ih =>
    obtain ⟨hc, ht⟩ := List.forall_mem_cons.1 h
    rw [after_cons, hc, ih ht]

theorem apart_cursor (mode : Mode) (t : Text) : mode.cursor.Apart t := by
  intro c _ h
  cases mode <;> cases h

end Cursor

namespace Text

/-- A text that is read as a line break: it completes no marker that opens a comment, and from every place it leads to where
a line break leads to. -/
structure IsLineBreak (T : Text) : Prop where
  head_ne : T.head? ≠ some '*' ∧ T.head? ≠ some '-'
  plain : Cursor.plain.after T = .plain
  lineComment : Cursor.lineComment.after T = .plain
  blockComment : Cursor.blockComment.after T = .blockComment
  star : Cursor.star.after T = .blockComment

instance (T : Text) : Decidable T.IsLineBreak :=
  decidable_of_iff ((T.head? ≠ some '*' ∧ T.head? ≠ some '-') ∧ Cursor.plain.after T = .plain ∧
      Cursor.lineComment.after T = .plain ∧ Cursor.blockComment.after T = .blockComment ∧
      Cursor.star.after T = .blockComment)
    ⟨fun ⟨hhead, hplain, hline, hblock, hstar⟩ => ⟨hhead, hplain, hline, hblock, hstar⟩,
      fun h => ⟨h.head_ne, h.plain, h.lineComment, h.blockComment, h.star⟩⟩

namespace IsLineBreak

variable {T : Text}

theorem ne_nil (h : T.IsLineBreak) : T ≠ [] := by
  rintro rfl
  cases h.lineComment

/-- A line break completes no marker that opens a comment, whatever follows it. -/
theorem apart (h : T.IsLineBreak) {q : Cursor} (hq : q.mode = .plain) (rest : Text) : q.Apart (T ++ rest) := by
  intro c hc hhalf
  rw [List.head?_append_of_ne_nil _ h.ne_nil] at hc
  obtain ⟨hstar, hhyphen⟩ := h.head_ne
  cases q with
  | slash => exact hstar (hc.trans hhalf.symm)
  | hyphen => exact hhyphen (hc.trans hhalf.symm)
  | plain => cases hhalf
  | lineComment | blockComment | star => cases hq

/-- **A line break** leads from every place to where a line break leads to. -/
theorem after_eq (h : T.IsLineBreak) (q : Cursor) : q.after T = q.afterBreak := by
  have hplain : ∀ {q : Cursor}, q.mode = .plain → q.after T = .plain := by
    intro q hq
    have hapart := h.apart hq []
    rw [List.append_nil] at hapart
    obtain ⟨c, rest, rfl⟩ := List.exists_cons_of_ne_nil h.ne_nil
    have hnext := (Cursor.next_of_apart (hapart c rfl) none).1
    rw [hq] at hnext
    rw [Cursor.after_cons, hnext]
    exact h.plain
  cases q with
  | plain | slash | hyphen => exact hplain rfl
  | lineComment => exact h.lineComment
  | blockComment => exact h.blockComment
  | star => exact h.star

end IsLineBreak

/-- **Line feeds are line breaks**, and so is a line feed between other characters of which none is one of a marker. -/
theorem isLineBreak_of_mem {T : Text} (hfeed : '\n' ∈ T) (hT : ∀ c ∈ T, c ≠ '*' ∧ c ≠ '-' ∧ c ≠ '/') : T.IsLineBreak := by
  have hplain : ∀ {t : Text}, (∀ c ∈ t, c ≠ '*' ∧ c ≠ '-' ∧ c ≠ '/') → Cursor.plain.after t = .plain := fun ht =>
    Cursor.after_eq_self fun c hc => by simp [Cursor.next, Cursor.outside, ht c hc]
  have hblock : ∀ {t : Text}, (∀ c ∈ t, c ≠ '*' ∧ c ≠ '-' ∧ c ≠ '/') → Cursor.blockComment.after t = .blockComment :=
    fun ht => Cursor.after_eq_self fun c hc => by simp [Cursor.next, Cursor.inside, ht c hc]
  refine ⟨⟨fun h => ?_, fun h => ?_⟩, hplain hT, ?_, hblock hT, ?_⟩
  · exact (hT '*' (List.mem_of_head? h)).1 rfl
  · exact (hT '-' (List.mem_of_head? h)).2.1 rfl
  · obtain ⟨before, after, rfl, hbefore⟩ := List.eq_append_cons_of_mem hfeed
    have hline : Cursor.lineComment.after before = .lineComment :=
      Cursor.after_eq_self fun c hc => if_neg fun he : c = '\n' => hbefore (he ▸ hc)
    rw [Cursor.after_append, hline]
    exact hplain fun c hc => hT c (List.mem_append_right _ (List.mem_cons_of_mem _ hc))
  · obtain ⟨c, rest, rfl⟩ := List.exists_cons_of_ne_nil (List.ne_nil_of_mem hfeed)
    obtain ⟨hc, hrest⟩ := List.forall_mem_cons.1 hT
    have hnext : Cursor.star.next c = .blockComment := by simp [Cursor.next, Cursor.inside, hc]
    rw [Cursor.after_cons, hnext]
    exact hblock hrest

end Text

/-! ## Lines between two directives -/

namespace Scanned

/-- Lines that a scan goes through one after the other, from a state of comments to one outside block comments. -/
inductive Chain : Lex → List Scanned → Prop
  | nil {lex : Lex} (hend : lex.inBlock = false) : Chain lex []
  | cons {x : Scanned} {body : List Scanned} (hafter : x.after.lex = (x.before.advance x.line).lex)
      (hrest : Chain x.after.lex body) : Chain x.before.lex (x :: body)

end Scanned

namespace Segments

open Scanned (Chain)

/-- The lines of each segment are a chain; those of the first one begin in the given state, the others outside comments. -/
def Chained (lex : Lex) : Segments Scanned → Prop
  | ⟨[], rest⟩ => Chain lex rest
  | ⟨g :: closed, rest⟩ => Chain lex g.body ∧ ∀ body ∈ bodies ⟨closed, rest⟩, Chain .plain body

theorem chained_plain : ∀ {s : Segments Scanned}, s.Chained .plain → ∀ body ∈ s.bodies, Chain .plain body
  | ⟨[], _⟩, h => List.forall_mem_singleton.2 h
  | ⟨_ :: _, _⟩, h => List.forall_mem_cons.2 h

/-- One more line at the front. -/
theorem chained_cons {x : Scanned} (hafter : x.after.lex = (x.before.advance x.line).lex) :
    ∀ {s : Segments Scanned}, s.Chained x.after.lex → (s.cons x).Chained x.before.lex
  | ⟨[], _⟩, h => .cons hafter h
  | ⟨_ :: _, _⟩, h => ⟨.cons hafter h.1, h.2⟩

end Segments

namespace Splitter

variable {sp : Splitter}

/-- **The lines between two directives** are a chain, if comments are kept and the last line ends outside block comments. -/
theorem chained_cut : ∀ {lines : List Text} {s : ScanState}, s.stripComments = false →
    (((sp.scan s lines).map (·.after.lex)).getLast?.getD s.lex).inBlock = false →
      (Segments.cut Scanned.outcome (sp.scan s lines)).Chained s.lex
  | [], _, _, hend => .nil hend
  | line :: rest, s, hs, hend => by
    cases hd : s.directive? sp.separator line with
    | none =>
      rw [scan_of_content hd, List.map_cons, List.getLast?_cons] at hend
      rw [scan_of_content hd]
      exact Segments.chained_cons rfl (chained_cut hs hend)
    | some d =>
      rw [scan_of_directive hd, List.map_cons, List.getLast?_cons] at hend
      rw [scan_of_directive hd]
      have ih := chained_cut (s := (s.advance line).takePending.2) hs hend
      rw [show (s.advance line).takePending.2.lex = .plain from ScanState.lex_advance_of_directive hd] at ih
      exact ⟨.nil (ScanState.inBlock_of_directive hs hd), Segments.chained_plain ih⟩

end Splitter

/-! ## Comments of a batch -/

namespace Scanned

/-- The marks of a batch, in which those of each line stand as the scan has found them. -/
def Joined (T : Text) : List Scanned → List Mark → Prop
  | [], marks => marks = []
  | x :: body, marks => x.before.marks x.line <+: marks ∧ Joined T body (marks.drop (x.line.length + T.length))

instance (T : Text) : ∀ (body : List Scanned) (marks : List Mark), Decidable (Joined T body marks)
  | [], marks => inferInstanceAs (Decidable (marks = []))
  | x :: body, marks =>
    have := instDecidableJoined T body (marks.drop (x.line.length + T.length))
    inferInstanceAs (Decidable (_ ∧ _))

/-- The text of a batch: its lines, each with the terminator. -/
def batchText (T : Text) (body : List Scanned) : Text := body.flatMap fun x => x.line ++ T

/-- The batch, read as one text, has the comments that the scan has found in its lines, and leaves no block comment open. -/
def Faithful (T : Text) (body : List Scanned) : Prop :=
  Joined T body (Mode.plain.mark (batchText T body)).1 ∧ (Mode.plain.mark (batchText T body)).2 ≠ .blockComment

theorem joined_cons {T : Text} {x : Scanned} {body : List Scanned} {joint marks : List Mark}
    (hjoint : joint.length = T.length) (h : Joined T body marks) :
    Joined T (x :: body) (x.before.marks x.line ++ joint ++ marks) := by
  have hline : (x.before.marks x.line).length = x.line.length := by
    conv_rhs => rw [← Lex.fullText_mark (x.before.lineNumber + 1) x.before.lex x.line]
    exact (List.length_map _).symm
  refine ⟨List.append_assoc .. ▸ List.prefix_append .., ?_⟩
  rw [← hline, ← hjoint, ← List.length_append, List.drop_left]
  exact h

/-- **A batch of a chain of lines**, joined by a line break, is read as the scan has read its lines. -/
theorem joined_of_chain {T : Text} (hT : T.IsLineBreak) {lex : Lex} {body : List Scanned} (h : Chain lex body)
    (hn : ∀ x ∈ body, '\n' ∉ x.line) :
    Joined T body (lex.mode.cursor.marks (batchText T body)) ∧
      (lex.mode.cursor.after (batchText T body)).mode ≠ .blockComment := by
  induction h with
  | @nil lex hend =>
    refine ⟨rfl, ?_⟩
    show lex.mode.cursor.mode ≠ .blockComment
    cases lex with
    | plain => exact fun h => by cases h
    | lineComment => exact fun h => by cases h
    | blockComment k => cases hend
  | @cons x body hafter _ ih =>
    obtain ⟨hline, hn⟩ := List.forall_mem_cons.1 hn
    obtain ⟨ihmarks, ihmode⟩ := ih hn
    have hmarks : x.before.marks x.line = x.before.lex.mode.cursor.marks x.line := by
      rw [ScanState.marks_eq hline, Mode.mark_eq_marks]
    have hbreak : (x.before.lex.mode.cursor.after x.line).after T = x.after.lex.mode.cursor := by
      rw [hT.after_eq, Cursor.afterBreak_eq, hafter, ScanState.mode_lex_advance hline, Mode.mark_eq_marks]
    have htext : batchText T (x :: body) = x.line ++ (T ++ batchText T body) := by
      rw [batchText, List.flatMap_cons, List.append_assoc]
      rfl
    rw [htext, Cursor.marks_append fun hq => hT.apart hq _, Cursor.marks_append (q := Cursor.after _ _), hbreak,
      ← List.append_assoc, ← hmarks, Cursor.after_append, Cursor.after_append, hbreak]
    · exact ⟨joined_cons (Cursor.length_marks _ _) ihmarks, ihmode⟩
    · rw [hbreak]
      exact fun _ => Cursor.apart_cursor _ _

end Scanned

instance (T : Text) (body : List Scanned) : Decidable (Scanned.Faithful T body) := inferInstanceAs (Decidable (_ ∧ _))

/-- The terminator never changes what is a comment: each batch of a script whose comments are kept is the text of the lines
of a segment, and those that are handed out are faithful to their lines. -/
def Text.KeepsComments (T : Text) : Prop :=
  ∀ (sp : Splitter) (lines : List Text) (events : List Event), sp.terminator = T → (∀ line ∈ lines, '\n' ∉ line) →
    sp.split false (.ofLines lines) = .ok events →
      let bodies := (Segments.cut Scanned.outcome (sp.scan (.start false) lines)).bodies
      (∀ sql, .batch sql ∈ events → ∃ body ∈ bodies, sql = Scanned.batchText T body) ∧
        ∀ body ∈ bodies, .batch (Scanned.batchText T body) ∈ events → Scanned.Faithful T body

namespace Splitter

variable {sp : Splitter} {lines : List Text} {events : List Event}

/-- The lines of each segment of a script that splits are a chain. -/
theorem chain_of_lineItems (h : sp.lineItems (.start false) lines = events.map .ok) :
    ∀ body ∈ (Segments.cut Scanned.outcome (sp.scan (.start false) lines)).bodies, Scanned.Chain .plain body := by
  refine Segments.chained_plain (chained_cut rfl ?_)
  rw [List.getLast?_map]
  cases hx : (sp.scan (.start false) lines).getLast? with
  | none => rfl
  | some x => exact inBlock_of_lineItems h hx

end Splitter

/-- A line break keeps comments. -/
theorem Text.IsLineBreak.keepsComments {T : Text} (hT : T.IsLineBreak) : T.KeepsComments := by
  rintro sp lines events rfl hn hsplit
  rw [Splitter.split_eq_ok, Splitter.items_ofLines] at hsplit
  refine ⟨fun sql hsql => ?_, fun body hbody _ => ?_⟩
  · obtain ⟨body, hbody, rfl⟩ := Splitter.exists_body_of_batch hsplit hsql
    refine ⟨body, hbody, congrArg List.flatten (List.map_congr_left fun x hx => ?_)⟩
    exact Scanned.broken_of_keep (Splitter.stripComments_of_mem_scan (Splitter.mem_scan_of_mem_bodies hbody hx))
  · have hlines : ∀ x ∈ body, '\n' ∉ x.line := fun x hx =>
      hn x.line (Splitter.line_mem_of_mem_scan (Splitter.mem_scan_of_mem_bodies hbody hx))
    have hjoined := Scanned.joined_of_chain hT (Splitter.chain_of_lineItems hsplit body hbody) hlines
    rw [Scanned.Faithful, Mode.mark_eq_marks]
    exact hjoined

/-! ## Scripts of two lines -/

/-- Two lines that are content, of which the second one ends outside block comments. -/
def TwoLines (first second : Text) : Prop :=
  ('\n' ∉ first ∧ '\n' ∉ second) ∧ (ScanState.start false).directive? .go first = none ∧
    ((ScanState.start false).advance first).directive? .go second = none ∧
    (((ScanState.start false).advance first).advance second).lex.inBlock = false

instance (first second : Text) : Decidable (TwoLines first second) := inferInstanceAs (Decidable (_ ∧ _))

namespace TwoLines

variable {first second : Text}

/-- The two lines as a scan goes through them. -/
def scanned (T first second : Text) : List Scanned :=
  let s := (ScanState.start false).absorb T first false
  [⟨.start false, first, .content, s⟩, ⟨s, second, .content, s.absorb T second true⟩]

theorem batchText_scanned (T first second : Text) :
    Scanned.batchText T (scanned T first second) = first ++ (T ++ (second ++ T)) := by
  simp [Scanned.batchText, scanned]

/-- The splitter with a terminator, and with `GO` for a separator. -/
def splitter (T : Text) (hT : T ≠ []) : Splitter := { terminator := T, terminator_ne_nil := hT }

theorem scan_eq (h : TwoLines first second) {T : Text} (hT : T ≠ []) :
    (splitter T hT).scan (.start false) [first, second] = scanned T first second := by
  obtain ⟨-, hfirst, hsecond, -⟩ := h
  rw [Splitter.scan_of_content hfirst, Splitter.scan_of_content hsecond]
  rfl

/-- Two lines of content are one batch. -/
theorem split_eq (h : TwoLines first second) {T : Text} (hT : T ≠ []) :
    (splitter T hT).split false (.ofLines [first, second]) = .ok [.batch (Scanned.batchText T (scanned T first second))] := by
  obtain ⟨-, hfirst, hsecond, hend⟩ := h
  let s := (ScanState.start false).absorb T first false
  have hlast : (s.absorb T second true).lex.inBlock = false := hend
  have hs : s.pending = first ++ T := by
    refine (@Splitter.pending_absorb (splitter T hT) (.start false) first).trans ?_
    rw [Scanned.broken_of_keep rfl]
    rfl
  have hpending : (s.absorb T second true).pending = first ++ (T ++ (second ++ T)) := by
    show ScanState.terminate false (s.advance second).lex T true (s.pending ++ s.keptText second) = _
    rw [ScanState.keptText_of_keep rfl, hs]
    simp [ScanState.terminate, hT]
  rw [Splitter.split_eq_ok, Splitter.items_ofLines, Splitter.lineItems_of_content hfirst,
    Splitter.lineItems_of_content hsecond]
  show Splitter.closing (s.absorb T second true) = _
  rw [Splitter.closing_of_not_inBlock hlast, hpending, batchText_scanned, if_neg (by simp [hT])]
  rfl

end TwoLines

namespace Text.KeepsComments

variable {T : Text}

/-- **What faithful batches say of two lines**: the first one is marked in the batch as on its own, and the second one as
after the first. -/
theorem two_lines (h : T.KeepsComments) (hT : T ≠ []) {first second : Text} (hlines : TwoLines first second) :
    (ScanState.start false).marks first <+: Cursor.plain.marks (first ++ (T ++ (second ++ T))) ∧
      ((ScanState.start false).advance first).marks second <+: ((Cursor.plain.after first).after T).marks (second ++ T) := by
  have hfeed : ∀ line ∈ [first, second], '\n' ∉ line := by simp [hlines.1]
  have hmem : TwoLines.scanned T first second ∈
      (Segments.cut Scanned.outcome ((TwoLines.splitter T hT).scan (.start false) [first, second])).bodies := by
    rw [hlines.scan_eq hT]
    exact List.mem_cons_self
  obtain ⟨hmarks, -⟩ := (h (TwoLines.splitter T hT) _ _ rfl hfeed (hlines.split_eq hT)).2 _ hmem List.mem_cons_self
  rw [Mode.mark_eq_marks, TwoLines.batchText_scanned] at hmarks
  obtain ⟨hx, hy, -⟩ := hmarks
  refine ⟨hx, ?_⟩
  rw [← List.length_append, ← List.append_assoc, Cursor.drop_marks, Cursor.after_append] at hy
  exact hy

end Text.KeepsComments

/-! ## Texts that are no line breaks -/

namespace Cursor

/-- Only outside comments and after no first half of a marker are all of these characters outside comments. -/
theorem eq_plain {q : Cursor} {following : Option Char} (hstar : q.inComment '*' following = false)
    (hhyphen : q.inComment '-' following = false) (hletter : q.inComment 'a' following = false) : q = plain := by
  cases q with
  | plain => rfl
  | slash => simp [inComment] at hstar
  | hyphen => simp [inComment] at hhyphen
  | lineComment => simp [inComment] at hletter
  | blockComment => simp [inComment] at hletter
  | star => simp [inComment] at hletter

/-- Only inside a block comment and not after an asterisk of it does a letter belong to a comment, and one after a slash,
but not one after the end of the comment. -/
theorem eq_blockComment {q : Cursor} {following : Option Char} (hletter : q.inComment 'a' (some '*') = true)
    (hslash : (q.next '/').inComment 'a' (some '*') = true)
    (hclosed : ((q.next '*').next '/').inComment 'a' following = false) : q = blockComment := by
  cases q with
  | blockComment => rfl
  | plain | slash | hyphen => exact absurd hletter (by decide)
  | lineComment => exact absurd hclosed (by simp [inComment, next])
  | star => exact absurd hslash (by decide)

end Cursor

namespace Text.KeepsComments

variable {T : Text}

/-- The first line comes to the place from which the terminator is read, and the second one tells where that leads to:
outside comments, if the first line is no block comment. -/
theorem after_outside (h : T.KeepsComments) (hT : T ≠ []) (first : Text)
    (hfirst : first ∈ ([[], ['-', '-']] : List Text)) : (Cursor.plain.after first).after T = .plain := by
  have hcode : ∀ c, [c] ∈ ([['*'], ['-'], ['a']] : List Text) →
      ((Cursor.plain.after first).after T).inComment c T.head? = false := by
    intro c hc
    have hlines : ∀ first ∈ ([[], ['-', '-']] : List Text), ∀ second ∈ ([['*'], ['-'], ['a']] : List Text),
        TwoLines first second ∧ ((ScanState.start false).advance first).marks second = second.map .code := by decide
    obtain ⟨htwo, hmarks⟩ := hlines first hfirst [c] hc
    have hsecond := (h.two_lines hT htwo).2
    rw [hmarks] at hsecond
    exact (Cursor.marks_of_prefix hsecond).1
  exact Cursor.eq_plain (hcode '*' (by simp)) (hcode '-' (by simp)) (hcode 'a' (by simp))

/-- From inside a block comment the terminator leads to inside a block comment. -/
theorem after_inside (h : T.KeepsComments) (hT : T ≠ []) (first : Text)
    (hfirst : first ∈ ([['/', '*'], ['/', '*', '*']] : List Text)) : (Cursor.plain.after first).after T = .blockComment := by
  have hlines : ∀ first ∈ ([['/', '*'], ['/', '*', '*']] : List Text), TwoLines first ['a', '*', '/'] ∧
      TwoLines first ['/', 'a', '*', '/'] ∧ TwoLines first ['*', '/', 'a'] := by decide
  have hmarks : ∀ first ∈ ([['/', '*'], ['/', '*', '*']] : List Text), let s := (ScanState.start false).advance first
      s.marks ['a', '*', '/'] = [.comment 'a', .comment '*', .comment '/'] ∧
      s.marks ['/', 'a', '*', '/'] = [.comment '/', .comment 'a', .comment '*', .comment '/'] ∧
      s.marks ['*', '/', 'a'] = [.comment '*', .comment '/', .code 'a'] := by decide
  obtain ⟨hletter, hslash, hclosed⟩ := hlines first hfirst
  obtain ⟨mletter, mslash, mclosed⟩ := hmarks first hfirst
  have pletter := (h.two_lines hT hletter).2
  have pslash := (h.two_lines hT hslash).2
  have pclosed := (h.two_lines hT hclosed).2
  rw [mletter] at pletter
  rw [mslash] at pslash
  rw [mclosed] at pclosed
  exact Cursor.eq_blockComment (Cursor.marks_of_prefix pletter).1
    (Cursor.marks_of_prefix (Cursor.marks_of_prefix pslash).2).1
    (Cursor.marks_of_prefix (Cursor.marks_of_prefix (Cursor.marks_of_prefix pclosed).2).2).1

/-- The terminator opens no comment with the end of a line. -/
theorem opens_head (h : T.KeepsComments) (hT : T ≠ []) (c : Char) (hc : [c] ∈ ([['/'], ['-']] : List Text)) :
    Cursor.opens c T.head? = false := by
  have hlines : ∀ first ∈ ([['/'], ['-']] : List Text),
      TwoLines first ['a'] ∧ (ScanState.start false).marks first = first.map .code := by decide
  obtain ⟨htwo, hmarks⟩ := hlines [c] hc
  have hfirst := (h.two_lines hT htwo).1
  rw [hmarks, List.singleton_append] at hfirst
  have hopens := (Cursor.marks_of_prefix hfirst).1
  rwa [List.head?_append_of_ne_nil _ hT] at hopens

/-- **A text that keeps comments** is a line break. -/
theorem isLineBreak (h : T.KeepsComments) (hT : T ≠ []) : T.IsLineBreak := by
  refine ⟨⟨fun hstar => ?_, fun hhyphen => ?_⟩, ?plain, ?lineComment, ?blockComment, ?star⟩
  · have hslash := h.opens_head hT '/' (by simp)
    rw [hstar] at hslash
    exact absurd hslash (by decide)
  · have hfirst := h.opens_head hT '-' (by simp)
    rw [hhyphen] at hfirst
    exact absurd hfirst (by decide)
  case plain => exact h.after_outside hT [] (by simp)
  case lineComment => exact h.after_outside hT ['-', '-'] (by simp)
  case blockComment => exact h.after_inside hT ['/', '*'] (by simp)
  case star => exact h.after_inside hT ['/', '*', '*'] (by simp)

end Text.KeepsComments

/-- **Terminators that keep comments.** Whatever the separator, and for every script of lines without line feeds that
splits with its comments kept: a batch, read as one text, has the comments that the scan has found in its lines, and leaves no
block comment open. This holds of the terminators that are line breaks, and of no others; so it holds of line feeds, with or
without other characters around them of which none is one of a marker. -/
theorem Text.keepsComments_iff {T : Text} (hT : T ≠ []) : (T.KeepsComments ↔ T.IsLineBreak) ∧
    ('\n' ∈ T → (∀ c ∈ T, c ≠ '*' ∧ c ≠ '-' ∧ c ≠ '/') → T.KeepsComments) :=
  ⟨⟨fun h => h.isLineBreak hT, fun h => h.keepsComments⟩,
    fun hfeed hmarker => (isLineBreak_of_mem hfeed hmarker).keepsComments⟩

/-- Markers that would go across the ends of lines, and comments that end with them or go on. -/
theorem Text.keepsComments_iff_semicolon :
    let sp : Splitter := { terminator := .of ";\n", terminator_ne_nil := by decide }
    let lines : List Text := [.of "a -", .of "- b /", .of "* c -- d /*", .of "/* *", .of "/ */ e"]
    let sql : Text := .of "a -;\n- b /;\n* c -- d /*;\n/* *;\n/ */ e;\n"
    let bodies := (Segments.cut Scanned.outcome (sp.scan (.start false) lines)).bodies
    Text.of ";\n" ≠ [] ∧ sp.split false (.ofLines lines) = .ok [.batch sql] ∧
      ∃ body ∈ bodies, sql = Scanned.batchText (.of ";\n") body ∧ Scanned.Faithful (.of ";\n") body := by
  intro sp lines sql bodies
  have hkeeps := (@Text.keepsComments_iff (.of ";\n") (by decide)).1.2 (by decide)
  have hsplit : sp.split false (.ofLines lines) = .ok [.batch sql] := by decide +kernel
  obtain ⟨hbatches, hfaithful⟩ := hkeeps sp lines _ rfl (by decide) hsplit
  obtain ⟨body, hbody, hsql⟩ := hbatches sql List.mem_cons_self
  exact ⟨by decide, hsplit, body, hbody, hsql, hfaithful body hbody (hsql ▸ List.mem_cons_self)⟩

/-- **Terminators that change what is a comment.** After a blank, a comment that ended with its line goes on; a marker opens
a comment that no line has. -/
theorem Text.not_keepsComments :
    let blank : Splitter := { terminator := .of " ", terminator_ne_nil := by decide }
    let marker : Splitter := { terminator := .of "/*", terminator_ne_nil := by decide }
    Splitter.ofTerminator (.of " ") = .ok blank ∧ Splitter.ofTerminator (.of "/*") = .ok marker ∧
      blank.split false (.ofLines [.of "-- a", .of "b"]) = .ok [.batch (.of "-- a b ")] ∧
      (Mode.plain.mark (.of "-- a b ")).1 = (Text.of "-- a b ").map .comment ∧
      marker.split false (.ofLines [.of "a", .of "b"]) = .ok [.batch (.of "a/*b/*")] ∧
      (Mode.plain.mark (.of "a/*b/*")).2 = .blockComment ∧
      ¬Text.KeepsComments (.of " ") ∧ ¬Text.KeepsComments (.of "/*") := by
  intro blank marker
  have hblank : blank.split false (.ofLines [.of "-- a", .of "b"]) = .ok [.batch (.of "-- a b ")] := by decide +kernel
  have hmarker : marker.split false (.ofLines [.of "a", .of "b"]) = .ok [.batch (.of "a/*b/*")] := by decide +kernel
  refine ⟨rfl, rfl, hblank, by decide, hmarker, by decide, fun h => ?_, fun h => ?_⟩
  · exact absurd (h blank _ _ rfl (by decide) hblank).2 (by decide +kernel)
  · exact absurd (h marker _ _ rfl (by decide) hmarker).2 (by decide +kernel)

end BatchMigrate
