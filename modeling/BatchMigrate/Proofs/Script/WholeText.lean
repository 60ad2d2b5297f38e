import BatchMigrate.Proofs.Script.Segments

/-!
# Comments of a whole text

`Mode.mark` reads a whole text character by character and tells which characters belong to comments. A scan of the lines
of the text agrees with it: after each line the two are inside a block comment or not alike (`Mode.mode_lex_advance`),
and the lines carry the same marks (`Mode.mark_eq_mark`). A line break belongs to a comment just when it lies inside a
block comment, which is when a scan that strips comments leaves it out; so a stripped batch is the text of its lines
without the characters of comments (`Splitter.split_strip_wholeText`).
-/

namespace BatchMigrate

/-! ## Reading a whole text -/

/-- Where the reading of a whole text stands. -/
inductive Mode
  /-- Outside all comments. -/
  | plain
  /-- Inside a comment that ends at the next line feed. -/
  | lineComment
  /-- Inside a block comment. -/
  | blockComment
  deriving DecidableEq, Repr

namespace Mode

/-- The characters of a text with their marks, and the mode at its end. A line feed ends a comment that `--` opened, and
is no part of it. -/
def mark : Mode → Text → List Mark × Mode
  | mode, [] => ([], mode)
  | plain, '/' :: '*' :: r => (.comment '/' :: .comment '*' :: (mark blockComment r).1, (mark blockComment r).2)
  | plain, '-' :: '-' :: r => (.comment '-' :: .comment '-' :: (mark lineComment r).1, (mark lineComment r).2)
  | plain, c :: r => (.code c :: (mark plain r).1, (mark plain r).2)
  | lineComment, '\n' :: r => (.code '\n' :: (mark plain r).1, (mark plain r).2)
  | lineComment, c :: r => (.comment c :: (mark lineComment r).1, (mark lineComment r).2)
  | blockComment, '*' :: '/' :: r => (.comment '*' :: .comment '/' :: (mark plain r).1, (mark plain r).2)
  | blockComment, c :: r => (.comment c :: (mark blockComment r).1, (mark blockComment r).2)

/-- The mode after a line feed. -/
def afterBreak : Mode → Mode
  | lineComment => plain
  | mode => mode

/-- The mark of a line feed. -/
def breakMark (mode : Mode) : Mark := ⟨'\n', mode = blockComment⟩

/-- A reading loses no character. -/
theorem fullText_mark (mode : Mode) (t : Text) : Mark.fullText (mode.mark t).1 = t := by
  fun_induction mark mode t <;> simp_all [Mark.fullText, Mark.comment, Mark.code]

/-- The character before a line feed is not the first one of a marker. -/
theorem eq_cons_of_append_break {r rest r' : Text} {d : Char} (hd : d ≠ '\n') (h : r ++ '\n' :: rest = d :: r') :
    ∃ r'', r = d :: r'' := by
  cases r with
  | nil =>
    cases h
    exact absurd rfl hd
  | cons e r =>
    cases h
    exact ⟨r, rfl⟩

/-- No marker goes across a line feed. -/
theorem mark_append_break (mode : Mode) (t rest : Text) :
    mode.mark (t ++ '\n' :: rest) =
      ((mode.mark t).1 ++ (mode.mark t).2.breakMark :: ((mode.mark t).2.afterBreak.mark rest).1,
        ((mode.mark t).2.afterBreak.mark rest).2) := by
  fun_induction mark mode t with
  | case1 mode => cases mode <;> simp [mark, afterBreak, breakMark, Mark.code, Mark.comment]
  | case2 r ih => simp [mark, ih]
  | case3 r ih => simp [mark, ih]
  | case4 c r h₁ h₂ ih =>
    rw [List.cons_append, mark, ih]
    · rfl
    · intro r' hc hr
      obtain ⟨r'', hr⟩ := eq_cons_of_append_break (by decide) hr
      exact h₁ r'' hc hr
    · intro r' hc hr
      obtain ⟨r'', hr⟩ := eq_cons_of_append_break (by decide) hr
      exact h₂ r'' hc hr
  | case5 r ih => simp [mark, ih]
  | case6 c r h ih => simp [mark, ih]
  | case7 r ih => simp [mark, ih]
  | case8 c r h ih =>
    rw [List.cons_append, mark, ih]
    · rfl
    · intro r' hc hr
      obtain ⟨r'', hr⟩ := eq_cons_of_append_break (by decide) hr
      exact h r'' hc hr

end Mode

/-! ## A scan of the lines -/

/-- The mode of a reading at the place where a scan stands. -/
def Lex.mode : Lex → Mode
  | .plain => .plain
  | .lineComment => .lineComment
  | .blockComment _ => .blockComment

namespace Mode

/-- On one line, a reading and a scan mark alike. -/
theorem mark_eq_mark (n : Nat) {lex : Lex} {t : Text} (h : '\n' ∉ t) :
    lex.mode.mark t = ((lex.mark n t).1, (lex.mark n t).2.mode) := by
  fun_induction Lex.mark n lex t with
  | case1 lex => cases lex <;> rfl
  | case2 r marks final he ih => simp_all [Lex.mode, mark]
  | case3 r marks final he ih => simp_all [Lex.mode, mark]
  | case4 c r h₁ h₂ marks final he ih => simp_all [Lex.mode, mark]
  | case5 c r marks final he ih =>
    have hc : c ≠ '\n' := fun hc => h (hc ▸ List.mem_cons_self)
    have ihr : lineComment.mark r = (marks, final.mode) := by
      have ihr := ih fun hm => h (List.mem_cons_of_mem _ hm)
      rwa [he] at ihr
    show lineComment.mark (c :: r) = _
    rw [mark, ihr]
    exact hc
  | case6 k r marks final he ih => simp_all [Lex.mode, mark]
  | case7 k c r h marks final he ih => simp_all [Lex.mode, mark]

end Mode

namespace ScanState

variable {s : ScanState} {line : Text}

/-- The marks of a scanned line are those of a reading. -/
theorem marks_eq (h : '\n' ∉ line) : s.marks line = (s.lex.mode.mark line).1 := by
  rw [Mode.mark_eq_mark (s.lineNumber + 1) h]
  rfl

/-- **One line.** After a line a scan stands where a reading stands after the line feed. -/
theorem mode_lex_advance (h : '\n' ∉ line) :
    (s.advance line).lex.mode = (s.lex.mode.mark line).2.afterBreak := by
  rw [Mode.mark_eq_mark (s.lineNumber + 1) h]
  cases hl : (s.lex.mark (s.lineNumber + 1) line).2 <;> simp [advance, hl, Lex.atLineEnd, Lex.mode, Mode.afterBreak]

end ScanState

theorem Lex.inBlock_eq_decide (lex : Lex) : lex.inBlock = decide (lex.mode = .blockComment) := by
  cases lex <;> rfl

theorem Mode.afterBreak_eq_blockComment {mode : Mode} : mode.afterBreak = .blockComment ↔ mode = .blockComment := by
  cases mode <;> decide

/-! ## The lines of marked text -/

/-- Marked text cut after its line feeds. -/
def Mark.lines : List Mark → List (List Mark)
  | [] => [[]]
  | m :: r =>
    if m.char = '\n' then [m] :: lines r
    else match lines r with
      | [] => [[m]]
      | first :: rest => (m :: first) :: rest

theorem Mark.lines_of_not_mem : ∀ {marks : List Mark}, (∀ m ∈ marks, m.char ≠ '\n') → Mark.lines marks = [marks]
  | [], _ => rfl
  | m :: r, h => by
    rw [lines, if_neg (h m List.mem_cons_self), lines_of_not_mem fun x hx => h x (List.mem_cons_of_mem _ hx)]

/-- The first line of marked text ends at the first line feed. -/
theorem Mark.lines_append_break : ∀ {marks : List Mark}, (∀ m ∈ marks, m.char ≠ '\n') → ∀ {b : Mark},
    b.char = '\n' → ∀ rest, Mark.lines (marks ++ b :: rest) = (marks ++ [b]) :: Mark.lines rest
  | [], _, b, hb, rest => by rw [List.nil_append, lines, if_pos hb, List.nil_append]
  | m :: r, h, b, hb, rest => by
    rw [List.cons_append, lines, if_neg (h m List.mem_cons_self),
      lines_append_break (fun x hx => h x (List.mem_cons_of_mem _ hx)) hb]
    rfl

namespace Mode

/-- The marks of the lines of a text, each with its line feed. -/
def lineMarks (mode : Mode) : List Text → List (List Mark)
  | [] => []
  | [line] => [(mode.mark line).1]
  | line :: next :: rest =>
    ((mode.mark line).1 ++ [(mode.mark line).2.breakMark]) :: lineMarks (mode.mark line).2.afterBreak (next :: rest)

theorem length_lineMarks : ∀ (mode : Mode) (lines : List Text), (mode.lineMarks lines).length = lines.length
  | _, [] => rfl
  | _, [_] => rfl
  | _, _ :: next :: rest => congrArg Nat.succ (length_lineMarks _ (next :: rest))

theorem char_ne_of_mem_mark {mode : Mode} {line : Text} (h : '\n' ∉ line) {m : Mark} (hm : m ∈ (mode.mark line).1) :
    m.char ≠ '\n' := by
  intro hc
  have ht := fullText_mark mode line
  rw [← ht] at h
  exact h (hc ▸ List.mem_map_of_mem hm)

/-- The marked text of lines, cut at its line feeds, is the marks of the lines. -/
theorem lines_mark : ∀ {lines : List Text} (mode : Mode), lines ≠ [] → (∀ line ∈ lines, '\n' ∉ line) →
    Mark.lines (mode.mark (Text.intercalate ['\n'] lines)).1 = mode.lineMarks lines
  | [], _, h, _ => absurd rfl h
  | [line], mode, _, hn => by
    rw [List.intercalate_singleton]
    exact Mark.lines_of_not_mem fun _ hm => char_ne_of_mem_mark (hn line List.mem_cons_self) hm
  | line :: next :: rest, mode, _, hn => by
    have hl : '\n' ∉ line := hn line List.mem_cons_self
    have ih := lines_mark (mode.mark line).2.afterBreak (List.cons_ne_nil next rest)
      fun x hx => hn x (List.mem_cons_of_mem _ hx)
    rw [List.intercalate_cons_cons, List.append_assoc, List.singleton_append, mark_append_break, lineMarks, ← ih]
    exact Mark.lines_append_break (fun _ hm => char_ne_of_mem_mark hl hm) rfl _

end Mode

/-! ## The marks of scanned lines -/

/-- Each scanned line keeps the characters that its marks leave outside comments. -/
def FitsMarks (terminator : Text) : List (Scanned × List Mark) → Prop
  | [] => True
  | [(x, marks)] => Mark.codeText marks = x.kept
  | (x, marks) :: next :: rest =>
    Mark.codeText marks = x.broken terminator ∧ FitsMarks terminator (next :: rest)

/-- A line that is not the last one keeps its line break unless its marks put it into a comment. -/
theorem FitsMarks.codeText_of_mem_dropLast {T : Text} : ∀ {zs : List (Scanned × List Mark)}, FitsMarks T zs →
    ∀ z ∈ zs.dropLast, Mark.codeText z.2 = z.1.broken T
  | [], _, _, h => by cases h
  | [_], _, _, h => by cases h
  | y :: next :: rest, hf, z, h => by
    rw [List.dropLast_cons_of_ne_nil (List.cons_ne_nil next rest)] at h
    rcases List.mem_cons.1 h with rfl | h
    · exact hf.1
    · exact codeText_of_mem_dropLast hf.2 z h

theorem FitsMarks.tail {T : Text} {z : Scanned × List Mark} {zs : List (Scanned × List Mark)}
    (h : FitsMarks T (z :: zs)) : FitsMarks T zs := by
  cases zs with
  | nil => trivial
  | cons next rest => exact h.2

theorem FitsMarks.suffix {T : Text} {zs rest : List (Scanned × List Mark)} (h : FitsMarks T zs) (hr : rest <:+ zs) :
    FitsMarks T rest := by
  obtain ⟨before, rfl⟩ := hr
  induction before with
  | nil => exact h
  | cons z before ih => exact ih h.tail

theorem Mark.codeText_flatMap {α : Type} (marks : α → List Mark) (zs : List α) :
    Mark.codeText (zs.flatMap marks) = zs.flatMap fun z => Mark.codeText (marks z) := by
  induction zs with
  | nil => rfl
  | cons z zs ih => simp only [List.flatMap_cons, Mark.codeText, List.filter_append, List.map_append] at ih ⊢; rw [ih]

/-- The last lines keep what their marks leave outside comments. -/
theorem FitsMarks.codeText_eq_lastText {T : Text} : ∀ {zs : List (Scanned × List Mark)}, FitsMarks T zs →
    Mark.codeText (zs.flatMap Prod.snd) = Scanned.lastText T (zs.map Prod.fst)
  | [], _ => rfl
  | [z], h => by
    rw [Mark.codeText_flatMap, List.flatMap_cons, List.flatMap_nil, List.append_nil]
    exact h
  | z :: next :: rest, h => by
    have ih := codeText_eq_lastText h.2
    rw [Mark.codeText_flatMap] at ih ⊢
    rw [List.flatMap_cons, ih, h.1]
    rfl

namespace Splitter

variable {sp : Splitter}

theorem length_scan (s : ScanState) (lines : List Text) : (sp.scan s lines).length = lines.length := by
  rw [← List.length_map, scan_map_line]

theorem codeText_append_breakMark (marks : List Mark) (mode : Mode) :
    Mark.codeText (marks ++ [mode.breakMark]) =
      Mark.codeText marks ++ if mode = .blockComment then [] else ['\n'] := by
  simp only [Mark.codeText, List.filter_append, List.map_append, Mode.breakMark]
  by_cases h : mode = .blockComment <;> simp [h]

/-- **All lines.** With comments stripped, the scanned lines keep what a reading of the text leaves outside comments. -/
theorem fitsMarks_scan (hT : sp.terminator = ['\n']) : ∀ {lines : List Text} {s : ScanState},
    s.stripComments = true → (∀ line ∈ lines, '\n' ∉ line) →
      FitsMarks sp.terminator ((sp.scan s lines).zip (s.lex.mode.lineMarks lines))
  | [], _, _, _ => trivial
  | [line], s, hs, hn => by
    obtain ⟨outcome, after, next, he, _⟩ := scan_cons sp s line []
    rw [he]
    show Mark.codeText (s.lex.mode.mark line).1 = s.keptText line
    rw [ScanState.keptText_of_strip hs, ScanState.marks_eq (hn line List.mem_cons_self)]
  | line :: next :: rest, s, hs, hn => by
    have hl : '\n' ∉ line := hn line List.mem_cons_self
    obtain ⟨outcome, after, s', he, ha, hlex, hs', _⟩ := scan_cons sp s line (next :: rest)
    have ih := fitsMarks_scan hT (hs'.trans hs) fun x hx => hn x (List.mem_cons_of_mem line hx)
    rw [hlex, ScanState.mode_lex_advance hl] at ih
    have hcode : Mark.codeText ((s.lex.mode.mark line).1 ++ [(s.lex.mode.mark line).2.breakMark]) =
        Scanned.broken sp.terminator ⟨s, line, outcome, after⟩ := by
      have hb : ((s.lex.mode.mark line).2 = .blockComment) ↔ after.lex.inBlock = true := by
        rw [ha, Lex.inBlock_eq_decide, ScanState.mode_lex_advance hl, decide_eq_true_iff,
          Mode.afterBreak_eq_blockComment]
      rw [codeText_append_breakMark, hT]
      simp only [Scanned.broken, Scanned.kept, ScanState.keptText_of_strip hs, ScanState.marks_eq hl, hs, Bool.and_true, hb]
    rw [he]
    obtain ⟨outcome', after', s'', he', _⟩ := scan_cons sp s' next rest
    rw [he'] at ih ⊢
    cases rest with
    | nil => exact ⟨hcode, ih⟩
    | cons third rest => exact ⟨hcode, ih⟩

/-- After each line, a scan is inside a block comment if a reading of the text up to there is. -/
theorem mode_after_scan : ∀ {lines : List Text} {s : ScanState} {k : Nat} {x : Scanned},
    (∀ line ∈ lines, '\n' ∉ line) → (sp.scan s lines)[k]? = some x →
      x.after.lex.mode = (s.lex.mode.mark (Text.intercalate ['\n'] (lines.take (k + 1)))).2.afterBreak
  | [], _, _, _, _, h => by simp [scan] at h
  | line :: rest, s, k, x, hn, h => by
    have hl : '\n' ∉ line := hn line List.mem_cons_self
    obtain ⟨outcome, after, next, he, ha, hlex, _⟩ := scan_cons sp s line rest
    rw [he] at h
    cases k with
    | zero =>
      cases h
      rw [ha, ScanState.mode_lex_advance hl, Nat.zero_add, List.take_one, List.head?_cons, Option.toList_some,
        List.intercalate_singleton]
    | succ k =>
      have ih := mode_after_scan (fun y hy => hn y (List.mem_cons_of_mem _ hy)) h
      cases rest with
      | nil => simp [scan] at h
      | cons second rest =>
        rw [ih, hlex, ScanState.mode_lex_advance hl]
        simp only [List.take_succ_cons, List.intercalate_cons_cons, List.append_assoc, List.singleton_append,
          Mode.mark_append_break]

/-- The last batch of a script whose comments are stripped. -/
def strippedLast (text : Text) : List Event := if text = [] then [] else [.batch (text ++ ['\n'])]

/-- **Stripping agrees with a reading of the whole text.** After each line, a scan is inside a block comment iff the
reading of the text up to there is, and outside all comments otherwise. And when a script splits with its comments
stripped, each batch is the text of its lines without the characters that the reading of the whole text puts into
comments; the last line has no line feed in the text and gets one if its batch holds anything. -/
theorem split_strip_wholeText (sp : Splitter) (hT : sp.terminator = ['\n']) {lines : List Text}
    (hn : ∀ line ∈ lines, '\n' ∉ line) :
    (∀ stripComments k x, (sp.scan (.start stripComments) lines)[k]? = some x →
      let mode := (Mode.plain.mark (Text.intercalate ['\n'] (lines.take (k + 1)))).2
      (x.after.lex.inBlock = true ↔ mode = .blockComment) ∧ (mode ≠ .blockComment → x.after.lex = .plain)) ∧
    ∀ events, sp.split true (.ofLines lines) = .ok events →
      let marks := Mark.lines (Mode.plain.mark (Text.intercalate ['\n'] lines)).1
      events = (Segments.cut (fun z => z.1.outcome) ((sp.scan (.start true) lines).zip marks)).events
        (fun body => Mark.codeText (body.flatMap Prod.snd))
        (fun rest => strippedLast (Mark.codeText (rest.flatMap Prod.snd))) := by
  constructor
  · intro stripComments k x hx mode
    have hm : x.after.lex.mode = mode.afterBreak := mode_after_scan hn hx
    rw [Lex.inBlock_eq_decide, hm, decide_eq_true_iff, Mode.afterBreak_eq_blockComment]
    refine ⟨Iff.rfl, fun hne => ?_⟩
    cases hl : x.after.lex <;> cases hw : mode <;> simp_all [Lex.mode, Mode.afterBreak]
  · intro events h marks
    have hitems : sp.lineItems (.start true) lines = events.map .ok := by
      rw [← items_ofLines]
      exact split_eq_ok.1 h
    have hmarks : (sp.scan (.start true) lines).zip marks =
        (sp.scan (.start true) lines).zip (Mode.plain.lineMarks lines) := by
      by_cases hl : lines = []
      · rw [hl]
        rfl
      · rw [← Mode.lines_mark .plain hl hn]
    have hfits : FitsMarks sp.terminator ((sp.scan (.start true) lines).zip marks) := by
      rw [hmarks]
      exact fitsMarks_scan hT rfl hn
    have hfst : ((sp.scan (.start true) lines).zip marks).map Prod.fst = sp.scan (.start true) lines := by
      rw [hmarks]
      exact List.map_fst_zip (Nat.le_of_eq (by rw [length_scan, Mode.length_lineMarks]))
    have hpending : (ScanState.start true).pending = [] := rfl
    rw [eq_events_of_lineItems hitems, hpending, Segments.eventsAfter_nil]
    conv => lhs; rw [← hfst]
    rw [Segments.cut_map, Segments.events_map]
    apply Segments.events_congr
    · intro body hb
      have hcode : ∀ z ∈ body, Mark.codeText z.2 = z.1.broken sp.terminator := fun z hz =>
        hfits.codeText_of_mem_dropLast z (hb hz)
      rw [Mark.codeText_flatMap, List.flatMap_map]
      exact congrArg List.flatten (List.map_congr_left hcode).symm
    · intro rest hr
      have hcode := (hfits.suffix hr).codeText_eq_lastText
      simp only [Scanned.lastEvents, strippedLast, hcode, List.nil_append, hT]
      by_cases ht : Scanned.lastText ['\n'] (rest.map Prod.fst) = []
      · simp only [ht, if_true]
      · have hne : rest.map Prod.fst ≠ [] := fun he => ht (by rw [he]; rfl)
        simp only [ht, hne, if_false]

/-- Markers inside comments, a comment that ends on a directive line, and line breaks inside one. -/
theorem split_strip_wholeText_markers :
    let lines : List Text := [.of "a --/* b", .of "/*--*/c/*/", .of "GO", .of "*/ go /* d */ 2", .of "-", [], .of "e --"]
    let events : List Event := [.batch (.of "a \nc"), .directive ⟨.of "go 2", some 2⟩, .batch (.of "-\n\ne \n")]
    let marks := Mark.lines (Mode.plain.mark (Text.intercalate ['\n'] lines)).1
    unix.terminator = ['\n'] ∧ (∀ line ∈ lines, '\n' ∉ line) ∧ unix.split true (.ofLines lines) = .ok events ∧
      events = (Segments.cut (fun z => z.1.outcome) ((unix.scan (.start true) lines).zip marks)).events
        (fun body => Mark.codeText (body.flatMap Prod.snd))
        (fun rest => strippedLast (Mark.codeText (rest.flatMap Prod.snd))) :=
  ⟨rfl, by decide, rfl, (split_strip_wholeText unix rfl (by decide)).2 _ rfl⟩

end Splitter

end BatchMigrate
