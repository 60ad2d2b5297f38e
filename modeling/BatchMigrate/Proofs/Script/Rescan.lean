import BatchMigrate.Proofs.Script.InStep
import BatchMigrate.Proofs.Script.Separator
import BatchMigrate.Proofs.Script.WholeText
import BatchMigrate.Proofs.Text.Pieces

/-!
# Stripped batches scanned again

With comments stripped, a batch is what the marks of its lines leave outside comments. Two characters of code that stand
next to each other in the lines never open a comment there (`Mark.tight_mark`), so a batch can only open one where two
characters have come together because a comment between them was removed (`Mark.Glued`), as when a block comment stood
between two hyphens. A batch without such a place is scanned again without meeting a comment, and comes out as it went
in (`Splitter.split_strip_clean_iff`).
-/

namespace BatchMigrate

/-! ## Markers -/

/-- The two characters open a comment. -/
def Opens (c d : Char) : Prop := (c = '/' ∧ d = '*') ∨ (c = '-' ∧ d = '-')

instance (c d : Char) : Decidable (Opens c d) := inferInstanceAs (Decidable (_ ∨ _))

theorem Text.unmarked_iff {t : Text} : t.Unmarked ↔ ∀ c d, Opens c d → ¬[c, d] <:+: t := by
  constructor
  · rintro ⟨hblock, hline⟩ c d (⟨rfl, rfl⟩ | ⟨rfl, rfl⟩)
    · exact hblock
    · exact hline
  · intro h
    exact ⟨h _ _ (Or.inl ⟨rfl, rfl⟩), h _ _ (Or.inr ⟨rfl, rfl⟩)⟩

theorem Opens.ne_break {c d : Char} (h : Opens c d) : c ≠ '\n' ∧ d ≠ '\n' := by
  rcases h with ⟨rfl, rfl⟩ | ⟨rfl, rfl⟩ <;> decide

/-- No comment opens in lines iff none does in one of them. -/
theorem Text.unmarked_intercalate : ∀ {lines : List Text},
    Text.Unmarked (Text.intercalate ['\n'] lines) ↔ ∀ line ∈ lines, line.Unmarked
  | [] => by simp [Text.intercalate, Text.Unmarked]
  | [line] => by simp [Text.intercalate]
  | line :: next :: rest => by
    have ih := @unmarked_intercalate (next :: rest)
    rw [List.forall_mem_cons, ← ih, List.intercalate_cons_cons, List.append_assoc,
      List.singleton_append]
    constructor
    · intro h
      exact ⟨h.part (List.prefix_append _ _).isInfix, h.part ⟨line ++ ['\n'], [], by simp⟩⟩
    · rintro ⟨hline, hrest⟩
      rw [Text.unmarked_iff] at hline hrest ⊢
      intro c d hcd hi
      exact (Text.infix_append_cons hcd.ne_break.1 hcd.ne_break.2 hi).elim (hline c d hcd) (hrest c d hcd)

namespace Mark

/-- No comment opens with two characters of code that stand next to each other. -/
def Tight (marks : List Mark) : Prop := ∀ c d, Opens c d → ¬[code c, code d] <:+: marks

/-- The two characters that open a comment are code, and nothing but comments stands between them. -/
def Glued (marks : List Mark) : Prop :=
  ∃ c d before gap after, Opens c d ∧ gap ≠ [] ∧ (∀ m ∈ gap, m.inComment = true) ∧
    marks = before ++ code c :: (gap ++ code d :: after)

theorem tight_nil : Tight [] := fun _ _ _ h => by simp at h

/-- Marks stay tight on both sides of one that is no part of a marker. -/
theorem Tight.append_cons {xs ys : List Mark} {m : Mark} (hx : Tight xs) (hy : Tight ys)
    (hm : m.inComment = true ∨ m.char = '\n') : Tight (xs ++ m :: ys) := by
  intro c d hcd h
  have hne : ∀ e, e ≠ '\n' → code e ≠ m := by
    rintro e he rfl
    rcases hm with hm | hm
    · cases hm
    · exact he hm
  exact (Text.infix_append_cons (hne c hcd.ne_break.1) (hne d hcd.ne_break.2) h).elim (hx c d hcd) (hy c d hcd)

theorem Tight.comment {marks : List Mark} (h : Tight marks) (c : Char) : Tight (Mark.comment c :: marks) :=
  tight_nil.append_cons h (Or.inl rfl)

/-- **The marks of a line are tight.** -/
theorem tight_mark (n : Nat) (lex : Lex) (line : Text) : Tight (lex.mark n line).1 := by
  fun_induction Lex.mark n lex line with
  | case1 => exact tight_nil
  | case2 r marks final he ih =>
    rw [he] at ih
    exact (ih.comment '*').comment '/'
  | case3 r marks final he ih =>
    rw [he] at ih
    exact (ih.comment '-').comment '-'
  | case4 e r hblock hline marks final he ih =>
    rw [he] at ih
    intro c d hcd h
    rcases List.infix_cons_iff.1 h with hp | hi
    · -- the next mark is that of the next character, and the two were no marker
      obtain ⟨hc, more, hmore⟩ := List.cons_prefix_cons.1 hp
      have hr := Lex.fullText_mark n .plain r
      rw [he, ← hmore] at hr
      cases hc
      rcases hcd with ⟨rfl, rfl⟩ | ⟨rfl, rfl⟩
      · exact hblock _ rfl hr.symm
      · exact hline _ rfl hr.symm
    · exact ih c d hcd hi
  | case5 c r marks final he ih =>
    rw [he] at ih
    exact ih.comment c
  | case6 k r marks final he ih =>
    rw [he] at ih
    exact (ih.comment '/').comment '*'
  | case7 k c r h marks final he ih =>
    rw [he] at ih
    exact ih.comment c

/-- Two characters that come next to each other when comments are removed. -/
theorem infix_codeText {marks : List Mark} {c d : Char} : [c, d] <:+: codeText marks ↔
    ∃ before gap after, (∀ m ∈ gap, m.inComment = true) ∧ marks = before ++ code c :: (gap ++ code d :: after) := by
  constructor
  · rintro ⟨x, y, h⟩
    rw [List.append_assoc, codeText] at h
    obtain ⟨before, rest, hfilter, -, hrest⟩ := List.map_eq_append_iff.1 h.symm
    obtain ⟨m, second, rfl, rfl, hsecond⟩ := List.map_eq_cons_iff.1 hrest
    obtain ⟨m', rest, rfl, rfl, -⟩ := List.map_eq_cons_iff.1 hsecond
    obtain ⟨front, back, rfl, -, hback⟩ := List.filter_eq_append_iff.1 hfilter
    obtain ⟨skipped, back, rfl, -, hm, hback⟩ := List.filter_eq_cons_iff.1 hback
    obtain ⟨gap, after, rfl, hgap, hm', -⟩ := List.filter_eq_cons_iff.1 hback
    refine ⟨front ++ skipped, gap, after, fun g hg => by simpa using hgap g hg, ?_⟩
    obtain ⟨c, inComment⟩ := m
    obtain ⟨d, inComment'⟩ := m'
    simp only [Bool.not_eq_true'] at hm hm'
    subst hm hm'
    rw [List.append_assoc]
    rfl
  · rintro ⟨before, gap, after, hgap, rfl⟩
    have hnil : gap.filter (fun m => !m.inComment) = [] := by
      rw [List.filter_eq_nil_iff]
      intro m hm
      rw [hgap m hm]
      exact Bool.false_ne_true
    refine ⟨codeText before, codeText after, ?_⟩
    simp [codeText, code, hnil]

/-- **Where a comment opens without comments**: just where one has been removed inside a marker. -/
theorem unmarked_codeText {marks : List Mark} (h : Tight marks) : Text.Unmarked (codeText marks) ↔ ¬Glued marks := by
  rw [Text.unmarked_iff]
  constructor
  · rintro hu ⟨c, d, before, gap, after, hcd, -, hgap, hm⟩
    exact hu c d hcd (infix_codeText.2 ⟨before, gap, after, hgap, hm⟩)
  · intro hg c d hcd hi
    obtain ⟨before, gap, after, hgap, hm⟩ := infix_codeText.1 hi
    refine hg ⟨c, d, before, gap, after, hcd, ?_, hgap, hm⟩
    rintro rfl
    exact h c d hcd ⟨before, after, by rw [hm, List.append_assoc]; rfl⟩

end Mark

/-! ## Batches -/

namespace Scanned

/-- The marks of a line and of the line feed that ends it. -/
def brokenMarks (x : Scanned) : List Mark := x.before.marks x.line ++ [⟨'\n', x.after.lex.inBlock⟩]

theorem tight_brokenMarks (xs : List Scanned) : Mark.Tight (xs.flatMap brokenMarks) := by
  induction xs with
  | nil => exact Mark.tight_nil
  | cons x xs ih =>
    rw [List.flatMap_cons, brokenMarks, List.append_assoc]
    exact (Mark.tight_mark _ _ _).append_cons ih (Or.inr rfl)

/-- What a batch keeps of lines whose comments are stripped. -/
theorem codeText_brokenMarks {xs : List Scanned} (h : ∀ x ∈ xs, x.before.stripComments = true) :
    Mark.codeText (xs.flatMap brokenMarks) = xs.flatMap (broken ['\n']) := by
  rw [Mark.codeText_flatMap, List.flatMap_def, List.flatMap_def]
  congr 1
  refine List.map_congr_left fun x hx => ?_
  rw [broken, kept, ScanState.keptText_of_strip (h x hx), h x hx, Bool.and_true, brokenMarks]
  cases x.after.lex.inBlock <;> simp [Mark.codeText]

/-- Lines that end outside block comments, with the terminator of the last one. -/
theorem lastText_append (terminator : Text) : ∀ {xs : List Scanned} {x : Scanned}, xs.getLast? = some x →
    x.after.lex.inBlock = false → lastText terminator xs ++ terminator = xs.flatMap (broken terminator)
  | [y], x, hx, hb => by
    obtain rfl : y = x := Option.some.inj hx
    rw [List.flatMap_cons, List.flatMap_nil, List.append_nil, broken, hb]
    rfl
  | y :: z :: rest, x, hx, hb => by
    rw [List.flatMap_cons, ← lastText_append terminator (List.getLast?_cons_cons ▸ hx) hb, lastText, List.append_assoc]

end Scanned

namespace Splitter

variable {sp : Splitter}

/-- A script that splits does not end inside a block comment. -/
theorem inBlock_of_lineItems {s : ScanState} {lines : List Text} {events : List Event} {x : Scanned}
    (h : sp.lineItems s lines = events.map .ok) (hx : (sp.scan s lines).getLast? = some x) :
    x.after.lex.inBlock = false := by
  have hf := fault_lineItems sp s lines
  rw [h, List.getLast?_map, hx, ← List.append_nil (events.map Except.ok), delivered_append] at hf
  cases hl : x.after.lex with
  | blockComment k =>
    rw [Option.map_some, Option.getD_some, hl] at hf
    cases hf
  | plain | lineComment => rfl

/-- **A batch** is what the lines of a segment keep, or those after the last directive. -/
theorem exists_body_of_batch {stripComments : Bool} {lines : List Text} {events : List Event}
    (h : sp.lineItems (.start stripComments) lines = events.map .ok) {sql : Text} (hsql : .batch sql ∈ events) :
    ∃ body ∈ (Segments.cut Scanned.outcome (sp.scan (.start stripComments) lines)).bodies,
      sql = body.flatMap (Scanned.broken sp.terminator) := by
  have hflat := Segments.flatten_cut Scanned.outcome (sp.scan (.start stripComments) lines)
  have he := eq_events_of_lineItems h
  rw [show (ScanState.start stripComments).pending = [] from rfl, Segments.eventsAfter_nil] at he
  generalize Segments.cut Scanned.outcome (sp.scan (.start stripComments) lines) = segments at hflat he ⊢
  rw [he, Segments.events] at hsql
  rcases List.mem_append.1 hsql with hclosed | hlast
  · obtain ⟨g, hg, hmem⟩ := List.mem_flatMap.1 hclosed
    exact ⟨g.body, Segments.mem_bodies.2 (.inr ⟨g, hg, rfl⟩), by simpa using hmem⟩
  · refine ⟨segments.rest, Segments.mem_bodies.2 (.inl rfl), ?_⟩
    cases hx : segments.rest.getLast? with
    | none =>
      rw [List.getLast?_eq_none_iff.1 hx] at hlast
      cases hlast
    | some x =>
      have hrest : segments.rest ≠ [] := fun hn => by rw [hn] at hx; cases hx
      have hend : x.after.lex.inBlock = false := by
        refine inBlock_of_lineItems h ?_
        rw [← hflat, Segments.flatten, List.getLast?_append, hx, Option.some_or]
      rw [← Scanned.lastText_append sp.terminator hx hend]
      rw [Scanned.lastEvents, if_neg hrest] at hlast
      split at hlast
      · cases hlast
      · simpa using hlast

/-- **The batches of a stripped script** are what the marks of its segments leave outside comments. -/
theorem batch_eq_codeText (hT : sp.terminator = ['\n']) {lines : List Text} {events : List Event}
    (h : sp.lineItems (.start true) lines = events.map .ok) {sql : Text} (hsql : .batch sql ∈ events) :
    let segments := Segments.cut Scanned.outcome (sp.scan (.start true) lines)
    ∃ body, (body = segments.rest ∨ ∃ g ∈ segments.closed, body = g.body) ∧
      sql = Mark.codeText (body.flatMap Scanned.brokenMarks) := by
  intro segments
  obtain ⟨body, hbody, rfl⟩ := exists_body_of_batch h hsql
  have hs : ∀ x ∈ body, x.before.stripComments = true := fun x hx =>
    stripComments_of_mem_scan (mem_scan_of_mem_bodies hbody hx)
  exact ⟨body, Segments.mem_bodies.1 hbody, by rw [Scanned.codeText_brokenMarks hs, hT]⟩

/-! ## Scanning again -/

/-- Scanning the text again, with comments stripped, meets no comment: all its lines begin and end outside comments, no
character of them belongs to one, and the text is kept as it is. -/
structure Clean (sp : Splitter) (sql : Text) : Prop where
  outside : ∀ x ∈ sp.scan (.start true) (Text.splitOn '\n' sql), x.before.lex = .plain ∧ x.after.lex = .plain
  code : ∀ x ∈ sp.scan (.start true) (Text.splitOn '\n' sql), x.before.marks x.line = x.line.map .code
  kept : Text.intercalate ['\n'] ((sp.scan (.start true) (Text.splitOn '\n' sql)).map Scanned.kept) = sql

/-- Lines in which no comment opens are scanned outside comments. -/
theorem scan_unmarked : ∀ {lines : List Text} {s : ScanState}, s.lex = .plain → (∀ line ∈ lines, line.Unmarked) →
    ∀ x ∈ sp.scan s lines, (x.before.lex = .plain ∧ x.after.lex = .plain) ∧ x.before.marks x.line = x.line.map .code
  | [], _, _, _, _, hx => by cases hx
  | line :: rest, s, hs, hu, x, hx => by
    obtain ⟨outcome, after, next, he, hafter, hnext, -⟩ := scan_cons sp s line rest
    have hmark : s.lex.mark (s.lineNumber + 1) line = (line.map .code, .plain) := by
      rw [hs, Lex.mark_unmarked _ (hu line List.mem_cons_self)]
    have hlex : (s.advance line).lex = .plain := by
      show (s.lex.mark (s.lineNumber + 1) line).2.atLineEnd = .plain
      rw [hmark]
      rfl
    rw [he] at hx
    rcases List.mem_cons.1 hx with rfl | hx
    · exact ⟨⟨hs, hafter.trans hlex⟩, congrArg Prod.fst hmark⟩
    · exact scan_unmarked (hnext.trans hlex) (fun l hl => hu l (List.mem_cons_of_mem _ hl)) x hx

variable (sp) in
/-- **A text is clean** iff no comment opens in it. -/
theorem clean_iff_unmarked (sql : Text) : sp.Clean sql ↔ sql.Unmarked := by
  have hlines := scan_map_line sp (.start true) (Text.splitOn '\n' sql)
  constructor
  · intro h
    rw [← @List.intercalate_splitOn _ sql _ _ '\n', Text.unmarked_intercalate]
    intro line hline
    rw [← hlines] at hline
    obtain ⟨x, hx, rfl⟩ := List.mem_map.1 hline
    rw [Text.unmarked_iff]
    intro c d hcd hi
    refine Mark.tight_mark _ _ _ c d hcd (?_ : _ <:+: x.before.marks x.line)
    rw [h.code x hx]
    exact hi.map Mark.code
  · intro h
    have hu : ∀ line ∈ Text.splitOn '\n' sql, Text.Unmarked line := by
      rw [← Text.unmarked_intercalate, List.intercalate_splitOn]
      exact h
    have hx := @scan_unmarked sp _ (.start true) rfl hu
    refine ⟨fun x hm => (hx x hm).1, fun x hm => (hx x hm).2, ?_⟩
    have hkept : (sp.scan (.start true) (Text.splitOn '\n' sql)).map Scanned.kept = Text.splitOn '\n' sql := by
      conv_rhs => rw [← hlines]
      refine List.map_congr_left fun x hm => ?_
      rw [Scanned.kept, ScanState.keptText_of_strip (stripComments_of_mem_scan hm), (hx x hm).2, Mark.codeText_code]
    rw [hkept, List.intercalate_splitOn]

/-- **Stripped batches scanned again.** When a script splits with its comments stripped, each batch is what its lines
leave outside comments. Scanning it again meets no comment and keeps it as it is, unless the two characters of a marker
have come together because a comment between them was removed; and then it does meet one. -/
theorem split_strip_clean_iff (sp : Splitter) (hT : sp.terminator = ['\n']) {lines : List Text} {events : List Event}
    (h : sp.split true (.ofLines lines) = .ok events) {sql : Text} (hsql : .batch sql ∈ events) :
    let segments := Segments.cut Scanned.outcome (sp.scan (.start true) lines)
    ∃ body, (body = segments.rest ∨ ∃ g ∈ segments.closed, body = g.body) ∧
      sql = Mark.codeText (body.flatMap Scanned.brokenMarks) ∧
      (sp.Clean sql ↔ ¬Mark.Glued (body.flatMap Scanned.brokenMarks)) := by
  rw [split_eq_ok, items_ofLines] at h
  obtain ⟨body, hbody, rfl⟩ := batch_eq_codeText hT h hsql
  refine ⟨body, hbody, rfl, ?_⟩
  rw [clean_iff_unmarked, Mark.unmarked_codeText (Scanned.tight_brokenMarks body)]

/-- A comment over two lines stood between the hyphens of the batch. -/
theorem split_strip_clean_iff_hyphens :
    let lines : List Text := [.of "a-/* x", .of "*/-b", .of "GO", .of "c /* y */ d"]
    let events : List Event := [.batch (.of "a--b\n"), .directive ⟨.of "GO", none⟩, .batch (.of "c  d\n")]
    let segments := Segments.cut Scanned.outcome (unix.scan (.start true) lines)
    unix.terminator = ['\n'] ∧ unix.split true (.ofLines lines) = .ok events ∧ .batch (.of "a--b\n") ∈ events ∧
      ∃ body, (body = segments.rest ∨ ∃ g ∈ segments.closed, body = g.body) ∧
        .of "a--b\n" = Mark.codeText (body.flatMap Scanned.brokenMarks) ∧
        (unix.Clean (.of "a--b\n") ↔ ¬Mark.Glued (body.flatMap Scanned.brokenMarks)) :=
  ⟨rfl, rfl, List.mem_cons_self, split_strip_clean_iff unix rfl rfl List.mem_cons_self⟩

/-- Stripping is not idempotent: a second scan takes the hyphens that have come together for a comment. -/
theorem split_strip_hyphens_not_clean :
    unix.terminator = ['\n'] ∧ unix.split true (.ofLines [.of "a-/* x */-b"]) = .ok [.batch (.of "a--b\n")] ∧
      unix.split true (.ofLines [.of "a--b"]) = .ok [.batch (.of "a\n")] ∧ ¬unix.Clean (.of "a--b\n") := by
  refine ⟨rfl, rfl, rfl, fun h => ?_⟩
  exact absurd h.kept (by decide)

end Splitter

end BatchMigrate
