import BatchMigrate.Proofs.Script.Calls
import BatchMigrate.Proofs.Script.Recognition
import BatchMigrate.Proofs.Script.Rescan

/-!
# The grammar of a line with comments

A scan that keeps comments compares what stands on a line before its first comment with all that stands outside comments,
white space at the ends aside. That amounts to a grammar (`Separator.SpellsLine`): white space, a text that
`Separator.Spells`, white space, and then either nothing or, from the first place where a comment opens, just block comments
that are closed and white space, which a comment up to the end of the line may follow (`Text.Comments`). A scan that strips
comments asks for the text outside comments only. `ScanState.directive_iff_spells` says so of every state that a scan can
come to.
-/

namespace BatchMigrate

/-! ## Comments at the end of a line -/

namespace Text

/-- Block comments that are closed and white space, which a comment up to the end of the line may follow. -/
inductive Comments : Text → Prop
  | nil : Comments []
  | space {c : Char} {rest : Text} (hspace : isSpace c = true) (hrest : Comments rest) : Comments (c :: rest)
  | block {body rest : Text} (hbody : ¬['*', '/'] <:+: body) (hrest : Comments rest) :
      Comments ('/' :: '*' :: (body ++ '*' :: '/' :: rest))
  | line (rest : Text) : Comments ('-' :: '-' :: rest)

/-- The place where the first comment opens: none opens in the text before it or with the last character of that text, and
one does behind it, unless nothing follows. -/
structure Opening (head tail : Text) : Prop where
  unmarked : Unmarked (head ++ tail.take 1)
  opens : tail = [] ∨ ∃ c d rest, Opens c d ∧ tail = c :: d :: rest

theorem unmarked_nil : Unmarked [] := ⟨by decide, by decide⟩

/-- A character that is no first half of a marker leaves a text without comments. -/
theorem Unmarked.cons {c : Char} {t : Text} (h : ∀ d ∈ t.head?, ¬Opens c d) (ht : t.Unmarked) : Unmarked (c :: t) := by
  rw [unmarked_iff] at ht ⊢
  intro e d hopens hi
  rcases List.infix_cons_iff.1 hi with hp | hi
  · obtain ⟨rfl, more, rfl⟩ := List.cons_prefix_cons.1 hp
    exact h d rfl hopens
  · exact ht e d hopens hi

/-- Every line has a place where its first comment opens. -/
theorem exists_opening : ∀ line : Text, ∃ head tail, line = head ++ tail ∧ Opening head tail
  | [] => ⟨[], [], rfl, unmarked_nil, .inl rfl⟩
  | c :: rest => by
    by_cases hopens : ∃ d ∈ rest.head?, Opens c d
    · obtain ⟨d, hd, hopens⟩ := hopens
      obtain ⟨more, rfl⟩ := List.head?_eq_some_iff.1 hd
      exact ⟨[], c :: d :: more, rfl, Unmarked.cons (by simp) unmarked_nil, .inr ⟨c, d, more, hopens, rfl⟩⟩
    · obtain ⟨head, tail, rfl, hunmarked, htail⟩ := exists_opening rest
      refine ⟨c :: head, tail, rfl, Unmarked.cons (fun d hd ho => hopens ⟨d, ?_, ho⟩) hunmarked, htail⟩
      cases head with
      | nil => cases tail <;> simp_all
      | cons e head => exact hd

/-- A text that closes a block comment has a first place that does. -/
theorem exists_firstClose : ∀ {t : Text}, ['*', '/'] <:+: t →
    ∃ body rest, ¬['*', '/'] <:+: body ∧ t = body ++ '*' :: '/' :: rest
  | [], h => by simp at h
  | c :: t, h => by
    by_cases hp : ['*', '/'] <+: c :: t
    · obtain ⟨rest, hrest⟩ := hp
      exact ⟨[], rest, by simp, hrest.symm⟩
    · obtain ⟨body, rest, hbody, rfl⟩ := exists_firstClose ((List.infix_cons_iff.1 h).resolve_left hp)
      refine ⟨c :: body, rest, fun hi => ?_, rfl⟩
      rcases List.infix_cons_iff.1 hi with hfirst | hlater
      · exact hp (hfirst.trans (List.prefix_append (c :: body) _))
      · exact hbody hlater

/-- White space at the ends of a text is all that is lost. -/
theorem filter_trim (t : Text) : (trim t).filter (fun c => !isSpace c) = t.filter fun c => !isSpace c := by
  obtain ⟨before, after, hb, ha, ht⟩ := exists_trim t
  have hnone : ∀ {blank : Text}, blank.isBlank = true → blank.filter (fun c => !isSpace c) = [] := fun h =>
    List.filter_eq_nil_iff.2 fun c hc => by simp [isBlank_iff.1 h c hc]
  conv_rhs => rw [ht, List.filter_append, List.filter_append, hnone hb, hnone ha, List.nil_append, List.append_nil]

/-- More text makes no difference between white space iff there is none in it but white space. -/
theorem trim_eq_trim_append {head more : Text} : trim head = trim (head ++ more) ↔ more.isBlank = true := by
  constructor
  · intro h
    have hfilter := congrArg (List.filter fun c => !isSpace c) h
    rw [filter_trim, filter_trim, List.filter_append, List.self_eq_append_right, List.filter_eq_nil_iff] at hfilter
    exact isBlank_iff.2 fun c hc => by simpa using hfilter c hc
  · intro h
    exact (trim_append List.all_nil h head).symm

end Text

/-! ## Marks of such lines -/

namespace Lex

theorem mark_lineComment (n : Nat) : ∀ t : Text, lineComment.mark n t = (t.map Mark.comment, lineComment)
  | [] => rfl
  | c :: t => by rw [mark, mark_lineComment n t]; rfl

/-- A block comment goes up to the first place where it is closed. -/
theorem mark_blockComment (n k : Nat) (rest : Text) : ∀ {body : Text}, ¬['*', '/'] <:+: body →
    (blockComment k).mark n (body ++ '*' :: '/' :: rest) =
      ((body ++ ['*', '/']).map Mark.comment ++ (plain.mark n rest).1, (plain.mark n rest).2)
  | [], _ => rfl
  | c :: body, h => by
    rw [List.cons_append, mark, mark_blockComment n k rest fun hi => h (hi.trans (List.suffix_cons c body).isInfix)]
    · rfl
    · rintro more rfl he
      cases body with
      | nil => cases he
      | cons d body =>
        obtain ⟨rfl, -⟩ := List.cons_eq_cons.1 he
        exact h ⟨[], body, rfl⟩

/-- A block comment that a text does not close stays open. -/
theorem mark_blockComment_open (n k : Nat) : ∀ {t : Text}, ¬['*', '/'] <:+: t →
    ((blockComment k).mark n t).2 = blockComment k
  | [], _ => rfl
  | c :: t, h => by
    rw [mark]
    · exact mark_blockComment_open n k fun hi => h (hi.trans (List.suffix_cons c t).isInfix)
    · rintro rest rfl rfl
      exact h ⟨[], rest, rfl⟩

/-- A block comment that is closed. -/
theorem mark_block (n : Nat) {body : Text} (h : ¬['*', '/'] <:+: body) (rest : Text) :
    plain.mark n ('/' :: '*' :: (body ++ '*' :: '/' :: rest)) =
      (('/' :: '*' :: (body ++ ['*', '/'])).map Mark.comment ++ (plain.mark n rest).1, (plain.mark n rest).2) := by
  rw [mark, mark_blockComment n n rest h]
  rfl

/-- A character with which no comment opens is code. -/
theorem mark_of_not_opens (n : Nat) {c : Char} {t : Text} (h : ∀ d ∈ t.head?, ¬Opens c d) :
    plain.mark n (c :: t) = (.code c :: (plain.mark n t).1, (plain.mark n t).2) := by
  rw [mark]
  · rintro r rfl rfl
    exact h '*' rfl (.inl ⟨rfl, rfl⟩)
  · rintro r rfl rfl
    exact h '-' rfl (.inr ⟨rfl, rfl⟩)

/-- White space is no part of a marker. -/
theorem mark_space (n : Nat) {c : Char} (h : Text.isSpace c = true) (t : Text) :
    plain.mark n (c :: t) = (.code c :: (plain.mark n t).1, (plain.mark n t).2) := by
  refine mark_of_not_opens n fun d _ hopens => ?_
  rcases hopens with ⟨rfl, _⟩ | ⟨rfl, _⟩ <;> cases h

/-- A block comment that is not open at the end of a line has a first place where it is closed. -/
theorem exists_close {n k : Nat} {t : Text} (h : ((blockComment k).mark n t).2.inBlock = false) :
    ∃ body rest, ¬['*', '/'] <:+: body ∧ t = body ++ '*' :: '/' :: rest := by
  refine Text.exists_firstClose (Decidable.byContradiction fun hopen => ?_)
  rw [mark_blockComment_open n k hopen] at h
  cases h

end Lex

namespace Mark

theorem codeText_comment_append (t : Text) (M : List Mark) : codeText (t.map comment ++ M) = codeText M := by
  rw [codeText_append, codeText_of_comment (by simp [comment]), List.nil_append]

/-- Text before a comment is the text before the first one. -/
theorem headText_append {M : List Mark} (h : ∀ m ∈ M.head?, m.inComment = true) (t : Text) :
    headText (t.map code ++ M) = t := by
  rw [headText, List.takeWhile_append_of_pos (by simp [code]), List.map_append, List.map_map]
  cases M with
  | nil => exact (List.append_nil _).trans (List.map_id t)
  | cons m M =>
    rw [List.takeWhile_cons_of_neg (by simp [h m rfl])]
    exact (List.append_nil _).trans (List.map_id t)

end Mark

/-- What stands outside comments is white space, and none is left open. -/
theorem Text.comments_of_blank (n : Nat) : ∀ {t : Text}, (Mark.codeText (Lex.plain.mark n t).1).isBlank = true →
    (Lex.plain.mark n t).2.inBlock = false → t.Comments
  | [], _, _ => .nil
  | c :: t, hblank, hclosed => by
    by_cases hblock : ∃ r, c = '/' ∧ t = '*' :: r
    · obtain ⟨r, rfl, rfl⟩ := hblock
      have hclosed' := hclosed
      rw [Lex.mark] at hclosed'
      obtain ⟨body, rest, hbody, rfl⟩ := Lex.exists_close hclosed'
      rw [Lex.mark_block n hbody] at hblank hclosed
      rw [Mark.codeText_comment_append] at hblank
      exact .block hbody (comments_of_blank n hblank hclosed)
    by_cases hline : ∃ r, c = '-' ∧ t = '-' :: r
    · obtain ⟨r, rfl, rfl⟩ := hline
      exact .line r
    -- any other character is code, and so it is white space
    have hcode : Lex.plain.mark n (c :: t) = (.code c :: (Lex.plain.mark n t).1, (Lex.plain.mark n t).2) := by
      rw [Lex.mark]
      · exact fun r hc ht => hblock ⟨r, hc, ht⟩
      · exact fun r hc ht => hline ⟨r, hc, ht⟩
    rw [hcode] at hblank hclosed
    obtain ⟨hspace, hrest⟩ := List.forall_mem_cons.1 (isBlank_iff.1 hblank)
    exact .space hspace (comments_of_blank n (isBlank_iff.2 hrest) hclosed)
  termination_by t => t.length

/-- **Nothing but comments**: what stands outside them is white space, and none is left open. -/
theorem Text.comments_iff (n : Nat) {t : Text} : t.Comments ↔
    (Mark.codeText (Lex.plain.mark n t).1).isBlank = true ∧ (Lex.plain.mark n t).2.inBlock = false := by
  constructor
  · intro h
    induction h with
    | nil => exact ⟨rfl, rfl⟩
    | space hspace _ ih =>
      rw [Lex.mark_space n hspace]
      exact ⟨isBlank_iff.2 (List.forall_mem_cons.2 ⟨hspace, isBlank_iff.1 ih.1⟩), ih.2⟩
    | block hbody _ ih =>
      rw [Lex.mark_block n hbody, Mark.codeText_comment_append]
      exact ih
    | line rest =>
      rw [Lex.mark, Lex.mark_lineComment]
      refine ⟨?_, rfl⟩
      show Text.isBlank (Mark.codeText (rest.map .comment)) = true
      rw [Mark.codeText_of_comment (by simp [Mark.comment])]
      rfl
  · rintro ⟨hblank, hclosed⟩
    exact comments_of_blank n hblank hclosed

/-! ## Separator lines -/

namespace Separator

variable {separator : Separator} {head line : Text} {d : Directive}

/-- A separator line with its comments: white space around what it spells, and from the place where the first comment opens
nothing but comments. -/
def SpellsLine (keyword line : Text) (d : Directive) : Prop :=
  ∃ indent body gap comments, indent.isBlank = true ∧ Spells keyword body d ∧ gap.isBlank = true ∧
    line = indent ++ body ++ gap ++ comments ∧ Text.Opening (indent ++ body ++ gap) comments ∧ comments.Comments

/-- A recognized text, with the white space around what it spells. -/
theorem recognize_iff_exists : separator.recognize head = some d ↔ ∃ indent body gap, indent.isBlank = true ∧
    Spells separator.keyword body d ∧ gap.isBlank = true ∧ head = indent ++ body ++ gap := by
  constructor
  · intro h
    obtain ⟨indent, gap, hindent, hgap, hhead⟩ := Text.exists_trim head
    exact ⟨indent, Text.trim head, gap, hindent, recognize_eq_some.1 h, hgap, hhead⟩
  · rintro ⟨indent, body, gap, hindent, hbody, hgap, rfl⟩
    rw [recognize_append hindent hgap, recognize_eq_some, hbody.trim]
    exact hbody

/-- A separator line is cut where its first comment opens. -/
theorem spellsLine_iff : SpellsLine separator.keyword line d ↔ ∃ head comments, line = head ++ comments ∧
    Text.Opening head comments ∧ separator.recognize head = some d ∧ comments.Comments := by
  constructor
  · rintro ⟨indent, body, gap, comments, hindent, hbody, hgap, rfl, hopening, hcomments⟩
    exact ⟨_, comments, rfl, hopening, recognize_iff_exists.2 ⟨indent, body, gap, hindent, hbody, hgap, rfl⟩, hcomments⟩
  · rintro ⟨head, comments, rfl, hopening, hhead, hcomments⟩
    obtain ⟨indent, body, gap, hindent, hbody, hgap, rfl⟩ := recognize_iff_exists.1 hhead
    exact ⟨indent, body, gap, comments, hindent, hbody, hgap, rfl, hopening, hcomments⟩

end Separator

namespace ScanState

variable {s : ScanState} {separator : Separator} {line head tail : Text} {d : Directive}

theorem lex_scanLine (s : ScanState) (separator : Separator) (terminator line : Text) (isLast : Bool) :
    (s.scanLine separator terminator line isLast).2.lex = (s.advance line).lex := by
  rcases s.scanLine_cases separator terminator line isLast with ⟨d, _, he⟩ | ⟨_, he⟩ <;> rw [he]
  rfl

theorem inBlock_advance (line : Text) : (s.advance line).lex.inBlock = (s.lex.mark (s.lineNumber + 1) line).2.inBlock := by
  show (Lex.mark _ _ _).2.atLineEnd.inBlock = _
  cases (s.lex.mark (s.lineNumber + 1) line).2 <;> rfl

/-- The text before a comment is compared with the separator if all that follows outside comments is white space. -/
theorem candidate_append {M : List Mark} (h : ∀ m ∈ M.head?, m.inComment = true) (head : Text) :
    candidate false .plain (head.map Mark.code ++ M) = if (Mark.codeText M).isBlank then some head else none := by
  simp only [candidate, Lex.inBlock, Bool.false_eq_true, if_false, Mark.headText_append h, Mark.codeText_append,
    Mark.codeText_code, Text.trim_eq_trim_append]

/-- **A line cut where its first comment opens** is a directive of a scan that keeps comments iff what stands before that
place is recognized, and nothing but comments follows. -/
theorem directive?_of_opening (hs : s.stripComments = false) (hl : s.lex = .plain) (h : Text.Opening head tail) :
    s.directive? separator (head ++ tail) = some d ↔ separator.recognize head = some d ∧ tail.Comments := by
  have hmark := Lex.mark_append_of_unmarked (s.lineNumber + 1) h.unmarked
  have hblock := s.inBlock_advance (head ++ tail)
  rw [hl, hmark] at hblock
  have hcomment : ∀ m ∈ (Lex.plain.mark (s.lineNumber + 1) tail).1.head?, m.inComment = true := by
    rcases h.opens with rfl | ⟨c, e, rest, ⟨rfl, rfl⟩ | ⟨rfl, rfl⟩, rfl⟩
    · simp [Lex.mark]
    · simp [Lex.mark, Mark.comment]
    · simp [Lex.mark, Mark.comment]
  rw [directive?, hblock, marks, hl, hmark, hs, candidate_append hcomment, Text.comments_iff (s.lineNumber + 1)]
  generalize Lex.plain.mark (s.lineNumber + 1) tail = marked
  cases marked.2.inBlock <;> cases (Mark.codeText marked.1).isBlank <;> simp

/-- **Separator lines of a scan that keeps comments.** -/
theorem directive?_keep_iff (hs : s.stripComments = false) (hl : s.lex = .plain) :
    s.directive? separator line = some d ↔ Separator.SpellsLine separator.keyword line d := by
  rw [Separator.spellsLine_iff]
  constructor
  · intro h
    obtain ⟨head, tail, rfl, hopening⟩ := Text.exists_opening line
    obtain ⟨hhead, htail⟩ := (directive?_of_opening hs hl hopening).1 h
    exact ⟨head, tail, rfl, hopening, hhead, htail⟩
  · rintro ⟨head, tail, rfl, hopening, hhead, htail⟩
    exact (directive?_of_opening hs hl hopening).2 ⟨hhead, htail⟩

/-- **Separator lines of a scan that strips comments.** -/
theorem directive?_strip_iff (hs : s.stripComments = true) : s.directive? separator line = some d ↔
    (s.advance line).lex.inBlock = false ∧
      Separator.Spells separator.keyword (Text.trim (Mark.codeText (s.marks line))) d := by
  rw [directive?, candidate, hs, if_pos rfl, Option.bind_some, ← Separator.recognize_eq_some]
  cases (s.advance line).lex.inBlock <;> simp

/-- **Which lines are separator lines**, for every accepted keyword and every state that a scan can come to. With comments
kept, a line is a directive iff it does not begin inside a block comment and is white space, the keyword but for case or that
with a count, white space, and from the first marker of a comment on nothing but closed block comments and white space, which
a comment up to its end may follow. With comments stripped, it is one iff no block comment is open at its end and its text
outside comments says as much between white space. In both cases the token is the word as it is spelled and, after one
blank, the digits; and the line leaves no comment open. -/
theorem directive_iff_spells {keyword : Text} (h : Separator.ofKeyword keyword = .ok separator) (hs : s.Reached)
    (terminator line : Text) (isLast : Bool) (d : Directive) :
    (s.stripComments = false → ((s.scanLine separator terminator line isLast).1 = .directive d ↔
      s.lex.inBlock = false ∧ Separator.SpellsLine keyword line d)) ∧
    (s.stripComments = true → ((s.scanLine separator terminator line isLast).1 = .directive d ↔
      (s.scanLine separator terminator line isLast).2.lex.inBlock = false ∧
        Separator.Spells keyword (Text.trim (Mark.codeText (s.marks line))) d)) ∧
    ((s.scanLine separator terminator line isLast).1 = .directive d →
      (s.scanLine separator terminator line isLast).2.lex = .plain) := by
  obtain rfl := Separator.keyword_of_ofKeyword h
  refine ⟨fun hkeep => ?_, fun hstrip => ?_, fun hd => (scanLine_directive hd).2⟩
  · rw [fst_scanLine_eq_directive]
    cases hl : s.lex with
    | plain => exact (directive?_keep_iff hkeep hl).trans (and_iff_right rfl).symm
    | lineComment => exact absurd hl hs.sound.lex_ne
    | blockComment k =>
      refine iff_of_false (fun hd => ?_) (fun hd => Bool.false_ne_true hd.1.symm)
      have hout := inBlock_of_directive hkeep hd
      rw [hl] at hout
      cases hout
  · rw [fst_scanLine_eq_directive, directive?_strip_iff hstrip, lex_scanLine]

/-- A comment over two lines has been closed, and three comments follow the keyword and a count with zeros. With comments
stripped, a line that closes a comment and has one inside the keyword. -/
theorem directive_iff_spells_comments :
    let calls : List ScanCall := [.line .go ['\n'] (.of "a /*") false, .take, .line .go ['\n'] (.of "*/ b") true]
    ∃ separator, Separator.ofKeyword (.of "g-o") = .ok separator ∧
      (((start false).drive calls).scanLine separator [] (.of "\tG-O 007 /* c **//**/ -- /*") false).1 =
        .directive ⟨.of "G-O 007", some 7⟩ ∧
      (((start true).drive (calls.take 1)).scanLine separator [] (.of "*/ g-/* c */O") true).1 =
        .directive ⟨.of "g-O", none⟩ := by
  intro calls
  refine ⟨_, rfl, ?_, ?_⟩
  · have hcomments : Text.Comments (.of "/* c **//**/ -- /*") := by
      have hblocks : Text.of "/* c **//**/ -- /*" = '/' :: '*' :: (Text.of " c *" ++ '*' :: '/' ::
          '/' :: '*' :: ([] ++ '*' :: '/' :: ' ' :: '-' :: '-' :: Text.of " /*")) := by decide
      rw [hblocks]
      exact .block (by decide) (.block (by decide) (.space (by decide) (.line _)))
    have hopening : Text.Opening (.of "\tG-O 007 ") (.of "/* c **//**/ -- /*") :=
      ⟨⟨by decide +kernel, by decide +kernel⟩, .inr ⟨'/', '*', Text.of " c **//**/ -- /*", .inl ⟨rfl, rfl⟩, by decide⟩⟩
    have hspells : Separator.Spells (.of "g-o") (.of "G-O 007") ⟨.of "G-O 007", some 7⟩ :=
      @Separator.Spells.counted _ (.of "G-O") (.of " ") (.of "007") (by decide +kernel) ⟨by decide, by decide⟩
        ⟨by decide, List.all_eq_true.1 (by decide)⟩ (by decide)
    have hline : Separator.SpellsLine (.of "g-o") (.of "\tG-O 007 /* c **//**/ -- /*") ⟨.of "G-O 007", some 7⟩ :=
      ⟨.of "\t", .of "G-O 007", .of " ", .of "/* c **//**/ -- /*", by decide, hspells, by decide, by decide, hopening,
        hcomments⟩
    exact ((directive_iff_spells rfl ⟨false, calls, rfl⟩ [] _ false _).1 rfl).2 ⟨by decide, hline⟩
  · have hspells : Separator.Spells (.of "g-o")
        (Text.trim (Mark.codeText (((start true).drive (calls.take 1)).marks (.of "*/ g-/* c */O")))) ⟨.of "g-O", none⟩ := by
      rw [show Text.trim (Mark.codeText (((start true).drive (calls.take 1)).marks (.of "*/ g-/* c */O"))) = .of "g-O" by
        decide +kernel]
      exact .bare (by decide +kernel)
    exact ((directive_iff_spells rfl ⟨true, calls.take 1, rfl⟩ [] _ true _).2.1 rfl).2 ⟨by decide +kernel, hspells⟩

end ScanState

end BatchMigrate
