import BatchMigrate.Proofs.Script.Rescan
import BatchMigrate.Proofs.Sql.Alike
import BatchMigrate.Proofs.Sql.Readable

/-!
# Comments between tokens

A token is cut in the same way whatever follows it, as long as the next character does not join its last one
(`cut_congr`). So a text whose comments are marked (`Marked`) has the same tokens with its comments and without them,
unless a comment is all that stands between two characters that join (`tokensFrom_codeText`).
-/

namespace BatchMigrate

namespace Sql

/-! ## Tokens and what follows them -/

/-- The two characters are read together where they stand side by side: in a word or a number, or as `--` or `->`. -/
def joins (c d : Char) : Bool :=
  (continuesWord c && (continuesWord d || d == '.')) || (c == '-' && (d == '-' || d == '>'))

section Cut

variable {c : Char} {r : Text}

/-- The text is cut off before a character that stops it. -/
theorem takeWhile_of_stop {p : Char → Bool} {more rest : Text} (hmore : ∀ d ∈ more, p d = true)
    (hrest : ∀ d ∈ rest.head?, p d = false) :
    (more ++ rest).takeWhile p = more ∧ (more ++ rest).dropWhile p = rest := by
  rw [List.takeWhile_append_of_pos hmore, List.dropWhile_append_of_pos hmore]
  cases rest with
  | nil => exact ⟨List.append_nil _, rfl⟩
  | cons d rest =>
    have hd : p d = false := hrest d rfl
    rw [List.takeWhile_cons_of_neg (by simp [hd]), List.dropWhile_cons_of_neg (by simp [hd]), List.append_nil]
    exact ⟨rfl, rfl⟩

theorem continuesWord_of_beginsWord (h : beginsWord c = true) : continuesWord c = true := by
  rw [continuesWord, h]
  rfl

theorem continuesWord_of_isDigit (h : Text.isDigit c = true) : continuesWord c = true := by
  have : c.isDigit = true := h
  simp [continuesWord, this]

theorem kind_throughNumber : (throughNumber r).1 ≠ .word := by
  simp only [throughNumber]
  split
  · simp
  · split <;> simp

/-- The kinds of what begins with neither white space nor a word nor a digit. -/
theorem kind_of_symbol (hgap : isGap c = false) (hword : beginsWord c = false) (hdigit : c.isDigit = false) :
    (cut c r).1 ≠ .word ∧ (cut c r).1 ≠ .number := by
  unfold cut
  simp only [hgap, hword, hdigit, Bool.false_eq_true, if_false]
  split
  · split
    · simp
    · rename_i hother
      refine ⟨kind_throughNumber, fun h => ?_⟩
      exact hother _ _ (Prod.ext h rfl)
  · split
    · split <;> simp
    · split
      · split <;> simp
      · split
        · split <;> simp
        · split
          · simp
          · split
            · simp
            · split
              · simp
              · split <;> simp

theorem cut_gap (hgap : isGap c = true) : cut c r = (.gap, [], r) := by
  unfold cut
  rw [if_pos hgap]

/-- A word goes on as long as there are characters of words. -/
theorem cut_word (hgap : isGap c = false) (hword : beginsWord c = true) :
    cut c r = (.word, r.takeWhile continuesWord, r.dropWhile continuesWord) := by
  unfold cut
  simp only [hgap, hword, Bool.false_eq_true, if_false, if_true]

theorem cut_digit (hgap : isGap c = false) (hword : beginsWord c = false) (hdigit : c.isDigit = true) :
    cut c r = throughNumber r := by
  unfold cut
  simp only [hgap, hword, hdigit, Bool.false_eq_true, if_false, if_true]

/-- What is cut as a word begins one. -/
theorem begins_of_cut_word (h : (cut c r).1 = .word) : isGap c = false ∧ beginsWord c = true := by
  cases hgap : isGap c with
  | true =>
    rw [cut_gap hgap] at h
    cases h
  | false =>
    cases hword : beginsWord c with
    | true => exact ⟨rfl, rfl⟩
    | false =>
      cases hdigit : c.isDigit with
      | false => exact absurd h (kind_of_symbol hgap hword hdigit).1
      | true =>
        rw [cut_digit hgap hword hdigit] at h
        exact absurd h kind_throughNumber

/-- What is cut as a number begins with a digit. -/
theorem begins_of_cut_number (h : (cut c r).1 = .number) :
    isGap c = false ∧ beginsWord c = false ∧ c.isDigit = true := by
  cases hgap : isGap c with
  | true =>
    rw [cut_gap hgap] at h
    cases h
  | false =>
    cases hword : beginsWord c with
    | true =>
      rw [cut_word hgap hword] at h
      cases h
    | false =>
      cases hdigit : c.isDigit with
      | false => exact absurd h (kind_of_symbol hgap hword hdigit).2
      | true => exact ⟨rfl, rfl, rfl⟩

/-- A run of digits is a number if neither a word nor a fraction goes on after it. -/
theorem throughNumber_eq_number : (throughNumber r).1 = .number ↔
    throughNumber r = (.number, r.takeWhile Text.isDigit, r.dropWhile Text.isDigit) ∧
      ∀ d ∈ (r.dropWhile Text.isDigit).head?, continuesWord d = false ∧ d ≠ '.' := by
  constructor
  · intro h
    have hf := throughFraction_append (r.dropWhile Text.isDigit)
    have he := throughExponent_append (throughFraction (r.dropWhile Text.isDigit)).2
    simp only [throughNumber] at h ⊢
    split at h
    · cases h
    · rename_i hmore
      rw [not_not] at hmore
      split at h
      · rename_i hnone
        obtain ⟨hfraction, hexponent⟩ := List.append_eq_nil_iff.1 hnone
        rw [hfraction, List.nil_append] at hf
        rw [hf] at he hexponent hmore ⊢
        rw [hexponent, List.nil_append] at he
        rw [he] at hmore ⊢
        rw [hmore, hfraction, hexponent]
        cases hrest : r.dropWhile Text.isDigit with
        | nil => simp
        | cons d rest =>
          rw [hrest] at hfraction hmore
          have hword : continuesWord d = false := by
            by_contra hword
            rw [List.takeWhile_cons_of_pos (by simpa using hword)] at hmore
            cases hmore
          have hpoint : d ≠ '.' := by
            rintro rfl
            cases hfraction
          simp [hword, hpoint]
      · cases h
  · rintro ⟨h, _⟩
    rw [h]

theorem throughFraction_of_head? (h : r.head? ≠ some '.') : throughFraction r = ([], r) := by
  unfold throughFraction
  split
  · exact absurd rfl h
  · rfl

theorem throughNumber_of_stop {digits rest : Text} (hdigits : ∀ d ∈ digits, Text.isDigit d = true)
    (hrest : ∀ d ∈ rest.head?, continuesWord d = false ∧ d ≠ '.') :
    throughNumber (digits ++ rest) = (.number, digits, rest) := by
  have hstop : ∀ d ∈ rest.head?, Text.isDigit d = false := fun d hd => by
    cases hdigit : Text.isDigit d with
    | false => rfl
    | true =>
      have hword := (hrest d hd).1
      rw [continuesWord_of_isDigit hdigit] at hword
      cases hword
  obtain ⟨htake, hdrop⟩ := takeWhile_of_stop hdigits hstop
  simp only [throughNumber, htake, hdrop]
  cases rest with
  | nil => simp [throughFraction, throughExponent]
  | cons d rest =>
    obtain ⟨hword, hpoint⟩ := hrest d rfl
    have hfraction : throughFraction (d :: rest) = ([], d :: rest) := throughFraction_of_head? (by simpa using hpoint)
    have hexponent : throughExponent (d :: rest) = ([], d :: rest) := by
      have hd : d ≠ 'e' ∧ d ≠ 'E' := by
        constructor <;> rintro rfl <;> cases hword
      simp [throughExponent, hd]
    simp [hfraction, hexponent, hword]

/-- A symbol of one character is not read on. -/
theorem cut_symbol (hc : c ∈ ['(', ')', ';', '+']) : cut c r = (.symbol, [], r) := by
  simp only [List.mem_cons, List.not_mem_nil, or_false] at hc
  rcases hc with rfl | rfl | rfl | rfl <;> cases r <;> rfl

theorem cut_minus (h : ∀ d ∈ r.head?, d ≠ '-' ∧ d ≠ '>') : cut '-' r = (.symbol, [], r) := by
  cases r with
  | nil => rfl
  | cons d r =>
    obtain ⟨hline, harrow⟩ := h d rfl
    simp [cut, isGap, beginsWord, pairs, singles, hline, harrow]

/-- What follows the text of a simple token does not join it. -/
def Stops (last : Char) (after rest : Text) : Prop := ∀ d ∈ rest.head?, after.head? = some d ∨ joins last d = false

theorem not_continues_of_joins {last d : Char} (hlast : continuesWord last = true) (h : joins last d = false) :
    continuesWord d = false ∧ d ≠ '.' := by
  simp only [joins, hlast, Bool.true_and, Bool.or_eq_false_iff, beq_eq_false_iff_ne] at h
  exact h.1

theorem continuesWord_getLastD {p : Char → Bool} (hp : ∀ d, p d = true → continuesWord d = true) {more : Text}
    (hc : p c = true) (hmore : ∀ d ∈ more, p d = true) : continuesWord (more.getLastD c) = true := by
  rcases List.eq_nil_or_concat more with rfl | ⟨front, last, rfl⟩
  · exact hp c hc
  · rw [List.concat_eq_append, List.getLastD_concat]
    exact hp last (hmore last (by simp))

/-- **A simple token** goes on with characters of words only, and is cut in the same way before anything that does not
join it. -/
theorem cut_congr {offset : Nat} {rest : Text} (hgap : (cut c r).1 ≠ .gap)
    (hs : Token.Simple ⟨(cut c r).1, c :: (cut c r).2.1, offset, (cut c r).2.2⟩)
    (hrest : Stops ((cut c r).2.1.getLastD c) (cut c r).2.2 rest) :
    cut c ((cut c r).2.1 ++ rest) = ((cut c r).1, (cut c r).2.1, rest) ∧
      ∀ d ∈ (cut c r).2.1, continuesWord d = true := by
  rcases hs with hword | hnumber | ⟨x, hx, htext⟩
  · obtain ⟨hnot, hbegins⟩ := begins_of_cut_word hword
    have hc : continuesWord c = true := continuesWord_of_beginsWord hbegins
    rw [cut_word (r := r) hnot hbegins] at hrest ⊢
    have hmore : ∀ d ∈ r.takeWhile continuesWord, continuesWord d = true := fun d => List.mem_takeWhile_imp
    have hlast := continuesWord_getLastD (fun _ h => h) hc hmore
    have hstop : ∀ d ∈ rest.head?, continuesWord d = false := fun d hd =>
      (hrest d hd).elim Text.head?_dropWhile fun h => (not_continues_of_joins hlast h).1
    obtain ⟨htake, hdrop⟩ := takeWhile_of_stop hmore hstop
    exact ⟨by rw [cut_word hnot hbegins, htake, hdrop], hmore⟩
  · obtain ⟨hnot, hbegins, hdigit⟩ := begins_of_cut_number hnumber
    have hcut : ∀ r, cut c r = throughNumber r := fun r => cut_digit hnot hbegins hdigit
    rw [hcut r] at hnumber hrest ⊢
    obtain ⟨heq, hafter⟩ := throughNumber_eq_number.1 hnumber
    rw [heq] at hrest ⊢
    have hmore : ∀ d ∈ r.takeWhile Text.isDigit, Text.isDigit d = true := fun d => List.mem_takeWhile_imp
    have hlast := continuesWord_getLastD (fun _ => continuesWord_of_isDigit) hdigit hmore
    have hstop : ∀ d ∈ rest.head?, continuesWord d = false ∧ d ≠ '.' := fun d hd =>
      (hrest d hd).elim (hafter d) (not_continues_of_joins hlast)
    exact ⟨by rw [hcut, throughNumber_of_stop hmore hstop], fun d hd => continuesWord_of_isDigit (hmore d hd)⟩
  · obtain ⟨rfl, hmore⟩ := List.cons_eq_cons.1 htext
    refine ⟨?_, by rw [hmore]; exact fun d hd => by cases hd⟩
    by_cases hminus : c = '-'
    · subst hminus
      have hafter : ∀ d ∈ r.head?, d ≠ '-' ∧ d ≠ '>' := by
        intro d hd
        obtain ⟨r', rfl⟩ : ∃ r', r = d :: r' := List.head?_eq_some_iff.1 hd
        constructor
        · rintro rfl
          exact hgap rfl
        · rintro rfl
          cases hmore
      rw [cut_minus hafter] at hrest ⊢
      refine cut_minus fun d hd => (hrest d hd).elim (hafter d) fun h => ?_
      simpa [joins, continuesWord, beginsWord] using h
    · have hc : c ∈ ['(', ')', ';', '+'] := by simpa [hminus] using hx
      rw [cut_symbol (r := r) hc]
      exact cut_symbol hc

end Cut

/-! ## Marked text -/

end Sql

namespace Mark

/-- No comment is all that stands between two characters that are read together side by side. -/
def separated : List Mark → Bool
  | [] => true
  | m :: rest =>
    (m.inComment || !rest.head?.any Mark.inComment ||
      !(rest.dropWhile Mark.inComment).head?.any fun next => Sql.joins m.char next.char) && separated rest

theorem separated_of_append : ∀ (xs : List Mark) {ys : List Mark}, separated (xs ++ ys) = true → separated ys = true
  | [], _, h => h
  | m :: xs, ys, h => by
    rw [List.cons_append, separated, Bool.and_eq_true] at h
    exact separated_of_append xs h.2

/-- The marks are those of a text that is read as SQL: comments are where the text has them. -/
inductive Marked : List Mark → Prop
  | nil : Marked []
  /-- A character that opens no comment. -/
  | code {c : Char} {M : List Mark} (hc : ∀ d ∈ (fullText M).head?, ¬Opens c d) (h : Marked M) : Marked (code c :: M)
  /-- A block comment. -/
  | block {gap M : List Mark} (hgap : ∀ m ∈ gap, m.inComment = true)
      (hclose : Sql.throughClose (fullText gap ++ fullText M) = (fullText gap, fullText M)) (h : Marked M) :
      Marked (comment '/' :: comment '*' :: (gap ++ M))
  /-- A comment that ends with its line, and blanks after it that are no part of it in the marks. -/
  | line {gap M : List Mark} {blank : Text} (hgap : ∀ m ∈ gap, m.inComment = true ∧ m.char ≠ '\n')
      (hblank : ∀ c ∈ blank, Sql.isGap c = true ∧ c ≠ '\n') (h : Marked M) :
      Marked (comment '-' :: comment '-' :: (gap ++ (blank.map Mark.code ++ Mark.code '\n' :: M)))

/-- Characters of a word are code. -/
theorem Marked.exists_of_word : ∀ {more after : Text} {M : List Mark}, Marked M → fullText M = more ++ after →
    (∀ d ∈ more, Sql.continuesWord d = true) →
      ∃ M', M = more.map Mark.code ++ M' ∧ fullText M' = after ∧ Marked M'
  | [], after, M, hM, hfull, _ => ⟨M, rfl, hfull, hM⟩
  | d :: more, after, M, hM, hfull, hmore => by
    obtain ⟨hd, hmore⟩ := List.forall_mem_cons.1 hmore
    cases hM with
    | nil => cases hfull
    | @code c M hc h =>
      obtain ⟨hcd, htail⟩ := List.cons_eq_cons.1 hfull
      obtain ⟨M', rfl, hafter, hM'⟩ := h.exists_of_word htail hmore
      obtain rfl : c = d := hcd
      exact ⟨M', rfl, hafter, hM'⟩
    | block hgap hclose h =>
      obtain ⟨rfl, _⟩ := List.cons_eq_cons.1 hfull
      cases hd
    | line hgap hblank h =>
      obtain ⟨rfl, _⟩ := List.cons_eq_cons.1 hfull
      cases hd

theorem head?_codeText : ∀ M : List Mark, (codeText M).head? = ((M.dropWhile inComment).head?).map char
  | [] => rfl
  | ⟨_, false⟩ :: _ => rfl
  | ⟨_, true⟩ :: M => head?_codeText M

/-- The first character outside comments does not join the one before them. -/
theorem stops_of_separated {last : Char} {M : List Mark} (h : separated (code last :: M) = true) :
    Sql.Stops last (fullText M) (codeText M) := by
  intro d hd
  cases M with
  | nil => cases hd
  | cons m M =>
    obtain ⟨c, inComment⟩ := m
    cases inComment with
    | false => exact .inl hd
    | true =>
      right
      rw [head?_codeText] at hd
      obtain ⟨next, hnext, rfl⟩ := Option.map_eq_some_iff.1 hd
      rw [separated, hnext, Bool.and_eq_true] at h
      simpa [code] using h.1

end Mark

namespace Sql

open Mark

/-! ## Tokens of marked text -/

section Tokens

variable {c : Char} {r : Text} {offset : Nat}

theorem tokensFrom_nil (offset : Nat) : tokensFrom offset [] = [] := by
  rw [tokensFrom]

theorem tokensFrom_gap (h : (cut c r).1 = .gap) :
    tokensFrom offset (c :: r) = tokensFrom (offset + (Text.utf8 (c :: (cut c r).2.1)).length) (cut c r).2.2 := by
  rw [tokensFrom, if_pos h]

theorem tokensFrom_token (h : (cut c r).1 ≠ .gap) :
    tokensFrom offset (c :: r) = ⟨(cut c r).1, c :: (cut c r).2.1, offset, (cut c r).2.2⟩ ::
      tokensFrom (offset + (Text.utf8 (c :: (cut c r).2.1)).length) (cut c r).2.2 := by
  rw [tokensFrom, if_neg h]

/-- White space at the start makes no difference. -/
theorem tokensFrom_blank : ∀ {blank : Text} (offset : Nat) (r : Text), (∀ c ∈ blank, isGap c = true) →
    ∃ offset', tokensFrom offset (blank ++ r) = tokensFrom offset' r
  | [], offset, _, _ => ⟨offset, rfl⟩
  | c :: blank, offset, r, h => by
    obtain ⟨hc, hblank⟩ := List.forall_mem_cons.1 h
    have hcut : cut c (blank ++ r) = (.gap, [], blank ++ r) := cut_gap hc
    obtain ⟨offset', he⟩ := tokensFrom_blank _ r hblank
    exact ⟨offset', by rw [List.cons_append, tokensFrom_gap (by rw [hcut]), hcut, he]⟩

/-- What is skipped is white space, unless it opens a comment. -/
theorem isGap_of_cut (hc : ∀ d ∈ r.head?, ¬Opens c d) (h : (cut c r).1 = .gap) : isGap c = true := by
  by_contra hgap
  have hnumber : (throughNumber r).1 ≠ .gap := by
    simp only [throughNumber]
    split
    · simp
    · split <;> simp
  unfold cut at h
  simp only [hgap, if_false] at h
  split at h
  · cases h
  split at h
  · exact hnumber h
  split at h
  · split at h
    · cases h
    · exact hnumber h
  split at h
  · split at h <;> cases h
  split at h
  · split at h <;> cases h
  split at h
  · split at h <;> cases h
  · rename_i d r' _
    split at h
    · rename_i hline
      exact hc d rfl (.inr hline)
    split at h
    · rename_i hblock
      exact hc d rfl (.inl hblock)
    split at h
    · cases h
    · split at h <;> cases h

theorem cut_block {gap rest : Text} (h : throughClose (gap ++ rest) = (gap, rest)) :
    cut '/' ('*' :: (gap ++ rest)) = (.gap, '*' :: gap, rest) := by
  rw [show cut '/' ('*' :: (gap ++ rest)) =
    (.gap, '*' :: (throughClose (gap ++ rest)).1, (throughClose (gap ++ rest)).2) from rfl, h]

theorem cut_line {gap rest : Text} (h : '\n' ∉ gap) :
    cut '-' ('-' :: (gap ++ '\n' :: rest)) = (.gap, '-' :: gap, '\n' :: rest) := by
  have hgap : ∀ d ∈ gap, decide (d ≠ '\n') = true := fun d hd => decide_eq_true fun he => h (he ▸ hd)
  have hrest : ∀ d ∈ ('\n' :: rest).head?, decide (d ≠ '\n') = false := fun d hd => by
    cases hd
    rfl
  obtain ⟨htake, hdrop⟩ := takeWhile_of_stop hgap hrest
  rw [show cut '-' ('-' :: (gap ++ '\n' :: rest)) = (.gap, '-' :: (gap ++ '\n' :: rest).takeWhile (· ≠ '\n'),
    (gap ++ '\n' :: rest).dropWhile (· ≠ '\n')) from rfl, htake, hdrop]

/-- The last character of a token is as far from the comments after it as the token is. -/
theorem separated_getLastD {M : List Mark} (more : Text)
    (hs : separated (Mark.code c :: (more.map Mark.code ++ M)) = true) :
    separated (Mark.code (more.getLastD c) :: M) = true := by
  rcases List.eq_nil_or_concat more with rfl | ⟨front, last, rfl⟩
  · exact hs
  · rw [List.concat_eq_append, List.map_append, List.append_assoc] at hs
    rw [List.concat_eq_append, List.getLastD_concat]
    exact separated_of_append (Mark.code c :: front.map Mark.code) hs

/-- A block comment is skipped, and is no part of the code. -/
theorem skip_block {gap M : List Mark} (hgap : ∀ m ∈ gap, m.inComment = true)
    (hclose : throughClose (fullText gap ++ fullText M) = (fullText gap, fullText M)) (offset : Nat) :
    (∃ next, tokensFrom offset (fullText (.comment '/' :: .comment '*' :: (gap ++ M))) =
      tokensFrom next (fullText M)) ∧ codeText (.comment '/' :: .comment '*' :: (gap ++ M)) = codeText M := by
  have hfull : fullText (.comment '/' :: .comment '*' :: (gap ++ M)) = '/' :: '*' :: (fullText gap ++ fullText M) :=
    congrArg (['/', '*'] ++ ·) (fullText_append gap M)
  have hcut := cut_block hclose
  constructor
  · rw [hfull, tokensFrom_gap (by rw [hcut]), hcut]
    exact ⟨_, rfl⟩
  · rw [show codeText (.comment '/' :: .comment '*' :: (gap ++ M)) = codeText (gap ++ M) from rfl, codeText_append,
      codeText_of_comment hgap, List.nil_append]

/-- A line comment is skipped with its line break, and what it leaves in the code is white space. -/
theorem skip_line {gap M : List Mark} {blank : Text} (hgap : ∀ m ∈ gap, m.inComment = true ∧ m.char ≠ '\n')
    (hblank : ∀ c ∈ blank, isGap c = true ∧ c ≠ '\n') (offset offset' : Nat) :
    (∃ next, tokensFrom offset (fullText
        (.comment '-' :: .comment '-' :: (gap ++ (blank.map Mark.code ++ .code '\n' :: M)))) =
      tokensFrom next (fullText M)) ∧
    ∃ next, tokensFrom offset' (codeText
        (.comment '-' :: .comment '-' :: (gap ++ (blank.map Mark.code ++ .code '\n' :: M)))) =
      tokensFrom next (codeText M) := by
  constructor
  · have hfull : fullText (.comment '-' :: .comment '-' :: (gap ++ (blank.map Mark.code ++ .code '\n' :: M))) =
        '-' :: '-' :: ((fullText gap ++ blank) ++ '\n' :: fullText M) := by
      simp [fullText, Mark.comment, Mark.code, Function.comp_def]
    have hline : '\n' ∉ fullText gap ++ blank := by
      intro hmem
      rcases List.mem_append.1 hmem with hmem | hmem
      · obtain ⟨m, hm, hchar⟩ := List.mem_map.1 hmem
        exact (hgap m hm).2 hchar
      · exact (hblank '\n' hmem).2 rfl
    have hcut : cut '-' ('-' :: ((fullText gap ++ blank) ++ '\n' :: fullText M)) = _ := cut_line hline
    have hbreak : cut '\n' (fullText M) = (.gap, [], fullText M) := cut_gap rfl
    rw [hfull, tokensFrom_gap (by rw [hcut]), hcut, tokensFrom_gap (by rw [hbreak]), hbreak]
    exact ⟨_, rfl⟩
  · have hcode : codeText (.comment '-' :: .comment '-' :: (gap ++ (blank.map Mark.code ++ .code '\n' :: M))) =
        (blank ++ ['\n']) ++ codeText M := by
      rw [show codeText (.comment '-' :: .comment '-' :: (gap ++ (blank.map Mark.code ++ .code '\n' :: M))) =
        codeText (gap ++ (blank.map Mark.code ++ .code '\n' :: M)) from rfl, codeText_append, codeText_append,
        codeText_of_comment fun m hm => (hgap m hm).1, codeText_code, List.nil_append, List.append_assoc]
      rfl
    have hspace : ∀ c ∈ blank ++ ['\n'], isGap c = true := by
      refine List.forall_mem_append.2 ⟨fun c hc => (hblank c hc).1, fun c hc => ?_⟩
      rw [List.mem_singleton.1 hc]
      rfl
    rw [hcode]
    exact tokensFrom_blank offset' (codeText M) hspace

end Tokens

/-- **Tokens of marked text** are the same with its comments and without them, as long as the tokens are simple and no
comment is all that keeps two of them apart. -/
theorem tokensFrom_codeText {M : List Mark} {offset offset' : Nat} (hM : Marked M) (hs : separated M = true)
    (ht : ∀ t ∈ tokensFrom offset (fullText M), t.Simple) :
    List.Forall₂ Token.Alike (tokensFrom offset (fullText M)) (tokensFrom offset' (codeText M)) := by
  cases hM with
  | nil =>
    rw [show fullText [] = [] from rfl, show codeText [] = [] from rfl, tokensFrom_nil, tokensFrom_nil]
    exact .nil
  | @code c M hc h =>
    show List.Forall₂ _ (tokensFrom offset (c :: fullText M)) (tokensFrom offset' (c :: codeText M))
    replace ht : ∀ t ∈ tokensFrom offset (c :: fullText M), t.Simple := ht
    have hsM : separated M = true := separated_of_append [Mark.code c] hs
    by_cases hgap : (cut c (fullText M)).1 = .gap
    · have hspace := isGap_of_cut hc hgap
      rw [tokensFrom_gap hgap, cut_gap hspace] at ht ⊢
      rw [tokensFrom_gap (by rw [cut_gap hspace]), cut_gap hspace]
      exact tokensFrom_codeText h hsM ht
    · rw [tokensFrom_token hgap] at ht ⊢
      obtain ⟨htoken, ht⟩ := List.forall_mem_cons.1 ht
      have hsame := cut_append c (fullText M)
      have hcongr := fun rest hrest => @cut_congr c (fullText M) offset rest hgap htoken hrest
      rcases hcut : cut c (fullText M) with ⟨kind, more, after⟩
      simp only [hcut] at hgap hsame hcongr ht ⊢
      obtain ⟨M', rfl, rfl, hM'⟩ := h.exists_of_word hsame.symm (hcongr after fun d hd => .inl hd).2
      -- the characters of the token are code, so what follows it without comments begins where no token goes on
      have hrest := (hcongr (codeText M') (stops_of_separated (separated_getLastD more hs))).1
      have hcode : codeText (more.map Mark.code ++ M') = more ++ codeText M' := by
        rw [codeText_append, codeText_code]
      rw [hcode, tokensFrom_token (by rw [hrest]; exact hgap), hrest]
      exact .cons ⟨rfl, rfl⟩ (tokensFrom_codeText hM' (separated_of_append _ hsM) ht)
  | @block gap M hgap hclose h =>
    obtain ⟨⟨next, hfull⟩, hcode⟩ := skip_block hgap hclose offset
    rw [hfull] at ht ⊢
    rw [hcode]
    exact tokensFrom_codeText h (separated_of_append (.comment '/' :: .comment '*' :: gap) hs) ht
  | @line gap M blank hgap hblank h =>
    obtain ⟨⟨next, hfull⟩, next', hcode⟩ := skip_line hgap hblank offset offset' (M := M)
    rw [hfull] at ht ⊢
    rw [hcode]
    refine tokensFrom_codeText h (separated_of_append
      (.comment '-' :: .comment '-' :: (gap ++ (blank.map Mark.code ++ [.code '\n']))) ?_) ht
    simpa using hs
  termination_by M.length

end Sql

end BatchMigrate
