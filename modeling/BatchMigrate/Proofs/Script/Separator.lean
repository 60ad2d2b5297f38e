import BatchMigrate.Proofs.Script.Scan
import BatchMigrate.Proofs.Text.Fold
import BatchMigrate.Proofs.Text.Trim

/-!
# Tokens of directives

The token of a directive is what is printed for its line. It is recognized as the same directive
(`Separator.recognize_token`), because nothing but white space is lost between a line and its token; and it holds no
comment, because with comments kept it comes from the part of its line before all comments
(`ScanState.directive?_token`).
-/

namespace BatchMigrate

/-! ## Recognition -/

namespace Separator

variable {s : Separator} {line : Text} {d : Directive}

/-- **What a directive is made of**: its token is the keyword as the line has it, or the keyword, a blank and the digits
that end the line. -/
theorem recognize_cases (h : s.recognize line = some d) :
    ∃ cut rest, Text.cutWord s.keyword (Text.trim line) = some (cut, rest) ∧
      ((rest = [] ∧ d = ⟨cut, none⟩) ∨
        ∃ digits n, digits ≠ [] ∧ digits <:+ rest ∧ digits.dropWhile Text.isSpace = digits ∧
          Text.decimal? maxRepeat digits = some n ∧ d = ⟨cut ++ ' ' :: digits, some n⟩) := by
  unfold recognize at h
  split at h
  · rename_i cut rest hcut
    refine ⟨cut, rest, hcut, ?_⟩
    unfold directive? at h
    split at h
    · cases h
      exact Or.inl ⟨rfl, rfl⟩
    · rename_i c r
      split at h
      · obtain ⟨n, hn, rfl⟩ := Option.map_eq_some_iff.1 h
        refine Or.inr ⟨_, n, ?_, List.dropWhile_suffix _, Text.dropWhile_dropWhile _ _, hn, rfl⟩
        intro he
        rw [he] at hn
        cases hn
      · cases h
  · cases h

/-- An empty line is no directive. -/
theorem recognize_nil (s : Separator) : s.recognize [] = none := by
  cases h : s.recognize [] with
  | none => rfl
  | some d =>
    obtain ⟨cut, rest, hcut, _⟩ := recognize_cases h
    exact absurd (List.append_eq_nil_iff.1 (Text.eq_append_of_cutWord hcut).symm).1 (Text.cut_ne_nil hcut s.nonempty)

/-- A token neither begins nor ends with white space. -/
theorem space_token (h : s.recognize line = some d) : (∀ c, d.token.head? = some c → Text.isSpace c = false) ∧
    ∀ c, d.token.getLast? = some c → Text.isSpace c = false := by
  obtain ⟨cut, rest, hcut, hd⟩ := recognize_cases h
  have hline := Text.eq_append_of_cutWord hcut
  have hhead : ∀ c, cut.head? = some c → Text.isSpace c = false := fun c hc =>
    Text.head?_trimBy (t := line) (by rw [← Text.trim, hline, List.head?_append, hc, Option.some_or])
  have hlast : ∀ {end_ : Text} {c}, end_ <:+ cut ++ rest → end_.getLast? = some c → Text.isSpace c = false := by
    rintro end_ c ⟨before, hb⟩ hc
    exact Text.getLast?_trimBy (t := line) (by rw [← Text.trim, hline, ← hb, List.getLast?_append, hc, Option.some_or])
  rcases hd with ⟨rfl, rfl⟩ | ⟨digits, n, hne, hsuffix, _, _, rfl⟩
  · exact ⟨hhead, fun c hc => hlast ((List.append_nil cut).symm ▸ List.suffix_refl cut) hc⟩
  · refine ⟨fun c hc => hhead c ?_, fun c hc => hlast (hsuffix.trans (List.suffix_append cut rest)) (c := c) ?_⟩
    · have hcut := Text.cut_ne_nil hcut s.nonempty
      rwa [List.head?_append, List.head?_eq_some_head hcut, Option.some_or, ← List.head?_eq_some_head hcut] at hc
    · rwa [List.append_cons, List.getLast?_append, List.getLast?_eq_some_getLast hne, Option.some_or,
        ← List.getLast?_eq_some_getLast hne] at hc

/-- **A token is recognized as its own directive.** -/
theorem recognize_token (h : s.recognize line = some d) : s.recognize d.token = some d := by
  have htrim : Text.trim d.token = d.token := Text.trimBy_eq_self (space_token h).1 (space_token h).2
  obtain ⟨cut, rest, hcut, hd⟩ := recognize_cases h
  rw [recognize, htrim]
  rcases hd with ⟨rfl, rfl⟩ | ⟨digits, n, hne, _, hdrop, hn, rfl⟩
  · have hword := Text.cutWord_append hcut []
    rw [List.append_nil] at hword
    rw [hword]
    simp [directive?]
  · have hblank : Text.isSpace ' ' = true := by decide
    rw [Text.cutWord_append hcut]
    simp only [directive?, hblank, if_true, List.dropWhile_cons, hdrop, hn, Option.map_some]

end Separator

/-! ## Text without comments -/

/-- No comment begins in the text. -/
def Text.Unmarked (t : Text) : Prop := ¬['/', '*'] <:+: t ∧ ¬['-', '-'] <:+: t

namespace Text

/-- Two items in a row do not stand on both sides of a third one. -/
theorem infix_append_cons {α : Type} {a b c : α} (ha : a ≠ c) (hb : b ≠ c) {y : List α} : ∀ {x : List α},
    [a, b] <:+: x ++ c :: y → [a, b] <:+: x ∨ [a, b] <:+: y
  | [], h => by
    rcases List.infix_cons_iff.1 h with hp | hi
    · exact absurd (List.cons_prefix_cons.1 hp).1 ha
    · exact Or.inr hi
  | [d], h => by
    rcases List.infix_cons_iff.1 h with hp | hi
    · exact absurd (List.cons_prefix_cons.1 (List.cons_prefix_cons.1 hp).2).1 hb
    · exact (infix_append_cons ha hb (x := []) hi).imp_left fun hn => hn.trans (List.nil_infix)
  | d :: e :: x, h => by
    rcases List.infix_cons_iff.1 h with hp | hi
    · obtain ⟨hd, hp⟩ := List.cons_prefix_cons.1 hp
      obtain ⟨he, _⟩ := List.cons_prefix_cons.1 hp
      exact Or.inl ⟨[], x, by rw [hd, he]; rfl⟩
    · exact (infix_append_cons ha hb hi).imp_left fun hx => hx.trans (List.suffix_cons d _).isInfix

theorem Unmarked.part {t part : Text} (h : t.Unmarked) (hp : part <:+: t) : part.Unmarked :=
  ⟨fun hi => h.1 (hi.trans hp), fun hi => h.2 (hi.trans hp)⟩

/-- A blank between two texts opens no comment. -/
theorem Unmarked.append_blank {x y : Text} (hx : x.Unmarked) (hy : y.Unmarked) : Unmarked (x ++ ' ' :: y) :=
  ⟨fun hi => (infix_append_cons (by decide) (by decide) hi).elim hx.1 hy.1,
    fun hi => (infix_append_cons (by decide) (by decide) hi).elim hx.2 hy.2⟩

end Text

namespace Mark

theorem codeText_code : ∀ t : Text, codeText (t.map code) = t
  | [] => rfl
  | c :: r => congrArg (c :: ·) (codeText_code r)

theorem headText_code : ∀ t : Text, headText (t.map code) = t
  | [] => rfl
  | c :: r => congrArg (c :: ·) (headText_code r)

theorem fullText_append (xs ys : List Mark) : fullText (xs ++ ys) = fullText xs ++ fullText ys := List.map_append

theorem codeText_append (xs ys : List Mark) : codeText (xs ++ ys) = codeText xs ++ codeText ys := by
  rw [codeText, List.filter_append, List.map_append, codeText, codeText]

theorem fullText_code : ∀ t : Text, fullText (t.map code) = t
  | [] => rfl
  | c :: r => congrArg (c :: ·) (fullText_code r)

/-- Comments are left out. -/
theorem codeText_of_comment {gap : List Mark} (h : ∀ m ∈ gap, m.inComment = true) : codeText gap = [] := by
  rw [codeText, List.filter_eq_nil_iff.2 fun m hm => by simp [h m hm], List.map_nil]

end Mark

namespace Lex

/-- Up to the place where its first comment begins, a text is all code. -/
theorem mark_append_of_unmarked (n : Nat) : ∀ {head tail : Text}, Text.Unmarked (head ++ tail.take 1) →
    plain.mark n (head ++ tail) = (head.map Mark.code ++ (plain.mark n tail).1, (plain.mark n tail).2)
  | [], _, _ => rfl
  | c :: head, tail, h => by
    have ih := mark_append_of_unmarked n (h.part (List.suffix_cons c (head ++ tail.take 1)).isInfix)
    have hpair : ∀ d rest, head ++ tail = d :: rest → [c, d] <:+: c :: head ++ tail.take 1 := by
      intro d rest he
      cases head with
      | nil =>
        obtain rfl : tail = d :: rest := he
        exact List.infix_rfl
      | cons e head =>
        obtain ⟨rfl, -⟩ := List.cons_eq_cons.1 he
        exact ⟨[], head ++ tail.take 1, rfl⟩
    rw [List.cons_append, mark, ih]
    · rfl
    · rintro rest rfl he
      exact h.1 (hpair _ _ he)
    · rintro rest rfl he
      exact h.2 (hpair _ _ he)

/-- Text in which no comment begins is all code. -/
theorem mark_unmarked (n : Nat) {t : Text} (h : t.Unmarked) : plain.mark n t = (t.map Mark.code, plain) := by
  have hmark := @mark_append_of_unmarked n t [] (by rwa [List.take_nil, List.append_nil])
  rwa [List.append_nil, mark, List.append_nil] at hmark

/-- The text before the first comment is the start of its line. -/
theorem headText_isPrefix (n : Nat) (lex : Lex) (line : Text) : Mark.headText (lex.mark n line).1 <+: line := by
  have hp := (List.takeWhile_prefix (fun m : Mark => !m.inComment) (l := (lex.mark n line).1)).map Mark.char
  have hfull := fullText_mark n lex line
  rw [Mark.fullText] at hfull
  rwa [hfull] at hp

/-- A line that begins inside a comment has no text before it. -/
theorem headText_of_ne_plain (n : Nat) {lex : Lex} (h : lex ≠ plain) (line : Text) :
    Mark.headText (lex.mark n line).1 = [] := by
  fun_cases mark n lex line <;> first | rfl | exact absurd rfl h

/-- No comment begins before the first comment. -/
theorem unmarked_headText (n : Nat) : ∀ line : Text, Text.Unmarked (Mark.headText (plain.mark n line).1)
  | [] => by
    rw [mark]
    exact ⟨by decide, by decide⟩
  | c :: r => by
    have ih := unmarked_headText n r
    have hnil : Text.Unmarked [] := ⟨by decide, by decide⟩
    by_cases hblock : ∃ r', c = '/' ∧ r = '*' :: r'
    · obtain ⟨r', rfl, rfl⟩ := hblock
      exact hnil
    by_cases hline : ∃ r', c = '-' ∧ r = '-' :: r'
    · obtain ⟨r', rfl, rfl⟩ := hline
      exact hnil
    obtain ⟨more, hm⟩ := headText_isPrefix n plain r
    rw [mark]
    · show Text.Unmarked (c :: Mark.headText (plain.mark n r).1)
      constructor <;> intro hi <;> rcases List.infix_cons_iff.1 hi with hp | hi
      · obtain ⟨rfl, tail, ht⟩ := List.cons_prefix_cons.1 hp
        exact hblock ⟨tail ++ more, rfl, by rw [← hm, ← ht]; rfl⟩
      · exact ih.1 hi
      · obtain ⟨rfl, tail, ht⟩ := List.cons_prefix_cons.1 hp
        exact hline ⟨tail ++ more, rfl, by rw [← hm, ← ht]; rfl⟩
      · exact ih.2 hi
    · exact fun r' hc hr => hblock ⟨r', hc, hr⟩
    · exact fun r' hc hr => hline ⟨r', hc, hr⟩

end Lex

/-! ## Tokens as lines -/

namespace Separator

variable {s : Separator} {line : Text} {d : Directive}

/-- All characters of a token but a blank are characters of the line. -/
theorem mem_of_mem_token (h : s.recognize line = some d) {c : Char} (hc : c ∈ d.token) : c = ' ' ∨ c ∈ line := by
  obtain ⟨cut, rest, hcut, hd⟩ := recognize_cases h
  have hsub : cut ++ rest ⊆ line := by
    rw [← Text.eq_append_of_cutWord hcut]
    exact (Text.trimBy_isInfix _ _).subset
  rcases hd with ⟨rfl, rfl⟩ | ⟨digits, n, _, hsuffix, _, _, rfl⟩
  · exact Or.inr (hsub (List.mem_append_left _ hc))
  · rcases List.mem_append.1 hc with hc | hc
    · exact Or.inr (hsub (List.mem_append_left _ hc))
    · exact (List.mem_cons.1 hc).imp_right fun hc => hsub (List.mem_append_right _ (hsuffix.subset hc))

/-- No comment begins in the token of a line in which none does. -/
theorem unmarked_token (h : s.recognize line = some d) (hu : line.Unmarked) : d.token.Unmarked := by
  obtain ⟨cut, rest, hcut, hd⟩ := recognize_cases h
  have hline : Text.Unmarked (cut ++ rest) := by
    rw [← Text.eq_append_of_cutWord hcut]
    exact hu.part (Text.trimBy_isInfix _ _)
  have hword : Text.Unmarked cut := hline.part (List.prefix_append _ _).isInfix
  rcases hd with ⟨rfl, rfl⟩ | ⟨digits, n, _, hsuffix, _, _, rfl⟩
  · exact hword
  · exact hword.append_blank (hline.part (hsuffix.trans (List.suffix_append _ _)).isInfix)

end Separator

namespace ScanState

variable {s : ScanState} {separator : Separator} {line : Text} {d : Directive}

/-- With comments kept, a directive line begins outside comments, and what stands before its first comment is
recognized. -/
theorem recognize_of_directive (hs : s.stripComments = false) (h : s.directive? separator line = some d) :
    s.lex = .plain ∧ separator.recognize (Mark.headText (s.marks line)) = some d := by
  unfold directive? at h
  split at h
  · cases h
  · obtain ⟨text, ht, hr⟩ := Option.bind_eq_some_iff.1 h
    have htext : text = Mark.headText (s.marks line) := by
      simp only [candidate, hs, Bool.false_eq_true, if_false] at ht
      split at ht
      · cases ht
      · split at ht
        · exact (Option.some.inj ht).symm
        · cases ht
    subst htext
    refine ⟨?_, hr⟩
    by_cases hl : s.lex = .plain
    · exact hl
    · rw [marks, Lex.headText_of_ne_plain _ hl, Separator.recognize_nil] at hr
      cases hr

/-- Outside comments, a line in which no comment begins is compared with the separator as a whole. -/
theorem directive?_of_unmarked (hl : s.lex = .plain) (hu : line.Unmarked) :
    s.directive? separator line = separator.recognize line := by
  have hmark : s.lex.mark (s.lineNumber + 1) line = (line.map Mark.code, .plain) := by
    rw [hl]
    exact Lex.mark_unmarked _ hu
  have hb : (s.advance line).lex.inBlock = false := by
    rw [advance, hmark]
    rfl
  have hc : candidate s.stripComments s.lex (s.marks line) = some line := by
    rw [marks, hmark]
    simp [candidate, hl, Lex.inBlock, Mark.codeText_code, Mark.headText_code]
  rw [directive?, hb, hc]
  rfl

/-- **The token of a directive line is a directive line** where the line was one. -/
theorem directive?_token (hs : s.stripComments = false) (h : s.directive? separator line = some d) :
    s.directive? separator d.token = some d := by
  obtain ⟨hl, hr⟩ := recognize_of_directive hs h
  have hu : d.token.Unmarked := by
    refine Separator.unmarked_token hr ?_
    rw [marks, hl]
    exact Lex.unmarked_headText _ _
  rw [directive?_of_unmarked hl hu]
  exact Separator.recognize_token hr

end ScanState

end BatchMigrate
