import Mathlib.Data.List.TakeWhile
import BatchMigrate.Config.Basic
import BatchMigrate.Proofs.Script.Separator
import BatchMigrate.Proofs.Text.Decimal

/-!
# Keywords as separator lines

Any word without white space is accepted as the keyword of a separator, and it is recognized, alone and with a count
(`Separator.recognize_keyword`, `Separator.recognize_count`). But comments are cut out of a line before it is compared
with the separator, so a keyword in which a comment begins is never compared as a whole: the line of a keyword is a
separator line exactly if it holds neither `--` nor `/*` (`Separator.separates_iff`). Its converse rests on lengths: what is
left of a line in which a comment begins is shorter than the line, and a token is no longer than the text in which it is
recognized.
-/

namespace BatchMigrate

/-! ## Recognition -/

namespace Separator

variable {s : Separator} {keyword line : Text} {d : Directive} {n : Nat}

theorem keyword_of_ofKeyword (h : ofKeyword keyword = .ok s) : s.keyword = keyword := by
  unfold ofKeyword at h
  split at h
  · cases h
    rfl
  · cases h

theorem isSpace_of_mem_keyword {c : Char} (h : c ∈ s.keyword) : Text.isSpace c = false :=
  Bool.not_eq_true _ ▸ List.any_eq_false.1 s.noSpace c h

/-- The keyword alone is a directive. -/
theorem recognize_keyword (s : Separator) : s.recognize s.keyword = some ⟨s.keyword, none⟩ := by
  have htrim : Text.trim s.keyword = s.keyword := Text.trim_eq_self fun _ => isSpace_of_mem_keyword
  have hcut := Text.cutWord_self s.keyword []
  rw [List.append_nil] at hcut
  rw [recognize, htrim, hcut]
  rfl

/-- The keyword with a count is a directive. -/
theorem recognize_count (s : Separator) (hn : n ≤ maxRepeat) :
    s.recognize (s.keyword ++ ' ' :: Text.ofNat n) = some ⟨s.keyword ++ ' ' :: Text.ofNat n, some n⟩ := by
  have hdigit : ∀ c ∈ Text.ofNat n, Text.isSpace c = false := fun c hc =>
    Text.isSpace_of_isDigit (Text.isDigit_of_mem_ofNat hc)
  have hne : Text.ofNat n ≠ [] := Nat.toDigits_ne_nil
  have htrim : Text.trim (s.keyword ++ ' ' :: Text.ofNat n) = s.keyword ++ ' ' :: Text.ofNat n := by
    rw [List.append_cons]
    exact Text.trim_eq_self_of_ends s.nonempty (fun _ => isSpace_of_mem_keyword) hne hdigit
  have hdrop : (' ' :: Text.ofNat n).dropWhile Text.isSpace = Text.ofNat n :=
    @Text.dropWhile_blank [' '] _ rfl fun c hc => hdigit c (List.mem_of_head? hc)
  have hblank : Text.isSpace ' ' = true := by decide
  rw [recognize, htrim, Text.cutWord_self]
  simp only [directive?, hblank, if_true, hdrop, Text.decimal?_ofNat hn, Option.map_some]

/-- A token is no longer than the keyword and what follows it. -/
theorem length_directive?_le {rest : Text} (h : directive? keyword rest = some d) :
    d.token.length ≤ keyword.length + rest.length := by
  unfold directive? at h
  split at h
  · cases h
    exact Nat.le_refl _
  · rename_i c r
    split at h
    · rename_i hspace
      obtain ⟨n, _, rfl⟩ := Option.map_eq_some_iff.1 h
      -- the blank of the token stands for the white space that is dropped
      have hdigits : ((c :: r).dropWhile Text.isSpace).length ≤ r.length := by
        rw [List.dropWhile_cons_of_pos hspace]
        exact (List.dropWhile_suffix _).length_le
      simp only [List.length_append, List.length_cons]
      omega
    · cases h

/-- A token is no longer than the text in which it is recognized. -/
theorem length_token_le (h : s.recognize line = some d) : d.token.length ≤ line.length := by
  unfold recognize at h
  split at h
  · rename_i cut rest hcut
    calc d.token.length ≤ cut.length + rest.length := length_directive?_le h
      _ = (Text.trim line).length := by rw [Text.eq_append_of_cutWord hcut, List.length_append]
      _ ≤ line.length := (Text.trimBy_isInfix _ _).length_le
  · cases h

end Separator

/-! ## Lines in which a comment begins -/

namespace Mark

/-- What stands before the first comment stands outside comments. -/
theorem length_headText_le (marks : List Mark) : (headText marks).length ≤ (codeText marks).length := by
  have hhead : ∀ m ∈ marks.takeWhile fun m => !m.inComment, (!m.inComment) = true := fun m hm =>
    List.mem_takeWhile_imp (p := fun m : Mark => !m.inComment) hm
  have hsub := (List.takeWhile_sublist (fun m : Mark => !m.inComment) (l := marks)).filter fun m => !m.inComment
  rw [List.filter_eq_self.2 hhead] at hsub
  rw [headText, codeText, List.length_map, List.length_map]
  exact hsub.length_le

/-- If a line is not all before its first comment, not all of it stands outside comments. -/
theorem length_codeText_lt {marks : List Mark} (h : headText marks ≠ fullText marks) :
    (codeText marks).length < (fullText marks).length := by
  have hle := List.length_filter_le (fun m : Mark => !m.inComment) marks
  rw [codeText, fullText, List.length_map, List.length_map]
  refine Nat.lt_of_le_of_ne hle fun he => h ?_
  have hcode := List.length_filter_eq_length_iff.1 he
  rw [headText, fullText, List.takeWhile_eq_self_iff.2 hcode]

end Mark

namespace ScanState

variable {s : ScanState} {separator : Separator} {line : Text} {d : Directive}

/-- What is compared with the separator stands outside comments. -/
theorem length_candidate_le {stripComments : Bool} {lex : Lex} {marks : List Mark} {text : Text}
    (h : candidate stripComments lex marks = some text) : text.length ≤ (Mark.codeText marks).length := by
  unfold candidate at h
  split at h
  · cases h
    exact Nat.le_refl _
  · split at h
    · cases h
    · split at h
      · cases h
        exact Mark.length_headText_le marks
      · cases h

/-- **A line in which a comment begins is no token.** -/
theorem unmarked_of_directive? (hl : s.lex = .plain) (h : s.directive? separator line = some d) (hd : d.token = line) :
    line.Unmarked := by
  by_contra hmarked
  have hfull : Mark.fullText (s.marks line) = line := Lex.fullText_mark _ _ line
  have hhead : Mark.headText (s.marks line) ≠ Mark.fullText (s.marks line) := fun he => by
    refine hmarked ?_
    rw [← hfull, ← he, marks, hl]
    exact Lex.unmarked_headText _ line
  have hcode := Mark.length_codeText_lt hhead
  unfold directive? at h
  split at h
  · cases h
  · obtain ⟨text, htext, hr⟩ := Option.bind_eq_some_iff.1 h
    have htoken := Separator.length_token_le hr
    have hcandidate := length_candidate_le htext
    rw [hfull] at hcode
    rw [hd] at htoken
    omega

/-- A line whose directive has the line as its token is a separator line exactly if no comment begins in it. -/
theorem fst_scanLine_iff (hl : s.lex = .plain) (hr : separator.recognize line = some d) (hd : d.token = line)
    (terminator : Text) (isLast : Bool) :
    (s.scanLine separator terminator line isLast).1 = .directive d ↔ line.Unmarked := by
  rw [fst_scanLine_eq_directive]
  constructor
  · intro h
    exact unmarked_of_directive? hl h hd
  · intro hu
    rw [directive?_of_unmarked hl hu, hr]

end ScanState

/-! ## Keywords -/

/-- No comment begins in digits. -/
theorem Text.unmarked_ofNat (n : Nat) : Text.Unmarked (Text.ofNat n) := by
  have hdigit : ∀ c ∈ Text.ofNat n, Text.isDigit c = true := fun c => isDigit_of_mem_ofNat
  constructor
  · intro h
    exact absurd (hdigit '/' (h.subset (by decide))) (by decide)
  · intro h
    exact absurd (hdigit '-' (h.subset (by decide))) (by decide)

namespace Separator

/-- **Keywords that separate.** Outside comments, and whether comments are kept or stripped, the line of an accepted
keyword, and that of the keyword, a blank and the digits of any count that fits into 32 bits, are scanned as the directive
with that token and that count, exactly if no comment begins in the keyword. -/
theorem separates_iff {keyword : Text} {separator : Separator} (h : ofKeyword keyword = .ok separator) {s : ScanState}
    (hs : s.lex = .plain) {n : Nat} (hn : n ≤ maxRepeat) (terminator : Text) (isLast : Bool) :
    ((s.scanLine separator terminator keyword isLast).1 = .directive ⟨keyword, none⟩ ↔ keyword.Unmarked) ∧
    ((s.scanLine separator terminator (keyword ++ ' ' :: Text.ofNat n) isLast).1 =
      .directive ⟨keyword ++ ' ' :: Text.ofNat n, some n⟩ ↔ keyword.Unmarked) := by
  obtain rfl := keyword_of_ofKeyword h
  have hline : Text.Unmarked (separator.keyword ++ ' ' :: Text.ofNat n) ↔ separator.keyword.Unmarked :=
    ⟨fun hu => hu.part (List.prefix_append _ _).isInfix, fun hu => hu.append_blank (Text.unmarked_ofNat n)⟩
  refine ⟨ScanState.fst_scanLine_iff hs (recognize_keyword separator) rfl terminator isLast, ?_⟩
  rw [← hline]
  exact ScanState.fst_scanLine_iff hs (recognize_count separator hn) rfl terminator isLast

/-- A keyword of punctuation with the largest count, in the middle of a script whose comments are stripped. -/
theorem separates_iff_punctuation :
    let s : ScanState := ⟨true, .plain, .of "a", 7⟩
    ∃ separator, ofKeyword (.of "-/-") = .ok separator ∧ s.lex = .plain ∧ maxRepeat ≤ maxRepeat ∧
      (s.scanLine separator [] (.of "-/-") true).1 = .directive ⟨.of "-/-", none⟩ ∧
      (s.scanLine separator [] (.of "-/- 4294967295") true).1 = .directive ⟨.of "-/- 4294967295", some 4294967295⟩ := by
  intro s
  have hkeyword : Text.Unmarked (.of "-/-") := by
    unfold Text.Unmarked
    decide
  have h := @separates_iff (.of "-/-") _ rfl s rfl maxRepeat (Nat.le_refl _) [] true
  exact ⟨_, rfl, rfl, Nat.le_refl _, h.1.2 hkeyword, h.2.2 hkeyword⟩

/-- **A separator that cannot separate.** Two hyphens are accepted as a keyword, in settings too, but the line of the
keyword is a comment. -/
theorem hyphens_never_separate :
    ∃ separator, ofKeyword (.of "--") = .ok separator ∧
      ({ splitter := { separator := .of "--" } } : Config).validate = .ok () ∧
      ∀ stripComments, ((ScanState.start stripComments).scanLine separator ['\n'] (.of "--") false).1 = .content ∧
        ((ScanState.start stripComments).scanLine separator ['\n'] (.of "-- 5") false).1 = .content := by
  refine ⟨_, rfl, rfl, fun stripComments => ?_⟩
  cases stripComments <;> decide

end Separator

end BatchMigrate
