import BatchMigrate.Proofs.Script.InStep
import BatchMigrate.Proofs.Script.Keyword
import BatchMigrate.Proofs.Text.Trim

/-!
# The grammar of a separator line

What a separator line says, apart from white space around it, is the keyword but for case, or that, white space and a
count that fits into 32 bits (`Separator.Spells`). The recognition accepts just these texts, and of each it keeps the word
as it is spelled, one blank and the digits (`Separator.recognize_iff_spells`). So a token is a normal form: it is recognized
as its own directive, and the width of the white space around and inside a line is of no account.
-/

namespace BatchMigrate

namespace Text

/-- White space between two words. -/
def IsGap (gap : Text) : Prop := gap ≠ [] ∧ gap.isBlank = true

/-- One or more digits. -/
def IsNumeral (digits : Text) : Prop := digits ≠ [] ∧ ∀ c ∈ digits, isDigit c = true

theorem IsNumeral.isSpace {digits : Text} (h : IsNumeral digits) : ∀ c ∈ digits, Text.isSpace c = false :=
  fun c hc => isSpace_of_isDigit (h.2 c hc)

/-- The white space before a number ends where the number begins. -/
theorem dropWhile_gap {gap digits : Text} (hg : IsGap gap) (hd : IsNumeral digits) :
    (gap ++ digits).dropWhile isSpace = digits :=
  dropWhile_blank hg.2 fun c hc => hd.isSpace c (List.mem_of_head? hc)

end Text

namespace Separator

open Text (IsGap IsNumeral SameWord)

/-- What a separator line says between white space, and the directive that it is. -/
inductive Spells (keyword : Text) : Text → Directive → Prop
  /-- The keyword. -/
  | bare {word : Text} (hword : SameWord keyword word) : Spells keyword word ⟨word, none⟩
  /-- The keyword and a count. -/
  | counted {word gap digits : Text} (hword : SameWord keyword word) (hgap : IsGap gap) (hdigits : IsNumeral digits)
      (hmax : Text.decimalValue digits ≤ maxRepeat) :
      Spells keyword (word ++ gap ++ digits) ⟨word ++ ' ' :: digits, some (Text.decimalValue digits)⟩

variable {s : Separator} {keyword word gap digits line : Text} {d : Directive}

/-! ## What follows the keyword -/

theorem directive?_gap (hg : IsGap gap) (hd : IsNumeral digits) : directive? keyword (gap ++ digits) =
    (Text.decimal? maxRepeat digits).map fun n => ⟨keyword ++ ' ' :: digits, some n⟩ := by
  obtain ⟨c, more, rfl⟩ := List.exists_cons_of_ne_nil hg.1
  have hspace : Text.isSpace c = true := Text.isBlank_iff.1 hg.2 c List.mem_cons_self
  have hdrop := Text.dropWhile_gap hg hd
  rw [List.cons_append] at hdrop
  rw [List.cons_append, directive?, if_pos hspace, hdrop]

/-- **What may follow the keyword**: nothing, or white space and a count. -/
theorem directive?_eq_some : directive? word line = some d ↔ (line = [] ∧ d = ⟨word, none⟩) ∨
    ∃ gap digits, IsGap gap ∧ IsNumeral digits ∧ Text.decimalValue digits ≤ maxRepeat ∧ line = gap ++ digits ∧
      d = ⟨word ++ ' ' :: digits, some (Text.decimalValue digits)⟩ := by
  constructor
  · intro h
    cases line with
    | nil =>
      cases h
      exact .inl ⟨rfl, rfl⟩
    | cons c more =>
      rw [directive?] at h
      split at h
      · rename_i hspace
        obtain ⟨n, hn, rfl⟩ := Option.map_eq_some_iff.1 h
        obtain ⟨hne, hdigit, rfl, hmax⟩ := Text.decimal?_eq_some.1 hn
        refine .inr ⟨(c :: more).takeWhile Text.isSpace, (c :: more).dropWhile Text.isSpace, ⟨?_, ?_⟩, ⟨hne, hdigit⟩, hmax,
          List.takeWhile_append_dropWhile.symm, rfl⟩
        · rw [List.takeWhile_cons_of_pos hspace]
          exact List.cons_ne_nil _ _
        · exact Text.isBlank_takeWhile _
      · cases h
  · rintro (⟨rfl, rfl⟩ | ⟨gap, digits, hgap, hdigits, hmax, rfl, rfl⟩)
    · rfl
    · rw [directive?_gap hgap hdigits, Text.decimal?_eq_some.2 ⟨hdigits.1, hdigits.2, rfl, hmax⟩, Option.map_some]

/-! ## Lines -/

/-- **The recognized lines** are those of the grammar. -/
theorem recognize_eq_some : s.recognize line = some d ↔ Spells s.keyword (Text.trim line) d := by
  unfold recognize
  constructor
  · intro h
    split at h
    · rename_i cut rest hcut
      obtain ⟨hword, hline⟩ := Text.cutWord_eq_some.1 hcut
      rw [hline]
      rcases directive?_eq_some.1 h with ⟨rfl, rfl⟩ | ⟨gap, digits, hgap, hdigits, hmax, rfl, rfl⟩
      · rw [List.append_nil]
        exact .bare hword
      · rw [← List.append_assoc]
        exact .counted hword hgap hdigits hmax
    · cases h
  · generalize Text.trim line = body
    rintro (hword | ⟨hword, hgap, hdigits, hmax⟩)
    · rw [Text.cutWord_eq_some.2 ⟨hword, (List.append_nil body).symm⟩]
      rfl
    · rw [Text.cutWord_eq_some.2 ⟨hword, List.append_assoc ..⟩]
      exact directive?_eq_some.2 (.inr ⟨_, _, hgap, hdigits, hmax, rfl, rfl⟩)

theorem isSpace_of_mem_word (h : SameWord s.keyword word) : ∀ c ∈ word, Text.isSpace c = false :=
  h.isSpace fun _ => isSpace_of_mem_keyword

theorem trim_counted (hword : SameWord s.keyword word) (gap : Text) (hdigits : IsNumeral digits) :
    Text.trim (word ++ gap ++ digits) = word ++ gap ++ digits :=
  Text.trim_eq_self_of_ends (hword.ne_nil s.nonempty) (isSpace_of_mem_word hword) hdigits.1 hdigits.isSpace

/-- A text of the grammar neither begins nor ends with white space. -/
theorem Spells.trim (h : Spells s.keyword line d) : Text.trim line = line := by
  cases h with
  | bare hword => exact Text.trim_eq_self (isSpace_of_mem_word hword)
  | counted hword hgap hdigits hmax => exact trim_counted hword _ hdigits

/-- White space around a line is of no account. -/
theorem recognize_append {before after : Text} (hb : before.isBlank = true) (ha : after.isBlank = true) (line : Text) :
    s.recognize (before ++ line ++ after) = s.recognize line :=
  s.recognize_of_trim_eq (Text.trim_append hb ha line)

/-- The keyword, white space and digits: whatever the white space, it depends on the digits whether the line is a
directive. -/
theorem recognize_counted (hword : SameWord s.keyword word) (hgap : IsGap gap) (hdigits : IsNumeral digits) :
    s.recognize (word ++ gap ++ digits) =
      (Text.decimal? maxRepeat digits).map fun n => ⟨word ++ ' ' :: digits, some n⟩ := by
  rw [recognize, trim_counted hword gap hdigits, Text.cutWord_eq_some.2 ⟨hword, List.append_assoc ..⟩]
  exact directive?_gap hgap hdigits

/-- **The grammar of separator lines.** For every accepted keyword, the recognized lines are, between white space, the
keyword but for case, or that, white space and a number that fits into 32 bits; the token is the word as it is spelled and,
after one blank, the digits as they are, and the count is their value. A token is recognized as its own directive; and
white space around a line, and its width between the keyword and the digits, make no difference. -/
theorem recognize_iff_spells (h : ofKeyword keyword = .ok s) :
    (∀ line d, s.recognize line = some d ↔ Spells keyword (Text.trim line) d) ∧
    (∀ line d, s.recognize line = some d → s.recognize d.token = some d) ∧
    (∀ before line after : Text, before.isBlank = true → after.isBlank = true →
      s.recognize (before ++ line ++ after) = s.recognize line) ∧
    ∀ word gap gap' digits, SameWord keyword word → IsGap gap → IsGap gap' → IsNumeral digits →
      s.recognize (word ++ gap ++ digits) = s.recognize (word ++ gap' ++ digits) := by
  obtain rfl := keyword_of_ofKeyword h
  refine ⟨fun line d => recognize_eq_some, fun line d => recognize_token,
    fun before line after hb ha => recognize_append hb ha line, fun word gap gap' digits hword hgap hgap' hdigits => ?_⟩
  rw [recognize_counted hword hgap hdigits, recognize_counted hword hgap' hdigits]

/-- A keyword with a long `s`, which the line spells with a capital and a Kelvin sign, between spaces that are not ASCII; a
line break before the count, and zeros in front of it. -/
theorem recognize_iff_spells_kelvin :
    ∃ s, ofKeyword (.of "ſ$k") = .ok s ∧
      s.recognize (.of "\u3000S$\u212A\t\r\n007\u0085") = some ⟨.of "S$\u212A 007", some 7⟩ ∧
      s.recognize (.of "S$\u212A 007") = some ⟨.of "S$\u212A 007", some 7⟩ := by
  obtain ⟨hgrammar, htoken, -⟩ := @recognize_iff_spells _ (.of "ſ$k") rfl
  have hspells : Spells (.of "ſ$k") (.of "S$\u212A\t\r\n007") ⟨.of "S$\u212A 007", some 7⟩ :=
    @Spells.counted _ (.of "S$\u212A") (.of "\t\r\n") (.of "007") (by decide +kernel) ⟨by decide, by decide⟩
      ⟨by decide, List.all_eq_true.1 (by decide)⟩ (by decide)
  have hline := (hgrammar (.of "\u3000S$\u212A\t\r\n007\u0085") _).2 hspells
  exact ⟨_, rfl, hline, htoken _ _ hline⟩

end Separator

end BatchMigrate
