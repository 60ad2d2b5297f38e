import BatchMigrate.Proofs.Sql.Comments
import BatchMigrate.Proofs.Text.Decimal

/-!
# Words and names

Words with blanks between them are the tokens of their text (`tokensFrom_words`). A run of letters, digits and underscores
is a word as well, unless it begins with a digit: then it is no token at all if it does not end as a number
(`tokensFrom_illegal`). A table can have such a run as its name, without quotes, if it begins like a word and is not one of
the names that the database keeps for itself (`LegalName`).
-/

namespace BatchMigrate

namespace Sql

/-! ## Words -/

/-- A text that is read as one word. -/
def isWord : Text → Bool
  | [] => false
  | c :: more => !isGap c && beginsWord c && more.all continuesWord

section Words

variable {word rest : Text}

/-- A word is a token if no character of a word follows it. -/
theorem tokensFrom_word (hword : isWord word = true) (hrest : ∀ d ∈ rest.head?, continuesWord d = false)
    (offset : Nat) : tokensFrom offset (word ++ rest) =
      ⟨.word, word, offset, rest⟩ :: tokensFrom (offset + word.utf8.length) rest := by
  cases word with
  | nil => cases hword
  | cons c more =>
    simp only [isWord, Bool.and_eq_true, Bool.not_eq_true', List.all_eq_true] at hword
    obtain ⟨⟨hgap, hbegins⟩, hmore⟩ := hword
    obtain ⟨htake, hdrop⟩ := takeWhile_of_stop hmore hrest
    have hcut : cut c (more ++ rest) = (.word, more, rest) := by rw [cut_word hgap hbegins, htake, hdrop]
    rw [List.cons_append, tokensFrom_token (by simp [hcut]), hcut]

/-- A blank is skipped. -/
theorem tokensFrom_cons_gap {c : Char} (h : isGap c = true) (offset : Nat) (r : Text) :
    ∃ next, tokensFrom offset (c :: r) = tokensFrom next r :=
  @tokensFrom_blank [c] offset r (List.forall_mem_singleton.2 h)

/-- **Words with a blank after each of them** are tokens. -/
theorem tokensFrom_words : ∀ {words : List Text} (offset : Nat) (rest : Text), (∀ w ∈ words, isWord w = true) →
    ∃ before next, tokensFrom offset (words.flatMap (· ++ [' ']) ++ rest) = before ++ tokensFrom next rest ∧
      before.map Token.text = words
  | [], offset, rest, _ => ⟨[], offset, rfl, rfl⟩
  | word :: words, offset, rest, h => by
    obtain ⟨hword, hwords⟩ := List.forall_mem_cons.1 h
    have htext : (word :: words).flatMap (· ++ [' ']) ++ rest =
        word ++ ' ' :: (words.flatMap (· ++ [' ']) ++ rest) := by
      simp only [List.flatMap_cons, List.append_assoc, List.cons_append, List.nil_append]
    have hstop : ∀ d ∈ (' ' :: (words.flatMap (· ++ [' ']) ++ rest)).head?, continuesWord d = false := by
      rintro d ⟨⟩
      decide
    obtain ⟨after, hafter⟩ := tokensFrom_cons_gap (by decide : isGap ' ' = true) (offset + word.utf8.length)
      (words.flatMap (· ++ [' ']) ++ rest)
    obtain ⟨before, next, htokens, hbefore⟩ := tokensFrom_words after rest hwords
    refine ⟨⟨.word, word, offset, ' ' :: (words.flatMap (· ++ [' ']) ++ rest)⟩ :: before, next, ?_, ?_⟩
    · rw [htext, tokensFrom_word hword hstop, hafter, htokens, List.cons_append]
    · rw [List.map_cons, hbefore]

end Words

/-! ## Letters, digits and underscores -/

section WordChars

variable {c : Char} {u rest : Text}

theorem continuesWord_of_isWordChar (h : Text.isWordChar c = true) : continuesWord c = true := by
  simp only [Text.isWordChar, Char.isAlphanum, Bool.or_eq_true] at h
  simp only [continuesWord, beginsWord, Bool.or_eq_true]
  tauto

/-- What is no digit begins a word. -/
theorem beginsWord_of_isWordChar (h : Text.isWordChar c = true) (hdigit : c.isDigit = false) : beginsWord c = true := by
  simp only [Text.isWordChar, Char.isAlphanum, hdigit, Bool.or_false, Bool.or_eq_true] at h
  simp only [beginsWord, Bool.or_eq_true]
  exact .inl h

theorem not_isWordChar_of_isGap (h : isGap c = true) : Text.isWordChar c = false := by
  simp only [isGap, decide_eq_true_eq, List.mem_cons, List.not_mem_nil, or_false] at h
  rcases h with rfl | rfl | rfl | rfl | rfl | rfl <;> decide

theorem isGap_of_isWordChar (h : Text.isWordChar c = true) : isGap c = false := by
  cases hgap : isGap c with
  | false => rfl
  | true => exact absurd h (by simp [not_isWordChar_of_isGap hgap])

/-- A digit begins no word. -/
theorem beginsWord_of_isDigit (h : Text.isDigit c = true) : beginsWord c = false := by
  have hrange : 48 ≤ c.val.toNat ∧ c.val.toNat ≤ 57 := Text.toNat_of_isDigit h
  have halpha : c.isAlpha = false := by
    have hupper : ¬c.isUpper = true := fun hc => by
      have hA : 65 ≤ c.val.toNat := UInt32.le_iff_toNat_le.1 (of_decide_eq_true hc).1
      omega
    have hlower : ¬c.isLower = true := fun hc => by
      have ha : 97 ≤ c.val.toNat := UInt32.le_iff_toNat_le.1 (of_decide_eq_true (Bool.and_eq_true_iff.1 hc).1)
      omega
    exact Bool.eq_false_iff.2 fun hc => (Bool.or_eq_true_iff.1 hc).elim hupper hlower
  have hascii : ¬0x80 ≤ c.toNat := by
    have : c.toNat = c.val.toNat := rfl
    omega
  have hunder : c ≠ '_' := by
    rintro rfl
    exact absurd h (by decide)
  simp [beginsWord, halpha, hunder, hascii]

/-- A run that does not begin with a digit is a word. -/
theorem isWord_of_isWordChar (hc : c.isDigit = false) (h : ∀ d ∈ c :: u, Text.isWordChar d = true) :
    isWord (c :: u) = true := by
  obtain ⟨hword, hmore⟩ := List.forall_mem_cons.1 h
  simp only [isWord, isGap_of_isWordChar hword, beginsWord_of_isWordChar hword hc, Bool.not_false, Bool.true_and,
    List.all_eq_true]
  exact fun d hd => continuesWord_of_isWordChar (hmore d hd)

/-! ## Runs that begin with a digit -/

theorem throughSign_of_head? {r : Text} (h : ∀ d ∈ r.head?, d ≠ '+' ∧ d ≠ '-') : throughSign r = ([], r) := by
  cases r with
  | nil => rfl
  | cons d r =>
    have hd : d ≠ '+' ∧ d ≠ '-' := h d rfl
    rw [throughSign, if_neg (by simp [hd.1, hd.2])]

/-- Digits are cut off before any character that is none. -/
theorem dropWhile_append_cons {p : Char → Bool} {z : Char} (hz : p z = false) (u rest : Text) :
    (u ++ z :: rest).dropWhile p = u.dropWhile p ++ z :: rest := by
  rw [List.dropWhile_append]
  split
  · rename_i hempty
    rw [List.isEmpty_iff.1 hempty, List.dropWhile_cons_of_neg (by simp [hz]), List.nil_append]
  · rfl

section Last

variable {z : Char} (hz : Text.isWordChar z = true) (hdigit : Text.isDigit z = false) (he : z ≠ 'e' ∧ z ≠ 'E')

include hz in
/-- A run begins with a character of a word. -/
theorem isWordChar_head? (hu : ∀ d ∈ u, Text.isWordChar d = true) :
    ∀ d ∈ (u ++ z :: rest).head?, Text.isWordChar d = true := by
  intro d hd
  cases u with
  | nil =>
    cases hd
    exact hz
  | cons e u =>
    cases hd
    exact hu _ List.mem_cons_self

include hz hdigit he in
/-- An exponent leaves the last character of the run. -/
theorem exists_throughExponent (hu : ∀ d ∈ u, Text.isWordChar d = true) (rest : Text) : ∃ exponent v,
    throughExponent (u ++ z :: rest) = (exponent, v ++ z :: rest) ∧ ∀ d ∈ v, Text.isWordChar d = true := by
  cases u with
  | nil => exact ⟨[], [], by simp [throughExponent, he.1, he.2], hu⟩
  | cons e u =>
    have hmore : ∀ d ∈ u, Text.isWordChar d = true := fun d hd => hu d (List.mem_cons_of_mem e hd)
    have hsign : throughSign (u ++ z :: rest) = ([], u ++ z :: rest) := by
      refine throughSign_of_head? fun d hd => ?_
      have hd := isWordChar_head? hz hmore d hd
      constructor <;>
      · rintro rfl
        exact absurd hd (by decide)
    rw [List.cons_append, throughExponent, hsign]
    simp only [dropWhile_append_cons hdigit]
    split
    · exact ⟨_, _, rfl, fun d hd => hmore d (List.dropWhile_sublist _ |>.subset hd)⟩
    · exact ⟨[], e :: u, rfl, hu⟩

include hz hdigit he in
/-- A run that goes on as a number but ends as none is no token. -/
theorem throughNumber_illegal (hu : ∀ d ∈ u, Text.isWordChar d = true)
    (hrest : ∀ d ∈ rest.head?, continuesWord d = false) :
    throughNumber (u ++ z :: rest) = (.illegal, u ++ [z], rest) := by
  have hdigits : ∀ d ∈ u.dropWhile Text.isDigit, Text.isWordChar d = true := fun d hd =>
    hu d ((List.dropWhile_sublist _).subset hd)
  have hfraction : throughFraction (u.dropWhile Text.isDigit ++ z :: rest) =
      ([], u.dropWhile Text.isDigit ++ z :: rest) := by
    refine throughFraction_of_head? fun h => ?_
    exact absurd (isWordChar_head? hz hdigits '.' h) (by decide)
  obtain ⟨exponent, v, hexponent, hv⟩ := exists_throughExponent hz hdigit he hdigits rest
  have hword : ∀ d ∈ v ++ [z], continuesWord d = true := by
    refine List.forall_mem_append.2 ⟨fun d hd => continuesWord_of_isWordChar (hv d hd), ?_⟩
    exact List.forall_mem_singleton.2 (continuesWord_of_isWordChar hz)
  obtain ⟨htake, hdrop⟩ := takeWhile_of_stop hword hrest
  rw [List.append_assoc, List.singleton_append] at htake hdrop
  have hkind : (throughNumber (u ++ z :: rest)).1 = .illegal := by
    simp [throughNumber, dropWhile_append_cons hdigit, hfraction, hexponent, htake]
  have hafter : (throughNumber (u ++ z :: rest)).2.2 = rest := by
    simp only [throughNumber, dropWhile_append_cons hdigit, hfraction, hexponent, hdrop]
  have hmore : (throughNumber (u ++ z :: rest)).2.1 = u ++ [z] := by
    have hsame := throughNumber_append (u ++ z :: rest)
    rw [hafter] at hsame
    exact List.append_cancel_right (hsame.trans (List.append_cons u z rest))
  exact Prod.ext hkind (Prod.ext hmore hafter)

include hz hdigit he in
/-- **A run that begins with a digit** and ends with a letter is read as a whole, and is no token. The letters that may
end the digits of a number are left out. -/
theorem tokensFrom_illegal (hc : Text.isDigit c = true) (hu : ∀ d ∈ u, Text.isWordChar d = true)
    (hrest : ∀ d ∈ rest.head?, continuesWord d = false) (offset : Nat) :
    tokensFrom offset (c :: (u ++ z :: rest)) = ⟨.illegal, c :: (u ++ [z]), offset, rest⟩ ::
      tokensFrom (offset + (Text.utf8 (c :: (u ++ [z]))).length) rest := by
  have hgap : isGap c = false := isGap_of_isWordChar (by
    have : c.isDigit = true := hc
    simp [Text.isWordChar, Char.isAlphanum, this])
  have hcut : cut c (u ++ z :: rest) = (.illegal, u ++ [z], rest) := by
    rw [cut_digit hgap (beginsWord_of_isDigit hc) hc, throughNumber_illegal hz hdigit he hu hrest]
  rw [tokensFrom_token (by simp [hcut]), hcut]

end Last

end WordChars

/-! ## Names -/

/-- The text may stand for a table as it is: an ASCII letter or an underscore, then letters, digits and underscores. Names
that begin with `sqlite_`, in whatever case, belong to the database. -/
structure LegalName (name : Text) : Prop where
  begins : ∃ c, name.head? = some c ∧ (c.isAlpha = true ∨ c = '_')
  word : ∀ c ∈ name, Text.isWordChar c = true
  free : ¬Text.of "sqlite_" <+: Text.lowerAscii name

/-- A run is a legal name if it begins with no digit and is not kept for the database. -/
theorem legalName_iff {name : Text} (hne : name ≠ []) (hword : ∀ c ∈ name, Text.isWordChar c = true) :
    LegalName name ↔ (∀ c ∈ name.head?, Text.isDigit c = false) ∧ Clause.isReservedName name = false := by
  have hreserved : Clause.isReservedName name = false ↔ ¬Text.of "sqlite_" <+: Text.lowerAscii name := by
    rw [Clause.isReservedName, ← Bool.not_eq_true, List.isPrefixOf_iff_prefix]
  rw [hreserved]
  constructor
  · rintro ⟨⟨c, hc, hbegins⟩, _, hfree⟩
    refine ⟨fun d hd => ?_, hfree⟩
    obtain rfl : c = d := Option.some.inj (hc.symm.trans hd)
    have hbegins : beginsWord c = true := by simpa [beginsWord] using .inl hbegins
    cases hdigit : Text.isDigit c with
    | false => rfl
    | true => exact absurd hbegins (by simp [beginsWord_of_isDigit hdigit])
  · rintro ⟨hdigit, hfree⟩
    have hhead := List.head?_eq_some_head hne
    refine ⟨⟨_, hhead, ?_⟩, hword, hfree⟩
    have hc := hword _ (List.head_mem hne)
    have hc' : (name.head hne).isDigit = false := hdigit _ hhead
    simpa [Text.isWordChar, Char.isAlphanum, hc'] using hc

end Sql

end BatchMigrate
