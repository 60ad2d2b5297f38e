import BatchMigrate.Text.CaseFold
import BatchMigrate.Text.Space

/-!
# Words but for case

A text begins with a word if its first characters fold to those of the word, one by one (`Text.cutWord_eq_some`). White
space folds to itself and nothing else folds to it (`Text.isSpace_foldCase`), so a word without white space is not found
in white space. Nor have digits and most punctuation other cases (`Text.caseless_of_lt`).
-/

namespace BatchMigrate.Text

/-! ## White space -/

/-- No folding begins or ends at white space. -/
theorem foldRanges_apart : ∀ r ∈ foldRanges, ∀ range ∈ spaceRanges, (r.last < range.1 ∨ range.2 < r.first) ∧
    ((r.last : Int) + r.delta < range.1 ∨ (range.2 : Int) < r.first + r.delta) := by
  decide +kernel

theorem isSpace_eq_false {c : Char} :
    isSpace c = false ↔ ∀ range ∈ spaceRanges, c.toNat < range.1 ∨ range.2 < c.toNat := by
  simp only [isSpace, List.any_eq_false, Bool.and_eq_true, decide_eq_true_eq, Decidable.not_and_iff_or_not, Nat.not_le]

theorem toNat_ofNat_cases (n : Nat) : (Char.ofNat n).toNat = n ∨ (Char.ofNat n).toNat = 0 := by
  by_cases h : n.isValidChar
  · rw [Char.ofNat, dif_pos h]
    exact .inl rfl
  · rw [Char.ofNat, dif_neg h]
    exact .inr rfl

/-- **White space has no case.** -/
theorem isSpace_foldCase (c : Char) : isSpace (foldCase c) = isSpace c := by
  unfold foldCase
  split
  · rename_i r hr
    have hmem := List.mem_of_find?_eq_some hr
    have hholds := List.find?_some hr
    simp only [FoldRange.holds, Bool.and_eq_true, decide_eq_true_eq] at hholds
    have hzero : ∀ range ∈ spaceRanges, 0 < range.1 := by decide
    have hc : isSpace c = false := isSpace_eq_false.2 fun range hrange => by
      have := (foldRanges_apart r hmem range hrange).1
      omega
    have hfold : isSpace (Char.ofNat (c.toNat + r.delta).toNat) = false := isSpace_eq_false.2 fun range hrange => by
      have := (foldRanges_apart r hmem range hrange).2
      have := hzero range hrange
      rcases toNat_ofNat_cases (c.toNat + r.delta).toNat with h | h <;> omega
    rw [hc, hfold]
  · rfl

/-! ## Words -/

/-- The text is the word but for case, character by character. -/
def SameWord (word t : Text) : Prop := word.map foldCase = t.map foldCase

instance (word t : Text) : Decidable (SameWord word t) := inferInstanceAs (Decidable (_ = _))

/-- A word without white space is no text with white space. -/
theorem SameWord.isSpace {word t : Text} (h : SameWord word t) (hw : ∀ c ∈ word, Text.isSpace c = false) :
    ∀ c ∈ t, Text.isSpace c = false := by
  intro c hc
  have hmem : foldCase c ∈ word.map foldCase := by
    rw [h]
    exact List.mem_map_of_mem hc
  obtain ⟨w, hwmem, hfold⟩ := List.mem_map.1 hmem
  rw [← isSpace_foldCase, ← hfold, isSpace_foldCase, hw w hwmem]

/-- **A text begins with a word** if its first characters are the word but for case. -/
theorem cutWord_eq_some {word t cut rest : Text} :
    cutWord word t = some (cut, rest) ↔ SameWord word cut ∧ t = cut ++ rest := by
  fun_induction cutWord word t generalizing cut with
  | case1 t =>
    constructor
    · intro h
      cases h
      exact ⟨rfl, rfl⟩
    · rintro ⟨hsame, rfl⟩
      rw [List.map_eq_nil_iff.1 hsame.symm]
      rfl
  | case2 w word =>
    refine ⟨fun h => (by cases h), fun ⟨hsame, h⟩ => ?_⟩
    rw [(List.append_eq_nil_iff.1 h.symm).1] at hsame
    cases hsame
  | case3 w word c t hc ih =>
    rw [Option.map_eq_some_iff]
    constructor
    · rintro ⟨⟨cut, rest⟩, hcut, he⟩
      cases he
      obtain ⟨hsame, rfl⟩ := ih.1 hcut
      exact ⟨List.cons_eq_cons.2 ⟨beq_iff_eq.1 hc, hsame⟩, rfl⟩
    · rintro ⟨hsame, h⟩
      cases cut with
      | nil => cases hsame
      | cons d cut =>
        obtain ⟨rfl, rfl⟩ := List.cons_eq_cons.1 h
        exact ⟨(cut, rest), ih.2 ⟨(List.cons_eq_cons.1 hsame).2, rfl⟩, rfl⟩
  | case4 w word c t hc =>
    refine ⟨fun h => (by cases h), fun ⟨hsame, h⟩ => ?_⟩
    cases cut with
    | nil => cases hsame
    | cons d cut =>
      obtain ⟨rfl, -⟩ := List.cons_eq_cons.1 h
      exact absurd (beq_iff_eq.2 (List.cons_eq_cons.1 hsame).1) hc

/-- A word is cut off the start of a text. -/
theorem eq_append_of_cutWord {word t cut rest : Text} (h : cutWord word t = some (cut, rest)) : t = cut ++ rest :=
  (cutWord_eq_some.1 h).2

/-- A word is cut off whatever follows it. -/
theorem cutWord_append {word t cut rest : Text} (h : cutWord word t = some (cut, rest)) (more : Text) :
    cutWord word (cut ++ more) = some (cut, more) :=
  cutWord_eq_some.2 ⟨(cutWord_eq_some.1 h).1, rfl⟩

/-- A text begins with itself as a word. -/
theorem cutWord_self (word rest : Text) : cutWord word (word ++ rest) = some (word, rest) :=
  cutWord_eq_some.2 ⟨rfl, rfl⟩

theorem SameWord.ne_nil {word t : Text} (h : SameWord word t) (hw : word ≠ []) : t ≠ [] := by
  rintro rfl
  exact hw (List.map_eq_nil_iff.1 h)

theorem cut_ne_nil {word t cut rest : Text} (h : cutWord word t = some (cut, rest)) (hw : word ≠ []) : cut ≠ [] :=
  (cutWord_eq_some.1 h).1.ne_nil hw

/-! ## Characters without case -/

/-- No other character is the same but for case. -/
def Caseless (c : Char) : Prop := ∀ d, foldCase d = foldCase c → d = c

/-- No folding begins or ends before the first letter. -/
theorem foldRanges_letters : ∀ r ∈ foldRanges, 0x41 ≤ r.first ∧ 0x41 ≤ (r.first : Int) + r.delta := by
  decide +kernel

/-- Digits and the punctuation before the letters have no case. -/
theorem caseless_of_lt {c : Char} (hpos : 0 < c.toNat) (hlt : c.toNat < 0x41) : Caseless c := by
  have hletter : ∀ {d : Char} {r : FoldRange}, foldRanges.find? (·.holds d.toNat) = some r →
      0x41 ≤ d.toNat ∧ 0x41 ≤ (d.toNat + r.delta).toNat := by
    intro d r hr
    have hletters := foldRanges_letters r (List.mem_of_find?_eq_some hr)
    have hholds := List.find?_some hr
    simp only [FoldRange.holds, Bool.and_eq_true, decide_eq_true_eq] at hholds
    omega
  have hself : foldCase c = c := by
    unfold foldCase
    split
    · rename_i r hr
      have := (hletter hr).1
      omega
    · rfl
  intro d h
  rw [hself] at h
  unfold foldCase at h
  split at h
  · rename_i r hr
    have hn := (hletter hr).2
    have htoNat := congrArg Char.toNat h
    rcases toNat_ofNat_cases (d.toNat + r.delta).toNat with hofNat | hofNat <;> omega
  · exact h

/-- Two such characters in a row are found in the word if they are in the text. -/
theorem SameWord.infix {word t : Text} (h : SameWord word t) {a b : Char} (ha : Caseless a) (hb : Caseless b)
    (hi : [a, b] <:+: t) : [a, b] <:+: word := by
  obtain ⟨before, after, rfl⟩ := hi
  unfold SameWord at h
  rw [List.map_append, List.map_append] at h
  obtain ⟨first, last, rfl, hfirst, -⟩ := List.map_eq_append_iff.1 h
  obtain ⟨start, pair, rfl, -, hpair⟩ := List.map_eq_append_iff.1 hfirst
  obtain ⟨a', rest, rfl, ha', hrest⟩ := List.map_eq_cons_iff.1 hpair
  obtain ⟨b', rest', rfl, hb', hnil⟩ := List.map_eq_cons_iff.1 hrest
  obtain rfl := List.map_eq_nil_iff.1 hnil
  rw [ha a' ha', hb b' hb']
  exact ⟨start, last, rfl⟩

/-! ## ASCII letters -/

theorem eqIgnoringAsciiCase_iff {s t : Text} : s.eqIgnoringAsciiCase t = true ↔ s.lowerAscii = t.lowerAscii := by
  simp only [eqIgnoringAsciiCase, beq_iff_eq]

end BatchMigrate.Text
