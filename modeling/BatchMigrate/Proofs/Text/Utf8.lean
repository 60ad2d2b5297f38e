import BatchMigrate.Proofs.Faults
import BatchMigrate.Text.Utf8

/-!
# Bytes and text

Decoding gives a text exactly for the bytes that encode it (`Text.ofUtf8_eq_ok`), so bytes are refused only if no text has
them. The bytes of one character have one of four shapes: the character that such bytes decode to is encoded by them
(`Text.utf8EncodeChar_one` to `Text.utf8EncodeChar_four`), and each character is decoded from bytes of some shape
(`Text.exists_shape`).
-/

namespace BatchMigrate.Text

/-! ## Ranges of bytes -/

section Ranges

variable {a b : UInt8}

theorem isContinuation_iff : isContinuation b = true ↔ 0x80 ≤ b.toNat ∧ b.toNat ≤ 0xBF := by
  simp [isContinuation, UInt8.le_iff_toNat_le]

theorem maySecond_iff : maySecond a b = true ↔ (0x80 ≤ b.toNat ∧ b.toNat ≤ 0xBF) ∧
    (a.toNat = 0xE0 → 0xA0 ≤ b.toNat) ∧ (a.toNat = 0xED → b.toNat ≤ 0x9F) ∧
    (a.toNat = 0xF0 → 0x90 ≤ b.toNat) ∧ (a.toNat = 0xF4 → b.toNat ≤ 0x8F) := by
  simp only [maySecond, Bool.and_eq_true, isContinuation_iff, Bool.or_eq_true, bne_iff_ne, ne_eq, decide_eq_true_eq,
    UInt8.le_iff_toNat_le, ← UInt8.toNat_inj]
  simp only [UInt8.toNat_ofNat]
  omega

theorem continuations_eq_zero : continuations a = some 0 ↔ a.toNat ≤ 0x7F := by
  simp only [continuations, UInt8.le_iff_toNat_le, Bool.and_eq_true, decide_eq_true_eq]
  grind

theorem continuations_eq_one : continuations a = some 1 ↔ 0xC2 ≤ a.toNat ∧ a.toNat ≤ 0xDF := by
  simp only [continuations, UInt8.le_iff_toNat_le, Bool.and_eq_true, decide_eq_true_eq]
  grind

theorem continuations_eq_two : continuations a = some 2 ↔ 0xE0 ≤ a.toNat ∧ a.toNat ≤ 0xEF := by
  simp only [continuations, UInt8.le_iff_toNat_le, Bool.and_eq_true, decide_eq_true_eq]
  grind

theorem continuations_eq_three : continuations a = some 3 ↔ 0xF0 ≤ a.toNat ∧ a.toNat ≤ 0xF4 := by
  simp only [continuations, UInt8.le_iff_toNat_le, Bool.and_eq_true, decide_eq_true_eq]
  grind

theorem continuations_le {n : Nat} (h : continuations a = some n) : n ≤ 3 := by
  unfold continuations at h
  grind

end Ranges

/-! ## One character -/

theorem toNat_ofNat {n : Nat} (h : n.isValidChar) : (Char.ofNat n).val.toNat = n := by
  rw [Char.ofNat, dif_pos h]
  rfl

theorem ofNat_eq {n : Nat} {a : UInt8} (h : n = a.toNat) : UInt8.ofNat n = a := by
  rw [h, UInt8.ofNat_toNat]

section Shapes

variable {a b c d : UInt8}

theorem utf8EncodeChar_one (ha : continuations a = some 0) : String.utf8EncodeChar (Char.ofNat a.toNat) = [a] := by
  have ha := continuations_eq_zero.1 ha
  have hn := toNat_ofNat (n := a.toNat) (by omega)
  rw [String.utf8EncodeChar, hn, if_pos ha, UInt8.ofNat_toNat]

theorem utf8EncodeChar_two (ha : continuations a = some 1) (hb : maySecond a b = true) :
    String.utf8EncodeChar (Char.ofNat (a.toNat % 32 * 64 + payload b)) = [a, b] := by
  have ha := continuations_eq_one.1 ha
  have hb := (maySecond_iff.1 hb).1
  have hv : a.toNat % 32 * 64 + payload b = (a.toNat - 0xC0) * 64 + (b.toNat - 0x80) := by
    unfold payload
    omega
  have hn := toNat_ofNat (n := (a.toNat - 0xC0) * 64 + (b.toNat - 0x80)) (by omega)
  rw [hv, String.utf8EncodeChar, hn, if_neg (by omega), if_pos (by omega)]
  simp only [List.cons.injEq, and_true]
  exact ⟨ofNat_eq (by omega), ofNat_eq (by omega)⟩

theorem utf8EncodeChar_three (ha : continuations a = some 2) (hb : maySecond a b = true)
    (hc : isContinuation c = true) :
    String.utf8EncodeChar (Char.ofNat ((a.toNat % 16 * 64 + payload b) * 64 + payload c)) = [a, b, c] := by
  have ha := continuations_eq_two.1 ha
  have hb := maySecond_iff.1 hb
  have hc := isContinuation_iff.1 hc
  have hv : (a.toNat % 16 * 64 + payload b) * 64 + payload c =
      (a.toNat - 0xE0) * 4096 + (b.toNat - 0x80) * 64 + (c.toNat - 0x80) := by
    unfold payload
    omega
  have hn := toNat_ofNat (n := (a.toNat - 0xE0) * 4096 + (b.toNat - 0x80) * 64 + (c.toNat - 0x80)) (by omega)
  rw [hv, String.utf8EncodeChar, hn, if_neg (by omega), if_neg (by omega), if_pos (by omega)]
  simp only [List.cons.injEq, and_true]
  exact ⟨ofNat_eq (by omega), ofNat_eq (by omega), ofNat_eq (by omega)⟩

theorem utf8EncodeChar_four (ha : continuations a = some 3) (hb : maySecond a b = true)
    (hc : isContinuation c = true) (hd : isContinuation d = true) :
    String.utf8EncodeChar (Char.ofNat (((a.toNat % 8 * 64 + payload b) * 64 + payload c) * 64 + payload d)) =
      [a, b, c, d] := by
  have ha := continuations_eq_three.1 ha
  have hb := maySecond_iff.1 hb
  have hc := isContinuation_iff.1 hc
  have hd := isContinuation_iff.1 hd
  have hv : ((a.toNat % 8 * 64 + payload b) * 64 + payload c) * 64 + payload d =
      (a.toNat - 0xF0) * 262144 + (b.toNat - 0x80) * 4096 + (c.toNat - 0x80) * 64 + (d.toNat - 0x80) := by
    unfold payload
    omega
  have hn := toNat_ofNat
    (n := (a.toNat - 0xF0) * 262144 + (b.toNat - 0x80) * 4096 + (c.toNat - 0x80) * 64 + (d.toNat - 0x80)) (by omega)
  rw [hv, String.utf8EncodeChar, hn, if_neg (by omega), if_neg (by omega), if_neg (by omega)]
  simp only [List.cons.injEq, and_true]
  exact ⟨ofNat_eq (by omega), ofNat_eq (by omega), ofNat_eq (by omega), ofNat_eq (by omega)⟩

end Shapes

/-- Each character is the one that bytes of one of four shapes decode to, by the range that its number lies in. -/
theorem exists_shape (c : Char) :
    (∃ a, continuations a = some 0 ∧ Char.ofNat a.toNat = c) ∨
    (∃ a b, continuations a = some 1 ∧ maySecond a b = true ∧ Char.ofNat (a.toNat % 32 * 64 + payload b) = c) ∨
    (∃ a b d, continuations a = some 2 ∧ maySecond a b = true ∧ isContinuation d = true ∧
      Char.ofNat ((a.toNat % 16 * 64 + payload b) * 64 + payload d) = c) ∨
    (∃ a b d e, continuations a = some 3 ∧ maySecond a b = true ∧ isContinuation d = true ∧ isContinuation e = true ∧
      Char.ofNat (((a.toNat % 8 * 64 + payload b) * 64 + payload d) * 64 + payload e) = c) := by
  have hvalid : c.toNat.isValidChar := c.valid
  have hchar : ∀ {n}, n = c.toNat → Char.ofNat n = c := fun hn => by rw [hn, Char.ofNat_toNat]
  have hbyte : ∀ n, n < 256 → ∃ a : UInt8, a.toNat = n := fun n hn =>
    ⟨UInt8.ofNat n, by rw [UInt8.toNat_ofNat', Nat.mod_eq_of_lt hn]⟩
  have hlast : ∀ n, ∃ a : UInt8, a.toNat = 0x80 + n % 64 := fun n => hbyte _ (by omega)
  obtain ⟨e, he⟩ := hlast c.toNat
  obtain ⟨d, hd⟩ := hlast (c.toNat / 64)
  obtain ⟨b, hb⟩ := hlast (c.toNat / 4096)
  simp only [continuations_eq_zero, continuations_eq_one, continuations_eq_two, continuations_eq_three, maySecond_iff,
    isContinuation_iff, payload]
  by_cases h₁ : c.toNat ≤ 0x7F
  · obtain ⟨a, ha⟩ := hbyte c.toNat (by omega)
    exact Or.inl ⟨a, by omega, hchar ha⟩
  by_cases h₂ : c.toNat ≤ 0x7FF
  · obtain ⟨a, ha⟩ := hbyte (0xC0 + c.toNat / 64) (by omega)
    exact Or.inr (Or.inl ⟨a, e, by omega, by omega, hchar (by omega)⟩)
  by_cases h₃ : c.toNat ≤ 0xFFFF
  · obtain ⟨a, ha⟩ := hbyte (0xE0 + c.toNat / 4096) (by omega)
    exact Or.inr (Or.inr (Or.inl ⟨a, d, e, by omega, by omega, by omega, hchar (by omega)⟩))
  · obtain ⟨a, ha⟩ := hbyte (0xF0 + c.toNat / 262144) (by omega)
    exact Or.inr (Or.inr (Or.inr ⟨a, b, d, e, by omega, by omega, by omega, by omega, hchar (by omega)⟩))

/-- A character begins with a byte that continues none, and goes on with bytes that do. -/
theorem exists_utf8EncodeChar_eq_cons (c : Char) : ∃ first more, String.utf8EncodeChar c = first :: more ∧
    isContinuation first = false ∧ ∀ b ∈ more, isContinuation b = true := by
  have hfirst : ∀ {a : UInt8}, a.toNat ≤ 0x7F ∨ 0xC2 ≤ a.toNat → isContinuation a = false := by
    intro a h
    rw [← Bool.not_eq_true, isContinuation_iff]
    omega
  have hsecond : ∀ {a b : UInt8}, maySecond a b = true → isContinuation b = true := fun h =>
    isContinuation_iff.2 (maySecond_iff.1 h).1
  rcases exists_shape c with ⟨a, ha, rfl⟩ | ⟨a, b, ha, hb, rfl⟩ | ⟨a, b, d, ha, hb, hd, rfl⟩ |
    ⟨a, b, d, e, ha, hb, hd, he, rfl⟩
  · exact ⟨a, [], utf8EncodeChar_one ha, hfirst (Or.inl (continuations_eq_zero.1 ha)), by simp⟩
  · exact ⟨a, [b], utf8EncodeChar_two ha hb, hfirst (Or.inr (continuations_eq_one.1 ha).1), by simp [hsecond hb]⟩
  · have ha' := continuations_eq_two.1 ha
    exact ⟨a, [b, d], utf8EncodeChar_three ha hb hd, hfirst (by omega), by simp [hsecond hb, hd]⟩
  · have ha' := continuations_eq_three.1 ha
    exact ⟨a, [b, d, e], utf8EncodeChar_four ha hb hd he, hfirst (by omega), by simp [hsecond hb, hd, he]⟩

/-! ## Texts -/

theorem utf8_cons (c : Char) (t : Text) : utf8 (c :: t) = String.utf8EncodeChar c ++ utf8 t := List.flatMap_cons

theorem utf8_append (s t : Text) : utf8 (s ++ t) = utf8 s ++ utf8 t := List.flatMap_append

theorem utf8_singleton (c : Char) : utf8 [c] = String.utf8EncodeChar c := List.flatMap_singleton ..

/-- The bytes of a character decode to it, whatever follows them. -/
theorem ofUtf8From_utf8EncodeChar (n : Nat) (c : Char) (r : List UInt8) :
    ofUtf8From n (String.utf8EncodeChar c ++ r) =
      (ofUtf8From (n + (String.utf8EncodeChar c).length) r).map (c :: ·) := by
  rcases exists_shape c with ⟨a, ha, rfl⟩ | ⟨a, b, ha, hb, rfl⟩ | ⟨a, b, d, ha, hb, hd, rfl⟩ |
    ⟨a, b, d, e, ha, hb, hd, he, rfl⟩
  · rw [utf8EncodeChar_one ha]
    conv => lhs; unfold ofUtf8From
    simp only [List.cons_append, List.nil_append, ha, List.length_cons, List.length_nil]
  · rw [utf8EncodeChar_two ha hb]
    conv => lhs; unfold ofUtf8From
    simp only [List.cons_append, List.nil_append, ha, hb, if_true, List.length_cons, List.length_nil]
  · rw [utf8EncodeChar_three ha hb hd]
    conv => lhs; unfold ofUtf8From
    simp only [List.cons_append, List.nil_append, ha, hb, hd, if_true, List.length_cons, List.length_nil]
  · rw [utf8EncodeChar_four ha hb hd he]
    conv => lhs; unfold ofUtf8From
    simp only [List.cons_append, List.nil_append, ha, hb, hd, he, if_true, List.length_cons, List.length_nil]

theorem ofUtf8From_utf8 : ∀ (t : Text) (n : Nat), ofUtf8From n t.utf8 = .ok t
  | [], _ => rfl
  | c :: t, n => by
    rw [utf8_cons, ofUtf8From_utf8EncodeChar, ofUtf8From_utf8 t]
    rfl

/-- The bytes of a character begin with those of no other one. -/
theorem eq_of_utf8EncodeChar_isPrefix {c d : Char} (h : String.utf8EncodeChar c <+: String.utf8EncodeChar d) : c = d := by
  obtain ⟨more, hmore⟩ := h
  have hd := ofUtf8From_utf8 [d] 0
  rw [utf8_singleton, ← hmore, ofUtf8From_utf8EncodeChar] at hd
  obtain ⟨t, _, ht⟩ := exists_of_map_eq_ok hd
  exact (List.cons.inj ht).1

/-- Bytes that decode are those of the text. -/
theorem utf8_of_ofUtf8From {n : Nat} {bytes : List UInt8} {t : Text} (h : ofUtf8From n bytes = .ok t) :
    t.utf8 = bytes := by
  fun_induction ofUtf8From n bytes generalizing t with
  | case1 n =>
    cases h
    rfl
  | case3 n a r ha ih =>
    obtain ⟨t, ht, rfl⟩ := exists_of_map_eq_ok h
    rw [utf8_cons, utf8EncodeChar_one ha, ih ht, List.singleton_append]
  | case5 n a b r ha hb ih =>
    obtain ⟨t, ht, rfl⟩ := exists_of_map_eq_ok h
    rw [utf8_cons, utf8EncodeChar_two ha hb, ih ht]
    rfl
  | case8 n a b ha hb c r hc ih =>
    obtain ⟨t, ht, rfl⟩ := exists_of_map_eq_ok h
    rw [utf8_cons, utf8EncodeChar_three ha hb hc, ih ht]
    rfl
  | case13 n a k b h₀ h₁ h₂ ha hb c hc d r hd ih =>
    obtain ⟨t, ht, rfl⟩ := exists_of_map_eq_ok h
    have hk : k = 3 := by
      have hle := continuations_le ha
      grind
    rw [utf8_cons, utf8EncodeChar_four (hk ▸ ha) hb hc hd, ih ht]
    rfl
  | _ => cases h

/-- **Decoding** gives a text exactly for the bytes that encode it. -/
theorem ofUtf8_eq_ok {bytes : List UInt8} {t : Text} : ofUtf8 bytes = .ok t ↔ t.utf8 = bytes :=
  ⟨utf8_of_ofUtf8From, fun h => h ▸ ofUtf8From_utf8 t 0⟩

end BatchMigrate.Text
