import BatchMigrate.Text.Decimal
import BatchMigrate.Text.Space

/-!
# Digits and numbers

A text writes a number within a limit if it is a run of digits with that value (`Text.decimal?_eq_some`). The digits of a
number write it (`Text.decimal?_ofNat`), and zeros in front of digits make no difference.
-/

namespace BatchMigrate.Text

theorem decimal?_eq_some {limit value : Nat} {digits : Text} : decimal? limit digits = some value ↔
    digits ≠ [] ∧ (∀ c ∈ digits, isDigit c = true) ∧ decimalValue digits = value ∧ value ≤ limit := by
  rw [decimal?, Option.filter_eq_some_iff, natural?, Option.ite_none_right_eq_some, List.all_eq_true, Option.some_inj,
    decide_eq_true_iff, and_assoc, and_assoc]

theorem decimalValue_zeros (k : Nat) (digits : Text) :
    decimalValue (List.replicate k '0' ++ digits) = decimalValue digits := by
  induction k with
  | zero => rfl
  | succ k ih => exact ih

theorem toNat_of_isDigit {c : Char} (h : isDigit c = true) : 48 ≤ c.toNat ∧ c.toNat ≤ 57 := by
  have hrange : '0'.toNat ≤ c.toNat ∧ c.toNat ≤ '9'.toNat := by
    simpa [isDigit, Char.le_def, UInt32.le_iff_toNat_le] using h
  exact hrange

/-- Digits are no white space. -/
theorem isSpace_of_isDigit {c : Char} (h : isDigit c = true) : isSpace c = false := by
  have hrange := toNat_of_isDigit h
  rw [← Bool.not_eq_true]
  intro hspace
  simp only [isSpace, spaceRanges, List.any_cons, List.any_nil, Bool.or_eq_true, Bool.and_eq_true, decide_eq_true_eq,
    Bool.false_eq_true, or_false] at hspace
  omega

theorem isDigit_of_mem_ofNat {n : Nat} {c : Char} (h : c ∈ ofNat n) : isDigit c = true :=
  Nat.isDigit_of_mem_toDigits (by decide) (by decide) h

/-- The digits of a number write it. -/
theorem decimal?_ofNat {limit n : Nat} (h : n ≤ limit) : decimal? limit (ofNat n) = some n :=
  decimal?_eq_some.2 ⟨Nat.toDigits_ne_nil, fun _ => isDigit_of_mem_ofNat, Nat.ofDigitChars_ten_toDigits, h⟩

end BatchMigrate.Text
