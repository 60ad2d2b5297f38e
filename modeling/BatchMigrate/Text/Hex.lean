import BatchMigrate.Text.Basic

/-!
# Hexadecimal numbers

Numbers with a fixed count of hexadecimal digits, as checksums and escapes need them.
-/

namespace BatchMigrate.Text

/-- The `count` lowest hexadecimal digits of a number, the highest first, in small letters. -/
def hexDigits : Nat → Nat → Text
  | 0, _ => []
  | count + 1, n => hexDigits count (n / 16) ++ [Nat.digitChar (n % 16)]

end BatchMigrate.Text
