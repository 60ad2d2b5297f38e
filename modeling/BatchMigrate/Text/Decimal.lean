import BatchMigrate.Text.Basic

/-!
# Decimal numbers

Runs of ASCII digits and the numbers they write. Leading zeros are allowed everywhere.
-/

namespace BatchMigrate.Text

/-- One of the digits `0` to `9`. -/
def isDigit (c : Char) : Bool := '0' ≤ c && c ≤ '9'

/-- The value of a digit. -/
def digitValue (c : Char) : Nat := c.toNat - '0'.toNat

/-- The number that a run of digits writes. -/
def decimalValue (digits : Text) : Nat := digits.foldl (fun n c => 10 * n + digitValue c) 0

/-- The number that a run of one or more digits writes. -/
def natural? (t : Text) : Option Nat := if t ≠ [] ∧ t.all isDigit then some (decimalValue t) else none

/-- The number that a text writes, if it is a run of one or more digits and the number is at most `limit`. -/
def decimal? (limit : Nat) (t : Text) : Option Nat := (natural? t).filter (· ≤ limit)

/-- The number that a text writes after an optional sign. -/
def integer? : Text → Option Int
  | '-' :: digits => (natural? digits).map fun n => -(n : Int)
  | '+' :: digits => (natural? digits).map fun n => (n : Int)
  | digits => (natural? digits).map fun n => (n : Int)

/-- The number that a text writes after an optional sign, if it fits into 64 bits with sign. -/
def int64? (t : Text) : Option Int :=
  (integer? t).filter fun n => -0x8000000000000000 ≤ n && n ≤ 0x7FFFFFFFFFFFFFFF

/-- The digits of a natural number. -/
def ofNat (n : Nat) : Text := Nat.toDigits 10 n

/-- The digits of an integer, after a `-` if it is negative. -/
def ofInt (n : Int) : Text := if n < 0 then '-' :: ofNat n.natAbs else ofNat n.natAbs

end BatchMigrate.Text
