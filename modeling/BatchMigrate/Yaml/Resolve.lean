import BatchMigrate.Text.Decimal

/-!
# What plain scalars mean

A plain scalar stands for null, for a truth value or for a number if it is spelled like one, and for its own text
otherwise. The writer quotes texts that would be taken for something else.
-/

namespace BatchMigrate.Yaml

/-- A spelling of null. -/
def isNull (t : Text) : Bool := ["null", "Null", "NULL", "~"].any (t = .of ·)

/-- The truth value that a text spells. -/
def bool? (t : Text) : Option Bool :=
  if ["true", "True", "TRUE"].any (t = .of ·) then some true
  else if ["false", "False", "FALSE"].any (t = .of ·) then some false
  else none

/-! ## Numbers -/

/-- The text without one sign of the given kind at its start. -/
def dropSign (sign : Char) (t : Text) : Text := if t.head? = some sign then t.tail else t

/-- The text begins with a sign. -/
def hasSign (t : Text) : Bool := t.head? = some '+' || t.head? = some '-'

/-- Two or more digits that begin with a zero, after an optional sign; such a text is no number. -/
def isPaddedDigits (t : Text) : Bool :=
  let digits := if hasSign t then t.tail else t
  1 < digits.length && digits.head? = some '0' && digits.all Text.isDigit

/-- The value of a digit in a base up to sixteen. -/
def digitIn? (base : Nat) (c : Char) : Option Nat :=
  let value :=
    if Text.isDigit c then Text.digitValue c
    else if 'a' ≤ c && c ≤ 'f' then c.toNat - 'a'.toNat + 10
    else if 'A' ≤ c && c ≤ 'F' then c.toNat - 'A'.toNat + 10
    else 16
  if value < base then some value else none

/-- The number that one or more digits write in a base. -/
def valueIn? (base : Nat) (t : Text) : Option Nat :=
  if t = [] then none
  else t.foldl (fun n c => match n, digitIn? base c with
    | some n, some d => some (base * n + d)
    | _, _ => none) (some 0)

/-- A number in base sixteen, eight or two that is at most `limit`. -/
def isBasedInteger (limit : Nat) (t : Text) : Bool :=
  match t with
  | '0' :: 'x' :: digits => (valueIn? 16 digits).any (· ≤ limit)
  | '0' :: 'o' :: digits => (valueIn? 8 digits).any (· ≤ limit)
  | '0' :: 'b' :: digits => (valueIn? 2 digits).any (· ≤ limit)
  | _ => false

/-- The largest integer of 128 bits. -/
def maxInteger : Nat := 0xFFFFFFFFFFFFFFFFFFFFFFFFFFFFFFFF

/-- The largest number that can stand after a minus sign. -/
def maxNegated : Nat := 0x80000000000000000000000000000000

/-- A spelling of an integer of at most 128 bits. -/
def isInteger (t : Text) : Bool :=
  let bare := dropSign '+' t
  match t with
  | '-' :: digits =>
    isBasedInteger maxNegated digits || (!isPaddedDigits t && (valueIn? 10 digits).any (· ≤ maxNegated))
  | _ =>
    isBasedInteger maxInteger bare || (!hasSign bare && !isPaddedDigits t && (valueIn? 10 bare).any (· ≤ maxInteger))

/-- The digits and the exponent of a decimal number: digits with at most one point among or beside them, and an optional
exponent with an optional sign. -/
def decimalParts? (t : Text) : Option (Text × Int) :=
  let whole := t.takeWhile Text.isDigit
  let rest := t.dropWhile Text.isDigit
  let (fraction, rest) := match rest with
    | '.' :: r => (r.takeWhile Text.isDigit, r.dropWhile Text.isDigit)
    | r => ([], r)
  if whole ++ fraction = [] then none
  else match rest with
    | [] => some (whole ++ fraction, -(fraction.length : Int))
    | e :: exponent =>
      let digits := if hasSign exponent then exponent.tail else exponent
      if (e = 'e' || e = 'E') && digits ≠ [] && digits.all Text.isDigit then
        let n : Int := Text.decimalValue digits
        some (whole ++ fraction, (if exponent.head? = some '-' then -n else n) - fraction.length)
      else none

/-- A decimal number `digits · 10 ^ exponent` rounds to a finite number of double precision. -/
def isFiniteDouble (digits : Text) (exponent : Int) : Bool :=
  let n := Text.decimalValue digits
  let size := (Text.ofNat n).length + exponent
  if n = 0 || size < 300 then true
  else if 320 < size then false
  else
    let limit := Nat.pow 2 1024 - Nat.pow 2 970
    if 0 ≤ exponent then n * Nat.pow 10 exponent.toNat < limit else n < limit * Nat.pow 10 exponent.natAbs

/-- A spelling of a number with a point or an exponent, of an infinity, or of no number at all. -/
def isFloat (t : Text) : Bool :=
  let bare := dropSign '+' t
  if bare ≠ t && hasSign bare then false
  else
    [".inf", ".Inf", ".INF"].any (bare = .of ·) ||
      ["-.inf", "-.Inf", "-.INF", ".nan", ".NaN", ".NAN"].any (t = .of ·) ||
      (decimalParts? (dropSign '-' bare)).any fun (digits, exponent) => isFiniteDouble digits exponent

/-- A text that a plain scalar cannot stand for, because it would be taken for null, for a truth value or for a number,
or because it looks like a number with zeros before it. -/
def looksTyped (t : Text) : Bool :=
  t = [] || isNull t || (bool? t).isSome || isInteger t || isPaddedDigits t || isFloat t

end BatchMigrate.Yaml
