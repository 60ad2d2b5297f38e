import BatchMigrate.Text.Basic

/-!
# UTF-8

Bytes as text and back. A text that cannot be decoded is refused with the place and the length of its first bad
sequence, where a sequence that the end of the bytes cuts short is told from one that no continuation could mend.
-/

namespace BatchMigrate

/-- The first place where bytes are not UTF-8. -/
structure Utf8Fault where
  /-- The number of bytes before the bad sequence. -/
  validUpTo : Nat
  /-- The length of the bad sequence, or none if the bytes end inside it. -/
  badBytes : Option Nat
  deriving DecidableEq, Repr

/-- The fault in words. -/
def Utf8Fault.message (f : Utf8Fault) : String :=
  let at_ := f.validUpTo
  match f.badBytes with
  | some n => s!"invalid utf-8 sequence of {n} bytes from index {at_}"
  | none => s!"incomplete utf-8 byte sequence from index {at_}"

namespace Text

/-! ## Encoding -/

/-- The bytes of a text. -/
def utf8 (t : Text) : List UInt8 := t.flatMap String.utf8EncodeChar

/-! ## Decoding -/

/-- A byte that continues a character. -/
def isContinuation (b : UInt8) : Bool := 0x80 ≤ b && b ≤ 0xBF

/-- The number of continuation bytes that follow the first byte of a character, or none for a byte that begins none. -/
def continuations (b : UInt8) : Option Nat :=
  if b ≤ 0x7F then some 0
  else if 0xC2 ≤ b && b ≤ 0xDF then some 1
  else if 0xE0 ≤ b && b ≤ 0xEF then some 2
  else if 0xF0 ≤ b && b ≤ 0xF4 then some 3
  else none

/-- The second byte may follow the first: neither overlong forms, nor surrogates, nor numbers above `10FFFF`. -/
def maySecond (first second : UInt8) : Bool :=
  isContinuation second &&
    (first != 0xE0 || 0xA0 ≤ second) && (first != 0xED || second ≤ 0x9F) &&
    (first != 0xF0 || 0x90 ≤ second) && (first != 0xF4 || second ≤ 0x8F)

/-- The low six bits of a continuation byte. -/
def payload (b : UInt8) : Nat := b.toNat % 64

/-- Decodes bytes of which the first is number `at_` of the input. -/
def ofUtf8From (at_ : Nat) : List UInt8 → Except Utf8Fault Text
  | [] => .ok []
  | a :: r =>
    match continuations a, r with
    | none, _ => .error ⟨at_, some 1⟩
    | some 0, r => (ofUtf8From (at_ + 1) r).map (Char.ofNat a.toNat :: ·)
    | some _, [] => .error ⟨at_, none⟩
    | some 1, b :: r =>
      if maySecond a b then (ofUtf8From (at_ + 2) r).map (Char.ofNat (a.toNat % 32 * 64 + payload b) :: ·)
      else .error ⟨at_, some 1⟩
    | some 2, b :: r =>
      if maySecond a b then
        match r with
        | [] => .error ⟨at_, none⟩
        | c :: r =>
          if isContinuation c then
            (ofUtf8From (at_ + 3) r).map (Char.ofNat ((a.toNat % 16 * 64 + payload b) * 64 + payload c) :: ·)
          else .error ⟨at_, some 2⟩
      else .error ⟨at_, some 1⟩
    | some _, b :: r =>
      if maySecond a b then
        match r with
        | [] => .error ⟨at_, none⟩
        | c :: r =>
          if isContinuation c then
            match r with
            | [] => .error ⟨at_, none⟩
            | d :: r =>
              if isContinuation d then
                (ofUtf8From (at_ + 4) r).map
                  (Char.ofNat (((a.toNat % 8 * 64 + payload b) * 64 + payload c) * 64 + payload d) :: ·)
              else .error ⟨at_, some 3⟩
          else .error ⟨at_, some 2⟩
      else .error ⟨at_, some 1⟩

/-- The text that bytes encode, or the first place where they encode none. -/
def ofUtf8 (bytes : List UInt8) : Except Utf8Fault Text := ofUtf8From 0 bytes

end Text

end BatchMigrate
