import BatchMigrate.Text.Utf8

/-!
# Slices

Text that is held as bytes is cut at places in the bytes. Not every place is between two characters: a slice that would
begin or end inside one does not exist.
-/

namespace BatchMigrate.Text

/-- A place in the bytes of a text where a character begins or the text ends. -/
def isBoundary (bytes : List UInt8) (place : Nat) : Bool :=
  match bytes[place]? with
  | some b => place = 0 || !isContinuation b
  | none => place = bytes.length

/-- The text of the bytes from one place up to another, if these are boundaries and in order. -/
def slice? (bytes : List UInt8) (first last : Nat) : Option Text :=
  if first ≤ last && isBoundary bytes first && isBoundary bytes last then
    (ofUtf8 ((bytes.take last).drop first)).toOption
  else none

end BatchMigrate.Text
