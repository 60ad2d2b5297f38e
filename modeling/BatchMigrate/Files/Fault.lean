import BatchMigrate.Text.Utf8

/-!
# Faults of reading

Why a file, a folder or a stream of bytes cannot be read or written.
-/

namespace BatchMigrate

/-- Why a file, a folder or a stream cannot be read or written. -/
inductive ReadFault
  /-- Nothing has that path. -/
  | notFound
  /-- Something on the way, or the thing itself, is a file where a folder is needed. -/
  | notFolder
  /-- The thing is a folder where a file is needed. -/
  | isFolder
  /-- A file that is read as text does not hold text. -/
  | notText
  /-- Bytes that have been read already are not text. -/
  | badBytes (fault : Utf8Fault)
  deriving DecidableEq, Repr

/-- The fault in words. -/
def ReadFault.message : ReadFault → String
  | .notFound => "No such file or directory (os error 2)"
  | .notFolder => "Not a directory (os error 20)"
  | .isFolder => "Is a directory (os error 21)"
  | .notText => "stream did not contain valid UTF-8"
  | .badBytes fault => fault.message

end BatchMigrate
