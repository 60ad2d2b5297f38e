import BatchMigrate.Files.Fault

/-!
# Faults of splitting

Only one fault lies in the structure of a script: a block comment that is never closed. The others are a source that
cannot be read and settings that no splitter can have.
-/

namespace BatchMigrate

/-- Why a script cannot be split into batches. -/
inductive SplitFault
  /-- The script ends inside the block comment that was opened on this line. -/
  | unterminatedComment (line : Nat)
  /-- A line cannot be read. -/
  | source (fault : ReadFault)
  /-- The separator is empty or holds white space. -/
  | invalidSeparator (keyword : Text)
  /-- The line terminator is empty. -/
  | invalidTerminator
  deriving DecidableEq, Repr

/-- The fault in words. -/
def SplitFault.message : SplitFault → String
  | .unterminatedComment line => s!"unterminated block comment starting on line {line}"
  | .source fault => "failed to read script: " ++ fault.message
  | .invalidSeparator keyword =>
    "invalid batch separator '" ++ keyword.str ++ "': must be a non-empty word without whitespace"
  | .invalidTerminator => "line terminator cannot be empty"

end BatchMigrate
