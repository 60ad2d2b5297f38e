import BatchMigrate.Text.CaseFold
import BatchMigrate.Text.Space

/-!
# Tags

The tags of a script stand in its header, the run of blank lines and `--` comments at its top, on lines such as
`-- tags: production, eu`. There may be several such lines, between other comments.
-/

namespace BatchMigrate.Tags

/-- The lines of the header, trimmed. -/
def headerLines (script : Text) : List Text :=
  ((Text.splitOn '\n' script).map Text.trim).takeWhile fun line => line = [] || ['-', '-'].isPrefixOf line

/-- What follows the colon on a tags line. -/
def tagList? (line : Text) : Option Text :=
  match line with
  | '-' :: '-' :: rest =>
    match Text.cutWord ['t', 'a', 'g', 's'] (rest.dropWhile Text.isSpace) with
    | some (_, rest) =>
      match rest.dropWhile Text.isSpace with
      | ':' :: tags => some tags
      | _ => none
    | none => none
  | _ => none

/-- The tags in a list with commas: its pieces, trimmed, without the empty ones. -/
def ofList (tags : Text) : List Text := ((Text.splitOn ',' tags).map Text.trim).filter (· ≠ [])

/-- The tags of a script, in the order of its header. -/
def ofScript (script : Text) : List Text :=
  (headerLines script).flatMap fun line => ((tagList? line).map ofList).getD []

end BatchMigrate.Tags
