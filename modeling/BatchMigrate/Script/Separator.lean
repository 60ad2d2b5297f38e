import BatchMigrate.Script.Fault
import BatchMigrate.Text.CaseFold
import BatchMigrate.Text.Decimal
import BatchMigrate.Text.Space

/-!
# Separator lines

A script is cut at the lines that consist of the separator keyword and an optional repeat count, such as `GO` or
`go 5`. `Separator.recognize` decides it for the text of one line. The keyword is compared but for case, and the count
has to fit into 32 bits: a line with a larger number is ordinary text.
-/

namespace BatchMigrate

/-! ## Directives -/

/-- What a separator line asks for. -/
structure Directive where
  /-- The keyword as the script spells it and, after one blank, the digits of the count. -/
  token : Text
  count : Option Nat
  deriving DecidableEq, Repr

/-- How often the batch before the directive runs. -/
def Directive.repeatCount (d : Directive) : Nat := d.count.getD 1

/-- The largest repeat count. -/
def maxRepeat : Nat := 0xFFFFFFFF

/-! ## Separators -/

/-- A keyword that can separate batches: a word without white space. -/
structure Separator where
  keyword : Text
  nonempty : keyword ≠ []
  noSpace : keyword.any Text.isSpace = false
  deriving DecidableEq

namespace Separator

/-- The separator with the given keyword. -/
def ofKeyword (keyword : Text) : Except SplitFault Separator :=
  if h : keyword ≠ [] ∧ keyword.any Text.isSpace = false then .ok ⟨keyword, h.1, h.2⟩
  else .error (.invalidSeparator keyword)

/-- The separator of scripts that name none. -/
def go : Separator := ⟨['G', 'O'], by decide, by decide⟩

/-- What follows the keyword on a separator line: nothing, or white space and a count. -/
def directive? (keyword rest : Text) : Option Directive :=
  match rest with
  | [] => some ⟨keyword, none⟩
  | c :: _ =>
    if Text.isSpace c then
      let digits := rest.dropWhile Text.isSpace
      (Text.decimal? maxRepeat digits).map fun n => ⟨keyword ++ ' ' :: digits, some n⟩
    else none

/-- The directive that `line` is, if it holds nothing but the keyword and an optional count. -/
def recognize (s : Separator) (line : Text) : Option Directive :=
  match Text.cutWord s.keyword (Text.trim line) with
  | some (keyword, rest) => directive? keyword rest
  | none => none

end Separator

end BatchMigrate
