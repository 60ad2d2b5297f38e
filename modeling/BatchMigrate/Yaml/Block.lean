import BatchMigrate.Yaml.Char
import BatchMigrate.Text.Decimal

/-!
# Block scalars

A block scalar is introduced by `|` or `>` and holds the following lines that are indented deeply enough, without their
indentation. After `|` line breaks are themselves; after `>` a single one between two lines that begin with a word is a
blank. The line breaks at the end are kept, reduced to one, or dropped, as a sign in the header says.
-/

namespace BatchMigrate.Yaml

/-- What becomes of the line breaks at the end of a block scalar. -/
inductive Chomp
  | strip
  | clip
  | keep
  deriving DecidableEq, Repr

/-- What the first line of a block scalar says. -/
structure BlockHeader where
  chomp : Chomp := .clip
  /-- The indentation of the lines, beyond that of the node. -/
  indent : Option Nat := none
  deriving DecidableEq, Repr

/-- Reads one sign of a header. -/
def BlockHeader.sign? (h : BlockHeader) (c : Char) : Option BlockHeader :=
  if c = '+' then some { h with chomp := .keep }
  else if c = '-' then some { h with chomp := .strip }
  else if Text.isDigit c && c != '0' then some { h with indent := some (Text.digitValue c) }
  else none

/-- A header, which has at most one sign of each kind, and what follows it. -/
def blockHeader (t : Text) : BlockHeader × Text :=
  let h : BlockHeader := {}
  match t with
  | c :: d :: r =>
    match h.sign? c with
    | some h₁ =>
      if Text.isDigit c = Text.isDigit d then (h₁, d :: r)
      else match h₁.sign? d with
        | some h₂ => (h₂, r)
        | none => (h₁, d :: r)
    | none => (h, t)
  | [c] =>
    match h.sign? c with
    | some h₁ => (h₁, [])
    | none => (h, t)
  | [] => (h, [])

/-- What follows the line of a header, which may end with a comment. -/
def afterHeader? (inComment : Bool) : Text → Option Text
  | [] => some []
  | c :: r =>
    if isBreak c then some r
    else if inComment then afterHeader? true r
    else if isBlank c then afterHeader? false r
    else if c = '#' then afterHeader? true r
    else none

/-- The largest indentation of the blank lines at the start of the text and of the first line after them, where `column`
blanks have been read; none if a tab stands in the indentation. -/
def findIndent? (column most : Nat) : Text → Option Nat
  | [] => some (max most column)
  | c :: r =>
    if c = ' ' then findIndent? (column + 1) most r
    else if c = '\t' then none
    else if isBreak c then findIndent? 0 (max most column) r
    else some (max most column)

/-! ## Lines -/

/-- A piece of a block scalar. -/
inductive BlockPiece
  | char (c : Char)
  | lineBreak (c : Char)
  deriving DecidableEq, Repr

/-- Where the reading of a block scalar stands. -/
inductive BlockState
  | text
  /-- In the margin of a line, after some blanks; the line is kept for the case that it is not part of the scalar. -/
  | margin (column : Nat) (line : Text)

/-- The pieces of the lines that are indented by `indent`, and what follows them, from the start of a line on. -/
def blockPieces (indent : Nat) : BlockState → Text → List BlockPiece × Text
  | .text, [] => ([], [])
  | .margin _ _, [] => ([], [])
  | .text, c :: r =>
    if isBreak c then
      (.lineBreak c :: (blockPieces indent (.margin 0 r) r).1, (blockPieces indent (.margin 0 r) r).2)
    else (.char c :: (blockPieces indent .text r).1, (blockPieces indent .text r).2)
  | .margin column line, c :: r =>
    if isBreak c then
      (.lineBreak c :: (blockPieces indent (.margin 0 r) r).1, (blockPieces indent (.margin 0 r) r).2)
    else if column = indent then (.char c :: (blockPieces indent .text r).1, (blockPieces indent .text r).2)
    else if c = ' ' then blockPieces indent (.margin (column + 1) line) r
    else ([], line)

/-- A line break. -/
def BlockPiece.isLineBreak : BlockPiece → Bool
  | lineBreak _ => true
  | char _ => false

/-- The character of a piece. -/
def BlockPiece.toChar : BlockPiece → Char
  | lineBreak c => c
  | char c => c

/-! ## Meaning -/

/-- The line breaks at the end that remain, when there is text before them or not. -/
def Chomp.apply (hasText : Bool) (ending : Text) : Chomp → Text
  | strip => []
  | clip => if hasText then ending.take 1 else []
  | keep => ending

/-- Folds the text of a block scalar: `before` tells whether the line before began with a blank, if there is one, and
`breaks` are the line breaks since. -/
def foldLines (before : Option Bool) (breaks : Text) (inLine : Bool) : List BlockPiece → Text
  | [] => breaks
  | .lineBreak c :: r => foldLines before (breaks ++ [c]) false r
  | .char c :: r =>
    if inLine then c :: foldLines before [] true r
    else
      let gap :=
        if before = some false && !isBlank c && breaks.head? = some '\n' then
          if breaks.length = 1 then [' '] else breaks.tail
        else breaks
      gap ++ c :: foldLines (some (isBlank c)) [] true r

/-- The text of a block scalar. -/
def blockText (folded : Bool) (chomp : Chomp) (pieces : List BlockPiece) : Text :=
  let ending := (pieces.reverse.takeWhile BlockPiece.isLineBreak).reverse.map BlockPiece.toChar
  let body := (pieces.reverse.dropWhile BlockPiece.isLineBreak).reverse
  (if folded then foldLines none [] false body else body.map BlockPiece.toChar) ++ chomp.apply (body ≠ []) ending

/-- A block scalar after its introduction, in a node whose parts begin at column `least` or later: its text, and what
follows it from the start of a line on. -/
def blockScalar? (folded : Bool) (least : Nat) (t : Text) : Option (Text × Text) := do
  let (header, rest) := blockHeader t
  let lines ← afterHeader? false rest
  let indent ← match header.indent with
    | some n => some (least - 1 + n)
    | none => (findIndent? 0 0 lines).map fun n => max (max n least) 1
  let (pieces, rest) := blockPieces indent (.margin 0 lines) lines
  return (blockText folded header.chomp pieces, rest)

end BatchMigrate.Yaml
