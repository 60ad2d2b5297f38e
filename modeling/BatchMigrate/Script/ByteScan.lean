import BatchMigrate.Script.Scan
import BatchMigrate.Text.Slice

/-!
# Scanning the bytes of a line

A line can be scanned in place, without taking its characters out of its bytes: as all markers are ASCII characters, it is
enough to compare single bytes, and the runs of text between the markers are sliced out of the line by their places. Each
slice is checked, so that there is no result if one of them would cut a character.
-/

namespace BatchMigrate

/-- A run of text that was sliced out of a line, all of it in comments or all of it outside. -/
structure LinePiece where
  inComment : Bool
  /-- Where the run begins in the bytes of the line. -/
  first : Nat
  /-- Where the run ends. -/
  last : Nat
  text : Text
  deriving DecidableEq, Repr

/-- What a scan has sliced out of a line so far. -/
structure ScannedLine where
  /-- The text outside comments. -/
  plain : Text := []
  /-- The text that a batch keeps. -/
  retained : Text := []
  /-- Where the first comment is opened. -/
  firstComment : Option Nat := none
  pieces : List LinePiece := []
  deriving DecidableEq, Repr

namespace ScannedLine

/-- What is sliced out of the line with one more run of text. -/
def add (stripComments : Bool) (piece : LinePiece) (out : ScannedLine) : ScannedLine :=
  { out with
    plain := if piece.inComment then out.plain else out.plain ++ piece.text
    retained := if piece.inComment && stripComments then out.retained else out.retained ++ piece.text
    pieces := out.pieces ++ [piece] }

/-- Slices a run of text out of the line. -/
def keep? (stripComments : Bool) (bytes : List UInt8) (inComment : Bool) (first last : Nat) (out : ScannedLine) :
    Option ScannedLine :=
  (Text.slice? bytes first last).map fun text => out.add stripComments ⟨inComment, first, last, text⟩

end ScannedLine

namespace Lex

/-- The two ASCII characters stand one after the other at a place in the bytes. -/
def standsAt (c d : Char) (bytes : List UInt8) (i : Nat) : Bool :=
  bytes[i]? = some c.toUInt8 && bytes[i + 1]? = some d.toUInt8

/-- Scans the bytes of line `n` from `i` on, where the run of text that is being read began at `start`: what is sliced out of
the line, and the state in which the next line begins. -/
def scanFrom? (stripComments : Bool) (n : Nat) (bytes : List UInt8) (lex : Lex) (start i : Nat) (out : ScannedLine) :
    Option (ScannedLine × Lex) :=
  if _h : i < bytes.length then
    match lex with
    | plain =>
      let opensBlock := standsAt '/' '*' bytes i
      let opensLine := standsAt '-' '-' bytes i
      if opensBlock || opensLine then do
        let out ← out.keep? stripComments bytes false start i
        scanFrom? stripComments n bytes (if opensBlock then blockComment n else lineComment) i (i + 2)
          { out with firstComment := out.firstComment.or (some i) }
      else scanFrom? stripComments n bytes plain start (i + 1) out
    | blockComment openedOn =>
      if standsAt '*' '/' bytes i then do
        let out ← out.keep? stripComments bytes true start (i + 2)
        scanFrom? stripComments n bytes plain (i + 2) (i + 2) out
      else scanFrom? stripComments n bytes (blockComment openedOn) start (i + 1) out
    | lineComment => scanFrom? stripComments n bytes lineComment start bytes.length out
  else (out.keep? stripComments bytes (lex != plain) start bytes.length).map fun out => (out, lex.atLineEnd)
  termination_by bytes.length - i

/-- Scans the bytes of line `n`. -/
def scanBytes? (stripComments : Bool) (n : Nat) (lex : Lex) (line : Text) : Option (ScannedLine × Lex) :=
  scanFrom? stripComments n line.utf8 lex 0 0 {}

end Lex

namespace ScanState

/-- The text of a scanned line that is compared with the separator, if the line may be a separator line at all. With comments
kept, the text before the first comment is sliced out of the line. -/
def candidateBytes? (stripComments : Bool) (lex : Lex) (line : Text) (out : ScannedLine) : Option (Option Text) :=
  if stripComments then some (some out.plain)
  else if lex.inBlock then some none
  else
    (Text.slice? line.utf8 0 (out.firstComment.getD line.utf8.length)).map fun head =>
      if Text.trim head = Text.trim out.plain then some head else none

/-- Scans the bytes of one line. -/
def scanLineBytes? (separator : Separator) (terminator line : Text) (isLast : Bool) (s : ScanState) :
    Option (LineOutcome × ScanState) := do
  let number := s.lineNumber + 1
  let (out, lex) ← s.lex.scanBytes? s.stripComments number line
  let candidate ← candidateBytes? s.stripComments s.lex line out
  let found := if lex.inBlock then none else candidate.bind separator.recognize
  match found with
  | some d => return (.directive d, { s with lex, lineNumber := number })
  | none =>
    let pending := terminate s.stripComments lex terminator isLast (s.pending ++ out.retained)
    return (.content, { s with lex, pending, lineNumber := number })

end ScanState

end BatchMigrate
