import BatchMigrate.Script.Comment
import BatchMigrate.Script.Separator

/-!
# Scanning a script line by line

`ScanState` is all that the splitting of a script carries from line to line: the state of comments, the text of the
batch that is being collected, and the number of lines seen. A line is a separator line when it ends outside block
comments and its text is recognized:

* when comments are stripped, the text outside comments counts, as nothing else of the line would be kept;
* when comments are kept, the line has to begin outside a comment and only a trailing comment may follow the keyword,
  so that `GO -- next` separates batches, while `*/ GO` and `G/* x */O` are content.
-/

namespace BatchMigrate

/-- What one scanned line turned out to be. -/
inductive LineOutcome
  /-- The kept text of the line has joined the pending batch. -/
  | content
  /-- The line is a separator line. -/
  | directive (d : Directive)
  deriving DecidableEq, Repr

/-- The state of a scan between two lines. -/
structure ScanState where
  /-- Comments are left out of the batches. -/
  stripComments : Bool
  lex : Lex
  /-- The text collected since the last flush. -/
  pending : Text
  /-- The number of lines scanned. -/
  lineNumber : Nat
  deriving DecidableEq, Repr

namespace ScanState

/-- The state before the first line. -/
def start (stripComments : Bool) : ScanState := ⟨stripComments, .plain, [], 0⟩

/-- The text of a line that is compared with the separator, if the line may be a separator line at all. -/
def candidate (stripComments : Bool) (lex : Lex) (marks : List Mark) : Option Text :=
  if stripComments then some (Mark.codeText marks)
  else if lex.inBlock then none
  else if Text.trim (Mark.headText marks) = Text.trim (Mark.codeText marks) then some (Mark.headText marks)
  else none

/-- The part of a line that joins the batch. -/
def kept (stripComments : Bool) (marks : List Mark) : Text :=
  if stripComments then Mark.codeText marks else Mark.fullText marks

/-- The pending text, to which the text of a line has been added, with the terminator that belongs after it: a line
break inside a stripped comment is left out, and a last line is terminated only if the batch holds anything. -/
def terminate (stripComments : Bool) (lex : Lex) (terminator : Text) (isLast : Bool) (pending : Text) : Text :=
  if isLast then
    if pending = [] then [] else pending ++ terminator
  else if lex.inBlock && stripComments then pending
  else pending ++ terminator

/-- Scans one line. A separator line adds nothing to the pending text. -/
def scanLine (separator : Separator) (terminator line : Text) (isLast : Bool) (s : ScanState) :
    LineOutcome × ScanState :=
  let number := s.lineNumber + 1
  let (marks, final) := s.lex.mark number line
  let lex := final.atLineEnd
  let found := if lex.inBlock then none else (candidate s.stripComments s.lex marks).bind separator.recognize
  match found with
  | some d => (.directive d, { s with lex, lineNumber := number })
  | none =>
    let pending := terminate s.stripComments lex terminator isLast (s.pending ++ kept s.stripComments marks)
    (.content, { s with lex, pending, lineNumber := number })

/-- Hands out the pending batch. -/
def takePending (s : ScanState) : Text × ScanState := (s.pending, { s with pending := [] })

/-- Ends the scan with the final batch, if there is one. An open block comment is a fault, and what is pending is then
dropped. -/
def finish (s : ScanState) : Except SplitFault (Option Text) × ScanState :=
  match s.lex with
  | .blockComment openedOn => (.error (.unterminatedComment openedOn), { s with pending := [] })
  | _ => (.ok (if s.pending = [] then none else some s.pending), { s with pending := [] })

end ScanState

end BatchMigrate
