import BatchMigrate.Script.Scan
import BatchMigrate.Script.Source

/-!
# Splitting a script into batches

A splitter cuts the lines of a source at the separator lines. Each directive comes right after the batch that it
closes, even if that batch is empty; the text after the last directive is a batch if there is any. One line is read
ahead, because the last line is terminated by a rule of its own, so a source that fails on a line hides the line
before it.

`Splitter.items` gives what is found in a whole source, up to the first fault; `Splitter.split` and `Splitter.process`
are its two readings. `Run` in `Script/Run` finds the same items one at a time.
-/

namespace BatchMigrate

/-- What a script is made of. -/
inductive Event
  /-- Text to be sent to the database as one unit. -/
  | batch (sql : Text)
  /-- A separator line, right after the batch that it closes. -/
  | directive (d : Directive)
  deriving DecidableEq, Repr

/-- An event, or the fault that ends the reading of a script. -/
abbrev Item := Except SplitFault Event

/-- How scripts are cut: at the separator, with the terminator put back after each line that is kept. -/
structure Splitter where
  separator : Separator := .go
  terminator : Text
  terminator_ne_nil : terminator ≠ []

namespace Splitter

/-- The splitter with the given terminator and the usual separator. -/
def ofTerminator (terminator : Text) : Except SplitFault Splitter :=
  if h : terminator ≠ [] then .ok { terminator, terminator_ne_nil := h } else .error .invalidTerminator

/-- The splitter with another separator. -/
def withSeparator (sp : Splitter) (keyword : Text) : Except SplitFault Splitter :=
  (Separator.ofKeyword keyword).map fun separator => { sp with separator }

/-- The splitter with the given terminator and separator; of two faults that of the terminator counts. -/
def ofTexts (terminator keyword : Text) : Except SplitFault Splitter :=
  ofTerminator terminator >>= fun sp => sp.withSeparator keyword

/-- Scans one line. -/
def scanLine (sp : Splitter) (line : Text) (isLast : Bool) (s : ScanState) : LineOutcome × ScanState :=
  s.scanLine sp.separator sp.terminator line isLast

/-! ## The items of a source -/

/-- The items at the end of a script. -/
def closing (s : ScanState) : List Item :=
  match s.finish.1 with
  | .ok (some sql) => [.ok (.batch sql)]
  | .ok none => []
  | .error fault => [.error fault]

/-- The items from the line `held` on, if there is one, when the source gives the answers after it. -/
def itemsFrom (sp : Splitter) (s : ScanState) (held : Text) : List Answer → List Item
  | .failed fault :: _ => [.error (.source fault)]
  | .line ahead :: answers =>
    match sp.scanLine held false s with
    | (.content, s) => itemsFrom sp s ahead answers
    | (.directive d, s) =>
      .ok (.batch s.takePending.1) :: .ok (.directive d) :: itemsFrom sp s.takePending.2 ahead answers
  | _ =>
    match sp.scanLine held true s with
    | (.content, s) => closing s
    | (.directive d, s) => .ok (.batch s.takePending.1) :: .ok (.directive d) :: closing s.takePending.2

/-- What a source holds: its events in order, ended by the first fault if there is one. -/
def items (sp : Splitter) (stripComments : Bool) (source : Source) : List Item :=
  match source.answers with
  | .failed fault :: _ => [.error (.source fault)]
  | .line first :: answers => sp.itemsFrom (.start stripComments) first answers
  | _ => closing (.start stripComments)

/-! ## Readings -/

/-- The events before the first fault, and that fault. -/
def delivered : List Item → List Event × Option SplitFault
  | [] => ([], none)
  | .ok event :: rest => (event :: (delivered rest).1, (delivered rest).2)
  | .error fault :: _ => ([], some fault)

/-- All events of a source, or its fault and no event. -/
def split (sp : Splitter) (stripComments : Bool) (source : Source) : Except SplitFault (List Event) :=
  match delivered (sp.items stripComments source) with
  | (events, none) => .ok events
  | (_, some fault) => .error fault

/-- Hands over the events of a source one by one: those that are handed over, and their number or the fault. -/
def process (sp : Splitter) (stripComments : Bool) (source : Source) : List Event × Except SplitFault Nat :=
  match delivered (sp.items stripComments source) with
  | (events, none) => (events, .ok events.length)
  | (events, some fault) => (events, .error fault)

/-- All events of a text, whose lines end with line feeds. -/
def splitText (sp : Splitter) (stripComments : Bool) (script : Text) : Except SplitFault (List Event) :=
  sp.split stripComments (ByteReader.source { chunks := [script.utf8] })

end Splitter

/-! ## Printing -/

/-- The event as it is printed: a batch as it is, a directive on a line of its own. -/
def Event.render : Event → Text
  | .batch sql => sql
  | .directive d => d.token ++ ['\n']

/-- The events as they are printed one after the other. -/
def Event.renderAll (events : List Event) : Text := events.flatMap Event.render

end BatchMigrate
