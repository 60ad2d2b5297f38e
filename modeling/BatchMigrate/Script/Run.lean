import BatchMigrate.Script.Split

/-!
# Splitting on demand

A run reads a source only as far as the next event needs. Events that it has given stay valid if a later line cannot be
read; after a fault, and after the end, it gives nothing more and asks the source for nothing more.
-/

namespace BatchMigrate

/-- How far a run has come. -/
inductive Phase
  /-- Nothing has been read. -/
  | fresh
  /-- The lines up to one ahead have been read; without a line ahead the script is at its end. -/
  | reading (ahead : Option Text)
  /-- The run is over. -/
  | over
  deriving DecidableEq, Repr

/-- A run over a source. -/
structure Run where
  source : Source
  scan : ScanState
  phase : Phase := .fresh
  /-- A directive whose batch has been given. -/
  queued : Option Directive := none
  deriving DecidableEq, Repr

namespace Run

/-- A run that has read nothing. -/
def start (stripComments : Bool) (source : Source) : Run := { source, scan := .start stripComments }

/-- Ends the run with what the scan still holds. -/
def close (source : Source) (s : ScanState) : Option Item × Run :=
  match s.finish with
  | (.ok sql, scan) => (sql.map fun sql => .ok (.batch sql), { source, scan, phase := .over })
  | (.error fault, scan) => (some (.error fault), { source, scan, phase := .over })

/-- Gives the batch that a separator line closes, and queues its directive. -/
def flush (source : Source) (d : Directive) (ahead : Option Text) (s : ScanState) : Option Item × Run :=
  (some (.ok (.batch s.takePending.1)),
    { source, scan := s.takePending.2, phase := .reading ahead, queued := some d })

/-- Scans the line `held` as the last one. -/
def lastLine (sp : Splitter) (source : Source) (s : ScanState) (held : Text) : Option Item × Run :=
  match sp.scanLine held true s with
  | (.content, s) => close source s
  | (.directive d, s) => flush source d none s

/-- Goes on from the line `held` to the next event. -/
def advance (sp : Splitter) (s : ScanState) (held : Text) (asked : Nat) : List Answer → Option Item × Run
  | [] => lastLine sp ⟨[], asked + 1⟩ s held
  | .finished :: rest => lastLine sp ⟨rest, asked + 1⟩ s held
  | .failed fault :: rest =>
    (some (.error (.source fault)), { source := ⟨rest, asked + 1⟩, scan := s, phase := .over })
  | .line ahead :: rest =>
    match sp.scanLine held false s with
    | (.content, s) => advance sp s ahead (asked + 1) rest
    | (.directive d, s) => flush ⟨rest, asked + 1⟩ d (some ahead) s

/-- The next event or fault, or none once the run is over. -/
def next (sp : Splitter) (r : Run) : Option Item × Run :=
  match r.queued, r.phase with
  | some d, _ => (some (.ok (.directive d)), { r with queued := none })
  | none, .over => (none, r)
  | none, .reading none => close r.source r.scan
  | none, .reading (some held) => advance sp r.scan held r.source.asked r.source.answers
  | none, .fresh =>
    match r.source.next with
    | (.line first, source) => advance sp r.scan first source.asked source.answers
    | (.finished, source) => close source r.scan
    | (.failed fault, source) => (some (.error (.source fault)), { r with source, phase := .over })

end Run

end BatchMigrate
