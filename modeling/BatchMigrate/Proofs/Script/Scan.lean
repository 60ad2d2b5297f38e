import BatchMigrate.Script.Split

/-!
# The scan of a list of lines

What a line turns out to be, and in which state of comments it ends, depends on the state of comments before it, not on
the pending text and not on whether more lines follow: `ScanState.directive?` and `ScanState.advance` say it, and
`ScanState.scanLine_cases` is all that one line can do. From it:

* `Splitter.scan` — every line of a list with what it turned out to be and the states around it;
* `Splitter.lineItems` — the items of a list of lines; they are the items of the source of these lines
  (`Splitter.items_ofLines`);
* `Splitter.split_eq_ok` — a script splits into the events whose items are all it holds.
-/

namespace BatchMigrate

/-! ## The state of comments -/

namespace Lex

/-- Between two lines a scan is outside comments or inside a block comment. -/
theorem atLineEnd_eq_plain {lex : Lex} (h : lex.atLineEnd.inBlock = false) : lex.atLineEnd = plain := by
  cases lex with
  | plain => rfl
  | lineComment => rfl
  | blockComment k => simp [atLineEnd, inBlock] at h

theorem atLineEnd_ne_lineComment (lex : Lex) : lex.atLineEnd ≠ .lineComment := by
  cases lex <;> simp [atLineEnd]

/-- Marking loses no character. -/
theorem fullText_mark (n : Nat) (lex : Lex) (line : Text) : Mark.fullText (lex.mark n line).1 = line := by
  fun_induction Lex.mark n lex line <;> simp_all [Mark.fullText, Mark.comment, Mark.code]

end Lex

/-! ## One line -/

namespace ScanState

variable (s : ScanState)

/-- The characters of the next line with their marks. -/
def marks (line : Text) : List Mark := (s.lex.mark (s.lineNumber + 1) line).1

/-- The state after the next line, with the pending text as it was. -/
def advance (line : Text) : ScanState :=
  { s with lex := (s.lex.mark (s.lineNumber + 1) line).2.atLineEnd, lineNumber := s.lineNumber + 1 }

/-- The directive that the next line is. -/
def directive? (separator : Separator) (line : Text) : Option Directive :=
  if (s.advance line).lex.inBlock then none
  else (candidate s.stripComments s.lex (s.marks line)).bind separator.recognize

/-- The text of the next line that a batch keeps. -/
def keptText (line : Text) : Text := kept s.stripComments (s.marks line)

/-- The state after the next line, if it is content. -/
def absorb (terminator line : Text) (isLast : Bool) : ScanState :=
  { s.advance line with
    pending := terminate s.stripComments (s.advance line).lex terminator isLast (s.pending ++ s.keptText line) }

/-- **One line.** It is a directive, and the pending text stays as it is, or it is content and joins the pending text. -/
theorem scanLine_cases (separator : Separator) (terminator line : Text) (isLast : Bool) :
    (∃ d, s.directive? separator line = some d ∧
      s.scanLine separator terminator line isLast = (.directive d, s.advance line)) ∨
    (s.directive? separator line = none ∧
      s.scanLine separator terminator line isLast = (.content, s.absorb terminator line isLast)) := by
  rw [scanLine]
  dsimp only
  split
  · rename_i d hd
    exact Or.inl ⟨d, hd, rfl⟩
  · rename_i hn
    exact Or.inr ⟨hn, rfl⟩

variable {s}

/-- A line is a directive by the state of comments alone. -/
theorem fst_scanLine_eq_directive {separator : Separator} {terminator line : Text} {isLast : Bool} {d : Directive} :
    (s.scanLine separator terminator line isLast).1 = .directive d ↔ s.directive? separator line = some d := by
  rcases s.scanLine_cases separator terminator line isLast with ⟨d', hd, he⟩ | ⟨hn, he⟩
  · rw [he, hd, LineOutcome.directive.injEq, Option.some.injEq]
  · rw [he, hn]
    exact iff_of_false (fun h => by cases h) fun h => by cases h

/-- A line that is a directive ends outside comments. -/
theorem lex_advance_of_directive {separator : Separator} {line : Text} {d : Directive}
    (h : s.directive? separator line = some d) : (s.advance line).lex = .plain := by
  unfold directive? at h
  split at h
  · cases h
  · rename_i hb
    exact Lex.atLineEnd_eq_plain (Bool.not_eq_true _ ▸ hb)

/-- With comments kept, a line that begins inside a block comment is no directive. -/
theorem inBlock_of_directive {separator : Separator} {line : Text} {d : Directive} (hs : s.stripComments = false)
    (h : s.directive? separator line = some d) : s.lex.inBlock = false := by
  cases hb : s.lex.inBlock with
  | false => rfl
  | true =>
    have hnone : candidate s.stripComments s.lex (s.marks line) = none := by
      rw [candidate, hs, if_neg Bool.false_ne_true, if_pos hb]
    rw [directive?, hnone, Option.bind_none, ite_self] at h
    cases h

/-- With comments kept, a line keeps all its characters. -/
theorem keptText_of_keep (h : s.stripComments = false) (line : Text) : s.keptText line = line := by
  simp [keptText, kept, h, marks, Lex.fullText_mark]

/-- With comments stripped, a line keeps what stands outside them. -/
theorem keptText_of_strip (h : s.stripComments = true) (line : Text) :
    s.keptText line = Mark.codeText (s.marks line) := by
  simp [keptText, kept, h]

end ScanState

namespace Splitter

variable (sp : Splitter)

theorem scanLine_cases (line : Text) (isLast : Bool) (s : ScanState) :
    (∃ d, s.directive? sp.separator line = some d ∧ sp.scanLine line isLast s = (.directive d, s.advance line)) ∨
    (s.directive? sp.separator line = none ∧
      sp.scanLine line isLast s = (.content, s.absorb sp.terminator line isLast)) :=
  s.scanLine_cases sp.separator sp.terminator line isLast

variable {sp}

theorem scanLine_of_directive {s : ScanState} {line : Text} {d : Directive}
    (h : s.directive? sp.separator line = some d) (isLast : Bool) :
    sp.scanLine line isLast s = (.directive d, s.advance line) := by
  rcases sp.scanLine_cases line isLast s with ⟨d', hd, he⟩ | ⟨hn, _⟩
  · rw [h] at hd
    cases hd
    exact he
  · rw [h] at hn
    cases hn

theorem scanLine_of_content {s : ScanState} {line : Text} (h : s.directive? sp.separator line = none)
    (isLast : Bool) : sp.scanLine line isLast s = (.content, s.absorb sp.terminator line isLast) := by
  rcases sp.scanLine_cases line isLast s with ⟨d, hd, _⟩ | ⟨_, he⟩
  · rw [h] at hd
    cases hd
  · exact he

theorem directive_of_scanLine {s : ScanState} {line : Text} {isLast : Bool} {d : Directive}
    (h : (sp.scanLine line isLast s).1 = .directive d) : s.directive? sp.separator line = some d :=
  ScanState.fst_scanLine_eq_directive.1 h

end Splitter

/-! ## All lines -/

/-- A scanned line. -/
structure Scanned where
  /-- The state of the scan before the line. -/
  before : ScanState
  line : Text
  outcome : LineOutcome
  /-- The state of the scan after the line. -/
  after : ScanState

namespace Splitter

/-- The lines with what they turn out to be. The pending text is taken after each directive. -/
def scan (sp : Splitter) (s : ScanState) : List Text → List Scanned
  | [] => []
  | line :: rest =>
    match sp.scanLine line rest.isEmpty s with
    | (.content, after) => ⟨s, line, .content, after⟩ :: scan sp after rest
    | (.directive d, after) => ⟨s, line, .directive d, after⟩ :: scan sp after.takePending.2 rest

/-- The items of the lines. -/
def lineItems (sp : Splitter) (s : ScanState) : List Text → List Item
  | [] => closing s
  | line :: rest =>
    match sp.scanLine line rest.isEmpty s with
    | (.content, after) => lineItems sp after rest
    | (.directive d, after) =>
      .ok (.batch after.takePending.1) :: .ok (.directive d) :: lineItems sp after.takePending.2 rest

variable {sp : Splitter} {s : ScanState} {line : Text} {rest : List Text} {d : Directive}

theorem scan_of_directive (h : s.directive? sp.separator line = some d) :
    sp.scan s (line :: rest) =
      ⟨s, line, .directive d, s.advance line⟩ :: sp.scan (s.advance line).takePending.2 rest := by
  simp only [scan, scanLine_of_directive h]

theorem scan_of_content (h : s.directive? sp.separator line = none) :
    sp.scan s (line :: rest) = ⟨s, line, .content, s.absorb sp.terminator line rest.isEmpty⟩ ::
      sp.scan (s.absorb sp.terminator line rest.isEmpty) rest := by
  simp only [scan, scanLine_of_content h]

theorem lineItems_of_directive (h : s.directive? sp.separator line = some d) :
    sp.lineItems s (line :: rest) = .ok (.batch s.pending) :: .ok (.directive d) ::
      sp.lineItems (s.advance line).takePending.2 rest := by
  simp only [lineItems, scanLine_of_directive h]
  rfl

theorem lineItems_of_content (h : s.directive? sp.separator line = none) :
    sp.lineItems s (line :: rest) = sp.lineItems (s.absorb sp.terminator line rest.isEmpty) rest := by
  simp only [lineItems, scanLine_of_content h]

variable (sp) in
/-- A scan goes through all lines in order. -/
theorem scan_map_line : ∀ (s : ScanState) (lines : List Text), (sp.scan s lines).map Scanned.line = lines
  | _, [] => rfl
  | s, line :: rest => by
    cases h : s.directive? sp.separator line with
    | none => rw [scan_of_content h, List.map_cons, scan_map_line]
    | some d => rw [scan_of_directive h, List.map_cons, scan_map_line]

variable (sp) in
/-- **One step of a scan.** Whatever the line turns out to be, its state of comments goes on to the next line. -/
theorem scan_cons (s : ScanState) (line : Text) (rest : List Text) :
    ∃ outcome after next, sp.scan s (line :: rest) = ⟨s, line, outcome, after⟩ :: sp.scan next rest ∧
      after.lex = (s.advance line).lex ∧ next.lex = (s.advance line).lex ∧
      next.stripComments = s.stripComments ∧ next.lineNumber = s.lineNumber + 1 ∧
      ∀ d, outcome = .directive d ↔ s.directive? sp.separator line = some d := by
  cases h : s.directive? sp.separator line with
  | none => exact ⟨_, _, _, scan_of_content h, rfl, rfl, rfl, rfl, by simp⟩
  | some d => exact ⟨_, _, _, scan_of_directive h, rfl, rfl, rfl, rfl, by simp⟩

/-- A scan keeps or strips the comments of all lines. -/
theorem stripComments_of_mem_scan : ∀ {lines : List Text} {s : ScanState} {x : Scanned}, x ∈ sp.scan s lines →
    x.before.stripComments = s.stripComments
  | [], _, _, h => by cases h
  | line :: rest, s, x, h => by
    obtain ⟨outcome, after, next, he, _, _, hs, _⟩ := scan_cons sp s line rest
    rw [he] at h
    rcases List.mem_cons.1 h with rfl | h
    · rfl
    · rw [← hs]
      exact stripComments_of_mem_scan h

theorem line_mem_of_mem_scan {lines : List Text} {x : Scanned} (hx : x ∈ sp.scan s lines) : x.line ∈ lines := by
  have hmem := List.mem_map_of_mem (f := Scanned.line) hx
  rwa [scan_map_line] at hmem

theorem scan_ne_nil {lines : List Text} (h : lines ≠ []) : sp.scan s lines ≠ [] := by
  intro he
  have hm := scan_map_line sp s lines
  rw [he] at hm
  exact h hm.symm

theorem itemsFrom_lines : ∀ (s : ScanState) (held : Text) (rest : List Text),
    sp.itemsFrom s held (rest.map .line) = sp.lineItems s (held :: rest)
  | s, held, [] => by
    rcases sp.scanLine_cases held true s with ⟨d, _, he⟩ | ⟨_, he⟩ <;>
      simp [itemsFrom, lineItems, he]
  | s, held, ahead :: rest => by
    rcases sp.scanLine_cases held false s with ⟨d, _, he⟩ | ⟨_, he⟩ <;>
      simp [itemsFrom, lineItems, he, itemsFrom_lines]

/-- A script that ends inside a block comment ends with a fault. -/
theorem closing_of_blockComment {k : Nat} (h : s.lex = .blockComment k) :
    closing s = [.error (.unterminatedComment k)] := by
  simp only [closing, ScanState.finish, h]

/-- A script that ends outside block comments ends with what is pending. -/
theorem closing_of_not_inBlock (h : s.lex.inBlock = false) :
    closing s = if s.pending = [] then [] else [.ok (.batch s.pending)] := by
  unfold closing ScanState.finish
  split
  · rename_i k hk
    split at hk <;> split <;> simp_all
  · rename_i hk
    split at hk <;> simp_all
  · rename_i hk
    split at hk <;> simp_all [Lex.inBlock]

/-- **The items of a list of lines** are the items of the source of these lines. -/
theorem items_ofLines (sp : Splitter) (stripComments : Bool) (lines : List Text) :
    sp.items stripComments (.ofLines lines) = sp.lineItems (.start stripComments) lines := by
  cases lines with
  | nil => rfl
  | cons first rest => exact itemsFrom_lines _ first rest

end Splitter

/-! ## Items and events -/

namespace Splitter

/-- The splitter at `GO` that ends lines with line feeds. -/
def unix : Splitter := { terminator := ['\n'], terminator_ne_nil := by decide }

theorem delivered_append (events : List Event) (items : List Item) :
    delivered (events.map .ok ++ items) = (events ++ (delivered items).1, (delivered items).2) := by
  induction events with
  | nil => rfl
  | cons event rest ih => simp [delivered, ih]

/-- Items without a fault are the events delivered. -/
theorem delivered_eq_none {items : List Item} {events : List Event} (h : delivered items = (events, none)) :
    items = events.map .ok := by
  induction items generalizing events with
  | nil => cases h; rfl
  | cons item rest ih =>
    cases item with
    | error fault => cases h
    | ok event =>
      simp only [delivered, Prod.mk.injEq] at h
      obtain ⟨rfl, hn⟩ := h
      rw [List.map_cons, ← ih (Prod.ext rfl hn)]

/-- A source splits into the events that are all its items. -/
theorem split_eq_ok {sp : Splitter} {stripComments : Bool} {source : Source} {events : List Event} :
    sp.split stripComments source = .ok events ↔ sp.items stripComments source = events.map .ok := by
  unfold split
  constructor
  · intro h
    split at h
    · rename_i he
      cases h
      exact delivered_eq_none he
    · cases h
  · intro h
    have hd := delivered_append events []
    rw [List.append_nil] at hd
    rw [h, hd]
    simp [delivered]

end Splitter

end BatchMigrate
