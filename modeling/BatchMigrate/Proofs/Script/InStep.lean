import Mathlib.Data.List.Forall2
import BatchMigrate.Proofs.Script.Scan

/-!
# Keeping comments and stripping them

Two scans of the same lines, one that keeps comments and one that strips them, may disagree on what is a directive, and
then differ in what is pending; but the state of comments depends on neither. So they stay in step
(`Splitter.forall₂_scan`): around each line they are in the same state of comments, and a directive of the scan that
keeps comments is the same directive of the one that strips them, because the two compare the separator with texts that
differ in white space at their ends only (`ScanState.directive?_of_keep`). Hence the two end alike
(`Splitter.split_in_step`).
-/

namespace BatchMigrate

/-! ## One line -/

namespace Separator

/-- White space at the ends of a line is of no account. -/
theorem recognize_of_trim_eq (s : Separator) {line line' : Text} (h : Text.trim line = Text.trim line') :
    s.recognize line = s.recognize line' := by
  rw [recognize, recognize, h]

end Separator

namespace ScanState

variable {s s' : ScanState} {separator : Separator} {line : Text} {d : Directive}

/-- The state of comments after a line depends on that before it and on the number of the line. -/
theorem lex_advance_congr (hl : s.lex = s'.lex) (hn : s.lineNumber = s'.lineNumber) :
    (s.advance line).lex = (s'.advance line).lex := by
  simp only [advance, hl, hn]

/-- **A directive of a scan that keeps comments** is one of a scan that strips them. -/
theorem directive?_of_keep (hs : s.stripComments = false) (hs' : s'.stripComments = true) (hl : s.lex = s'.lex)
    (hn : s.lineNumber = s'.lineNumber) (h : s.directive? separator line = some d) :
    s'.directive? separator line = some d := by
  have hmarks : s'.marks line = s.marks line := by simp only [marks, hl, hn]
  have hstrip : candidate s'.stripComments s'.lex (s'.marks line) = some (Mark.codeText (s.marks line)) := by
    rw [candidate, hs', if_pos rfl, hmarks]
  unfold directive? at h ⊢
  rw [← lex_advance_congr hl hn]
  split at h
  · cases h
  · rename_i hblock
    obtain ⟨text, htext, hd⟩ := Option.bind_eq_some_iff.1 h
    rw [candidate, hs, if_neg Bool.false_ne_true] at htext
    split at htext
    · cases htext
    · split at htext
      · rename_i htrim
        cases htext
        rw [if_neg hblock, hstrip, Option.bind_some, ← separator.recognize_of_trim_eq htrim, hd]
      · cases htext

end ScanState

/-! ## All lines -/

/-- What two scans say of the same line: the state of comments is the same around it, and if it is a directive for the
first, it is the same one for the second. -/
structure Scanned.InStep (x y : Scanned) : Prop where
  line : x.line = y.line
  before : x.before.lex = y.before.lex
  after : x.after.lex = y.after.lex
  directive : ∀ d, x.outcome = .directive d → y.outcome = .directive d

/-- The directive that a line turned out to be. -/
def LineOutcome.directive? : LineOutcome → Option Directive
  | content => none
  | directive d => some d

/-- The directive that an event is. -/
def Event.directive? : Event → Option Directive
  | batch _ => none
  | directive d => some d

namespace Splitter

variable {sp : Splitter}

variable (sp) in
/-- **The two scans stay in step**, whatever they have found before. -/
theorem forall₂_scan : ∀ (lines : List Text) {s s' : ScanState}, s.stripComments = false → s'.stripComments = true →
    s.lex = s'.lex → s.lineNumber = s'.lineNumber → List.Forall₂ Scanned.InStep (sp.scan s lines) (sp.scan s' lines)
  | [], _, _, _, _, _, _ => .nil
  | line :: rest, s, s', hs, hs', hl, hn => by
    obtain ⟨outcome, after, next, he, hafter, hnext, hstrip, hnumber, hd⟩ := scan_cons sp s line rest
    obtain ⟨outcome', after', next', he', hafter', hnext', hstrip', hnumber', hd'⟩ := scan_cons sp s' line rest
    have hlex : (s.advance line).lex = (s'.advance line).lex := ScanState.lex_advance_congr hl hn
    have ih := forall₂_scan rest (hstrip.trans hs) (hstrip'.trans hs') (by rw [hnext, hnext', hlex])
      (by rw [hnumber, hnumber', hn])
    rw [he, he']
    exact .cons ⟨rfl, hl, by rw [hafter, hafter', hlex], fun d h =>
      (hd' d).2 (ScanState.directive?_of_keep hs hs' hl hn ((hd d).1 h))⟩ ih

/-- The directives of lines of which each is a directive of the others. -/
theorem directives_sublist {xs ys : List Scanned} (h : List.Forall₂ Scanned.InStep xs ys) :
    (xs.filterMap (·.outcome.directive?)).Sublist (ys.filterMap (·.outcome.directive?)) := by
  induction h with
  | nil => exact List.Sublist.refl _
  | @cons x y xs ys hxy _ ih =>
    cases hx : x.outcome with
    | content =>
      rw [List.filterMap_cons_none (by rw [hx]; rfl)]
      exact ih.trans ((List.sublist_cons_self y ys).filterMap _)
    | directive d =>
      rw [List.filterMap_cons_some (by rw [hx]; rfl), List.filterMap_cons_some (by rw [hxy.directive d hx]; rfl)]
      exact ih.cons_cons d

end Splitter

/-! ## How a script ends -/

/-- The fault of a script that ends in the state. -/
def Lex.fault? : Lex → Option SplitFault
  | blockComment k => some (.unterminatedComment k)
  | _ => none

namespace Splitter

variable {sp : Splitter}

theorem delivered_closing (s : ScanState) : (delivered (closing s)).2 = s.lex.fault? ∧
    (delivered (closing s)).1.filterMap Event.directive? = [] := by
  cases hl : s.lex with
  | blockComment k =>
    rw [closing_of_blockComment hl]
    exact ⟨rfl, rfl⟩
  | plain | lineComment =>
    rw [closing_of_not_inBlock (by rw [hl]; rfl)]
    split <;> exact ⟨rfl, rfl⟩

variable (sp) in
/-- The fault of a script depends on the state of comments after its last line. -/
theorem fault_lineItems : ∀ (s : ScanState) (lines : List Text),
    (delivered (sp.lineItems s lines)).2 = (((sp.scan s lines).map (·.after.lex)).getLast?.getD s.lex).fault?
  | s, [] => (delivered_closing s).1
  | s, line :: rest => by
    cases hd : s.directive? sp.separator line with
    | none =>
      rw [lineItems_of_content hd, scan_of_content hd, fault_lineItems, List.map_cons, List.getLast?_cons]
      rfl
    | some d =>
      rw [lineItems_of_directive hd, scan_of_directive hd, List.map_cons, List.getLast?_cons]
      exact fault_lineItems (s.advance line).takePending.2 rest

variable (sp) in
/-- The directives that a script delivers are those of its lines. -/
theorem directives_lineItems : ∀ (s : ScanState) (lines : List Text),
    (delivered (sp.lineItems s lines)).1.filterMap Event.directive? =
      (sp.scan s lines).filterMap (·.outcome.directive?)
  | s, [] => (delivered_closing s).2
  | s, line :: rest => by
    cases hd : s.directive? sp.separator line with
    | none =>
      rw [lineItems_of_content hd, scan_of_content hd, directives_lineItems]
      rfl
    | some d =>
      have ih := directives_lineItems (s.advance line).takePending.2 rest
      rw [lineItems_of_directive hd, scan_of_directive hd]
      exact congrArg (d :: ·) ih

theorem split_eq_error {stripComments : Bool} {source : Source} {fault : SplitFault} :
    sp.split stripComments source = .error fault ↔ (delivered (sp.items stripComments source)).2 = some fault := by
  unfold split
  split <;> simp_all

theorem fst_process (sp : Splitter) (stripComments : Bool) (source : Source) :
    (sp.process stripComments source).1 = (delivered (sp.items stripComments source)).1 := by
  unfold process
  split <;> simp_all

/-- **Keeping comments and stripping them.** The two go through the same states of comments, and end with the same fault
or both without one. A line that is a directive with comments kept is the same directive with comments stripped, so the
directives with comments kept are some of those with comments stripped, in order. -/
theorem split_in_step (sp : Splitter) (lines : List Text) :
    let kept := sp.scan (.start false) lines
    let stripped := sp.scan (.start true) lines
    kept.map Scanned.line = lines ∧ kept.map (·.after.lex) = stripped.map (·.after.lex) ∧
    (∀ n, sp.split false (.ofLines lines) = .error (.unterminatedComment n) ↔
      sp.split true (.ofLines lines) = .error (.unterminatedComment n)) ∧
    List.Forall₂ Scanned.InStep kept stripped ∧
    ((sp.process false (.ofLines lines)).1.filterMap Event.directive?).Sublist
      ((sp.process true (.ofLines lines)).1.filterMap Event.directive?) := by
  intro kept stripped
  have hstep : List.Forall₂ Scanned.InStep kept stripped := forall₂_scan sp lines rfl rfl rfl rfl
  have hlex : kept.map (·.after.lex) = stripped.map (·.after.lex) := by
    rw [← List.forall₂_eq_eq_eq, List.forall₂_map_left_iff, List.forall₂_map_right_iff]
    exact hstep.imp fun _ _ h => h.after
  have hfault : (delivered (sp.lineItems (.start false) lines)).2 =
      (delivered (sp.lineItems (.start true) lines)).2 := by
    rw [fault_lineItems, fault_lineItems]
    exact congrArg (fun states => (states.getLast?.getD .plain).fault?) hlex
  refine ⟨scan_map_line sp _ lines, hlex, fun n => ?_, hstep, ?_⟩
  · rw [split_eq_error, split_eq_error, items_ofLines, items_ofLines, hfault]
  · rw [fst_process, fst_process, items_ofLines, items_ofLines, directives_lineItems, directives_lineItems]
    exact directives_sublist hstep

/-- A line that closes a comment is a directive only with comments stripped. -/
example : unix.split true (.ofLines [.of "a /*", .of "*/ GO"]) = .ok [.batch (.of "a "), .directive ⟨.of "GO", none⟩] ∧
    unix.split false (.ofLines [.of "a /*", .of "*/ GO"]) = .ok [.batch (.of "a /*\n*/ GO\n")] :=
  ⟨rfl, rfl⟩

end Splitter

end BatchMigrate
