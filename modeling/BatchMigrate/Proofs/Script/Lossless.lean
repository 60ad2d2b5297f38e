import BatchMigrate.Proofs.Script.Segments

/-!
# Keeping comments loses nothing

A line that is kept whole joins the batch with the terminator after it, so the batch of a segment is the text of its
lines, each with the terminator. Only the last batch is special: a script whose last lines are nothing, or one empty
line, has no batch there.
-/

namespace BatchMigrate

namespace Scanned

variable {terminator : Text} {x : Scanned}

/-- With comments kept, a line keeps its text. -/
theorem kept_of_keep (h : x.before.stripComments = false) : x.kept = x.line :=
  ScanState.keptText_of_keep h x.line

/-- With comments kept, a line keeps its text and its line break. -/
theorem broken_of_keep (h : x.before.stripComments = false) : x.broken terminator = x.line ++ terminator := by
  simp only [broken, kept_of_keep h, h, Bool.and_false, Bool.false_eq_true, if_false]

/-- With comments kept, lines keep their texts and their line breaks. -/
theorem lastText_of_keep : ∀ {lines : List Scanned}, (∀ x ∈ lines, x.before.stripComments = false) → lines ≠ [] →
    lastText terminator lines ++ terminator = lines.flatMap fun x => x.line ++ terminator
  | [], _, h => absurd rfl h
  | [x], hk, _ => by
    simp only [lastText, kept_of_keep (hk x List.mem_cons_self), List.flatMap_cons, List.flatMap_nil, List.append_nil]
  | x :: y :: rest, hk, _ => by
    have ih := lastText_of_keep (fun z hz => hk z (List.mem_cons_of_mem _ hz))
      (List.cons_ne_nil y rest)
    rw [lastText, List.append_assoc, ih, broken_of_keep (hk x List.mem_cons_self)]
    rfl

/-- With comments kept, the last lines keep no text if there are none of them, or one that is empty. -/
theorem lastText_eq_nil_of_keep (hT : terminator ≠ []) :
    ∀ {lines : List Scanned}, (∀ x ∈ lines, x.before.stripComments = false) →
      (lastText terminator lines = [] ↔ lines.map Scanned.line = [] ∨ lines.map Scanned.line = [[]])
  | [], _ => by simp [lastText]
  | [x], hk => by simp [lastText, kept_of_keep (hk x List.mem_cons_self)]
  | x :: y :: rest, hk => by simp [lastText, broken_of_keep (hk x List.mem_cons_self), hT]

end Scanned

namespace Splitter

/-- The last batch of a script whose comments are kept. -/
def keptLast (terminator : Text) (lines : List Text) : List Event :=
  if lines = [] ∨ lines = [[]] then [] else [.batch (lines.flatMap (· ++ terminator))]

/-- **Keeping comments loses nothing.** Cut a script at its directive lines. Then the events are, for each directive
line in order, the lines before it, each with the terminator after it, and the directive; and at the end the lines
after the last directive line, unless there are none or only one empty line. The cut has each line once and in order. -/
theorem split_keep_lossless (sp : Splitter) {lines : List Text} {events : List Event}
    (h : sp.split false (.ofLines lines) = .ok events) :
    let segments := Segments.cut Scanned.outcome (sp.scan (.start false) lines)
    events = segments.events (fun body => (body.map Scanned.line).flatMap (· ++ sp.terminator))
        (fun rest => keptLast sp.terminator (rest.map Scanned.line)) ∧
      segments.flatten.map Scanned.line = lines := by
  intro segments
  refine ⟨?_, by rw [Segments.flatten_cut, scan_map_line]⟩
  have hitems : sp.lineItems (.start false) lines = events.map .ok := by
    rw [← items_ofLines]
    exact split_eq_ok.1 h
  have hkeep : ∀ x ∈ sp.scan (.start false) lines, x.before.stripComments = false :=
    fun x hx => stripComments_of_mem_scan hx
  have hpending : (ScanState.start false).pending = [] := rfl
  rw [eq_events_of_lineItems hitems, hpending, Segments.eventsAfter_nil]
  apply Segments.events_congr
  · intro body hb
    rw [List.flatMap_map]
    have hbroken : ∀ x ∈ body, x.broken sp.terminator = x.line ++ sp.terminator := fun x hx =>
      Scanned.broken_of_keep (hkeep x (List.dropLast_subset _ (hb hx)))
    exact congrArg List.flatten (List.map_congr_left hbroken)
  · intro rest hr
    have hk : ∀ x ∈ rest, x.before.stripComments = false := fun x hx => hkeep x (hr.subset hx)
    have hnil := Scanned.lastText_eq_nil_of_keep sp.terminator_ne_nil hk
    simp only [Scanned.lastEvents, keptLast, List.nil_append, hnil]
    by_cases hl : rest.map Scanned.line = [] ∨ rest.map Scanned.line = [[]]
    · simp only [hl, if_true]
    · have hne : rest ≠ [] := fun he => hl (Or.inl (by rw [he]; rfl))
      simp only [hl, hne, if_false, Scanned.lastText_of_keep hk hne, List.flatMap_map]

/-- A separator inside a comment, one with a comment after it, an empty line and an empty last line. -/
theorem split_keep_lossless_comments :
    let lines : List Text := [.of "a /*", .of "GO", .of "*/ -- b", .of "go 2 -- twice", [], .of "GO", []]
    let events : List Event := [.batch (.of "a /*\nGO\n*/ -- b\n"), .directive ⟨.of "go 2", some 2⟩,
      .batch (.of "\n"), .directive ⟨.of "GO", none⟩]
    let segments := Segments.cut Scanned.outcome (unix.scan (.start false) lines)
    unix.split false (.ofLines lines) = .ok events ∧
      events = segments.events (fun body => (body.map Scanned.line).flatMap (· ++ unix.terminator))
        (fun rest => keptLast unix.terminator (rest.map Scanned.line)) ∧
      segments.flatten.map Scanned.line = lines :=
  ⟨rfl, split_keep_lossless unix rfl⟩

end Splitter

end BatchMigrate
