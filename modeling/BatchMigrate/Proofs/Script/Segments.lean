import BatchMigrate.Proofs.Script.Scan

/-!
# Scripts cut at their directives

`Segments.cut` cuts a list of lines at those that are directives: each segment holds the lines before its directive, and
`rest` the lines after the last one. When a script splits, each segment is the batch of what its lines keep, followed by
its directive, and the rest is the last batch (`Splitter.eq_events_of_lineItems`). A line keeps its line break unless the
break lies inside a stripped block comment (`Scanned.broken`); the last line of the script gets one if the last batch
holds anything (`Scanned.lastEvents`).
-/

namespace BatchMigrate

/-- Lines that a directive closes. -/
structure Segment (α : Type) where
  /-- The lines before the directive. -/
  body : List α
  /-- The line of the directive. -/
  line : α
  directive : Directive

/-- Lines that are cut at the directives among them. -/
structure Segments (α : Type) where
  closed : List (Segment α)
  /-- The lines after the last directive. -/
  rest : List α

namespace Segments

variable {α : Type}

/-- One more line at the front. -/
def cons (a : α) : Segments α → Segments α
  | ⟨[], rest⟩ => ⟨[], a :: rest⟩
  | ⟨g :: closed, rest⟩ => ⟨{ g with body := a :: g.body } :: closed, rest⟩

/-- Cuts lines at the directives. -/
def cut (outcome : α → LineOutcome) : List α → Segments α
  | [] => ⟨[], []⟩
  | a :: lines =>
    match outcome a with
    | .content => (cut outcome lines).cons a
    | .directive d => ⟨⟨[], a, d⟩ :: (cut outcome lines).closed, (cut outcome lines).rest⟩

/-- The lines in order. -/
def flatten (s : Segments α) : List α := (s.closed.flatMap fun g => g.body ++ [g.line]) ++ s.rest

/-- The events of segments: each has a batch with the text of its lines and a directive, and `last` gives the events of
the rest. -/
def events (text : List α → Text) (last : List α → List Event) (s : Segments α) : List Event :=
  (s.closed.flatMap fun g => [.batch (text g.body), .directive g.directive]) ++ last s.rest

/-- The lists of lines that a cut leaves. -/
def bodies (s : Segments α) : List (List α) := s.closed.map Segment.body ++ [s.rest]

theorem mem_bodies {s : Segments α} {body : List α} :
    body ∈ s.bodies ↔ body = s.rest ∨ ∃ g ∈ s.closed, body = g.body := by
  rw [bodies, List.mem_append, List.mem_map, List.mem_singleton, or_comm]
  simp only [eq_comm]

/-- The lines of a list that a cut leaves are among its lines. -/
theorem mem_flatten_of_mem_bodies {s : Segments α} {body : List α} (hbody : body ∈ s.bodies) {a : α} (ha : a ∈ body) :
    a ∈ s.flatten := by
  rcases mem_bodies.1 hbody with rfl | ⟨g, hg, rfl⟩
  · exact List.mem_append_right _ ha
  · exact List.mem_append_left _ (List.mem_flatMap.2 ⟨g, hg, List.mem_append_left _ ha⟩)

theorem flatten_cons (a : α) (s : Segments α) : (s.cons a).flatten = a :: s.flatten := by
  obtain ⟨closed, rest⟩ := s
  cases closed <;> simp [cons, flatten]

variable (outcome : α → LineOutcome)

/-- No line is lost or moved by the cut. -/
theorem flatten_cut (lines : List α) : (cut outcome lines).flatten = lines := by
  induction lines with
  | nil => rfl
  | cons a lines ih =>
    unfold cut
    split
    · rw [flatten_cons, ih]
    · exact congrArg (a :: ·) ih

variable {outcome}

/-- Without a directive, all lines are left. -/
theorem rest_of_closed_nil {lines : List α} (h : (cut outcome lines).closed = []) :
    (cut outcome lines).rest = lines := by
  have hf := flatten_cut outcome lines
  rw [flatten, h] at hf
  exact hf

/-- What is left is the end of the script. -/
theorem rest_suffix (lines : List α) : (cut outcome lines).rest <:+ lines :=
  ⟨_, flatten_cut outcome lines⟩

/-- A line before a directive is not the last line. -/
theorem mem_dropLast_of_mem_body {lines : List α} {g : Segment α} (hg : g ∈ (cut outcome lines).closed) {a : α}
    (ha : a ∈ g.body) : a ∈ lines.dropLast := by
  obtain ⟨before, after, he⟩ := List.append_of_mem hg
  have hf := flatten_cut outcome lines
  rw [flatten, he] at hf
  simp only [List.flatMap_append, List.flatMap_cons, List.append_assoc, List.singleton_append] at hf
  rw [← hf, List.dropLast_append_of_ne_nil (by simp), List.dropLast_append_of_ne_nil (by simp)]
  exact List.mem_append_right _ (List.mem_append_left _ ha)

/-- The segments with all lines replaced. -/
def map {β : Type} (f : α → β) (s : Segments α) : Segments β :=
  ⟨s.closed.map fun g => ⟨g.body.map f, f g.line, g.directive⟩, s.rest.map f⟩

theorem map_cons {β : Type} (f : α → β) (a : α) (s : Segments α) : (s.cons a).map f = (s.map f).cons (f a) := by
  obtain ⟨closed, rest⟩ := s
  cases closed <;> rfl

theorem cut_map {β : Type} (outcome : β → LineOutcome) (f : α → β) (lines : List α) :
    cut outcome (lines.map f) = (cut (outcome ∘ f) lines).map f := by
  induction lines with
  | nil => rfl
  | cons a lines ih =>
    simp only [List.map_cons, cut, Function.comp_apply, ih]
    split
    · exact (map_cons f a _).symm
    · rfl

theorem events_map {β : Type} (f : α → β) (s : Segments α) (text : List β → Text) (last : List β → List Event) :
    (s.map f).events text last = s.events (fun body => text (body.map f)) (fun rest => last (rest.map f)) := by
  simp only [events, map, List.flatMap_map]

/-- The events of a cut depend on the texts of lists of its lines only. -/
theorem events_congr {lines : List α} {text text' : List α → Text} {last last' : List α → List Event}
    (ht : ∀ body, body ⊆ lines.dropLast → text body = text' body) (hl : ∀ rest, rest <:+ lines → last rest = last' rest) :
    (cut outcome lines).events text last = (cut outcome lines).events text' last' := by
  unfold events
  rw [hl _ (rest_suffix lines), List.flatMap_def, List.flatMap_def]
  congr 2
  refine List.map_congr_left fun g hg => ?_
  rw [ht g.body fun a ha => mem_dropLast_of_mem_body hg ha]

end Segments

/-! ## What lines keep -/

namespace Scanned

/-- The text of the line that a batch keeps. -/
def kept (x : Scanned) : Text := x.before.keptText x.line

/-- What a batch keeps of a line that is not the last one. -/
def broken (terminator : Text) (x : Scanned) : Text :=
  x.kept ++ if x.after.lex.inBlock && x.before.stripComments then [] else terminator

/-- What a batch keeps of lines of which the last one ends the script, without the terminator of that line. -/
def lastText (terminator : Text) : List Scanned → Text
  | [] => []
  | [x] => x.kept
  | x :: y :: rest => x.broken terminator ++ lastText terminator (y :: rest)

/-- The last batch of a script, when some text is pending before its last lines. -/
def lastEvents (terminator pending : Text) (lines : List Scanned) : List Event :=
  if pending ++ lastText terminator lines = [] then []
  else if lines = [] then [.batch pending]
  else [.batch (pending ++ lastText terminator lines ++ terminator)]

theorem lastText_cons {terminator : Text} (x : Scanned) {rest : List Scanned} (h : rest ≠ []) :
    lastText terminator (x :: rest) = x.broken terminator ++ lastText terminator rest := by
  cases rest with
  | nil => exact absurd rfl h
  | cons y rest => rfl

end Scanned

/-! ## The events of a script -/

/-- The events of scanned segments, when some text is pending before the first line. -/
def Segments.eventsAfter (terminator pending : Text) : Segments Scanned → List Event
  | ⟨[], rest⟩ => Scanned.lastEvents terminator pending rest
  | ⟨g :: closed, rest⟩ =>
    .batch (pending ++ g.body.flatMap (Scanned.broken terminator)) :: .directive g.directive ::
      Segments.events (List.flatMap (Scanned.broken terminator)) (Scanned.lastEvents terminator []) ⟨closed, rest⟩

theorem Segments.eventsAfter_nil (terminator : Text) (s : Segments Scanned) :
    s.eventsAfter terminator [] =
      s.events (List.flatMap (Scanned.broken terminator)) (Scanned.lastEvents terminator []) := by
  obtain ⟨closed, rest⟩ := s
  cases closed <;> rfl

/-- A line in front of a script that goes on is text that was pending before. -/
theorem Segments.eventsAfter_cons (terminator pending : Text) (x : Scanned) {s : Segments Scanned}
    (h : s.closed = [] → s.rest ≠ []) :
    (s.cons x).eventsAfter terminator pending = s.eventsAfter terminator (pending ++ x.broken terminator) := by
  obtain ⟨closed, rest⟩ := s
  cases closed with
  | nil =>
    have hr : rest ≠ [] := h rfl
    simp only [cons, eventsAfter, Scanned.lastEvents, Scanned.lastText_cons x hr, List.append_assoc, hr, if_false,
      reduceCtorEq]
  | cons g closed => simp only [cons, eventsAfter, List.flatMap_cons, List.append_assoc]

namespace Splitter

variable {sp : Splitter}

theorem mem_scan_of_mem_bodies {s : ScanState} {lines : List Text} {body : List Scanned}
    (hbody : body ∈ (Segments.cut Scanned.outcome (sp.scan s lines)).bodies) {x : Scanned} (hx : x ∈ body) :
    x ∈ sp.scan s lines := by
  have hmem := Segments.mem_flatten_of_mem_bodies hbody hx
  rwa [Segments.flatten_cut] at hmem

/-- The pending text after a line that is not the last one. -/
theorem pending_absorb (s : ScanState) (line : Text) :
    (s.absorb sp.terminator line false).pending =
      s.pending ++ Scanned.broken sp.terminator ⟨s, line, .content, s.absorb sp.terminator line false⟩ := by
  have hl : (s.absorb sp.terminator line false).lex = (s.advance line).lex := rfl
  simp only [Scanned.broken, Scanned.kept, hl]
  simp only [ScanState.absorb, ScanState.terminate, Bool.false_eq_true, if_false]
  split
  · rw [List.append_nil]
  · rw [List.append_assoc]

/-- What is pending after the last line is the last batch. -/
theorem lastEvents_absorb (s : ScanState) (line : Text) (after : ScanState) :
    Scanned.lastEvents sp.terminator (s.absorb sp.terminator line true).pending [] =
      Scanned.lastEvents sp.terminator s.pending [⟨s, line, .content, after⟩] := by
  have hT := sp.terminator_ne_nil
  simp only [Scanned.lastEvents, Scanned.lastText, Scanned.kept, ScanState.absorb, ScanState.terminate, if_true,
    List.append_nil, reduceCtorEq, if_false]
  by_cases hp : s.pending ++ s.keptText line = []
  · simp only [hp, if_true]
  · simp only [hp, if_false, List.append_eq_nil_iff, hT, and_false]

theorem map_ok_injective {a b : List Event} (h : a.map (Except.ok : Event → Item) = b.map .ok) : a = b :=
  (List.map_inj_right fun _ _ he => Except.ok.inj he).1 h

theorem eq_cons_cons_of_map_ok {e₁ e₂ : Event} {items : List Item} {events : List Event}
    (h : .ok e₁ :: .ok e₂ :: items = events.map .ok) : ∃ rest, events = e₁ :: e₂ :: rest ∧ items = rest.map .ok := by
  obtain ⟨_, tail, rfl, h₁, ht⟩ := List.map_eq_cons_iff.1 h.symm
  obtain ⟨_, rest, rfl, h₂, hr⟩ := List.map_eq_cons_iff.1 ht
  cases h₁
  cases h₂
  exact ⟨rest, rfl, hr.symm⟩

theorem closing_eq_lastEvents {s : ScanState} {events : List Event} (h : closing s = events.map .ok) :
    events = Scanned.lastEvents sp.terminator s.pending [] := by
  have hlast : Scanned.lastEvents sp.terminator s.pending [] = if s.pending = [] then [] else [.batch s.pending] := by
    simp only [Scanned.lastEvents, Scanned.lastText, List.append_nil, if_true]
  cases hl : s.lex with
  | blockComment k =>
    rw [closing_of_blockComment hl] at h
    cases events <;> cases h
  | plain | lineComment =>
    rw [closing_of_not_inBlock (by rw [hl]; rfl)] at h
    rw [hlast]
    apply map_ok_injective
    rw [← h]
    split <;> rfl

/-- **The events of a script** are those of its segments. -/
theorem eq_events_of_lineItems : ∀ {lines : List Text} {s : ScanState} {events : List Event},
    sp.lineItems s lines = events.map .ok →
      events = (Segments.cut Scanned.outcome (sp.scan s lines)).eventsAfter sp.terminator s.pending
  | [], s, events, h => closing_eq_lastEvents h
  | line :: rest, s, events, h => by
    cases hd : s.directive? sp.separator line with
    | some d =>
      rw [lineItems_of_directive hd] at h
      obtain ⟨tail, rfl, ht⟩ := eq_cons_cons_of_map_ok h
      have ih := eq_events_of_lineItems ht
      rw [scan_of_directive hd]
      simp only [Segments.cut, Segments.eventsAfter, List.flatMap_nil, List.append_nil]
      rw [ih]
      exact congrArg _ (congrArg _ (Segments.eventsAfter_nil _ _))
    | none =>
      rw [lineItems_of_content hd] at h
      have ih := eq_events_of_lineItems h
      rw [ih, scan_of_content hd]
      simp only [Segments.cut]
      cases rest with
      | nil => exact lastEvents_absorb s line _
      | cons next rest =>
        rw [Segments.eventsAfter_cons]
        · exact congrArg (Segments.eventsAfter _ · _) (pending_absorb s line)
        · intro hc
          rw [Segments.rest_of_closed_nil hc]
          exact scan_ne_nil (List.cons_ne_nil next rest)

end Splitter

end BatchMigrate
