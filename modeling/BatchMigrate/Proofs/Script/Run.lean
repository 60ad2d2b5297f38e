import BatchMigrate.Proofs.Script.Scan
import BatchMigrate.Script.Run

/-!
# What a run gives

A run that is asked again and again gives the items of its source in order, and then nothing for ever: `Run.remaining`
is what it has still to give, each request takes the first of it (`Run.takes_next`), and `Run.pull_eq` says what any number
of requests gives.
-/

namespace BatchMigrate.Run

variable {sp : Splitter}

/-- What a run has still to give after the directive that is queued. -/
def unread (sp : Splitter) (r : Run) : List Item :=
  match r.phase with
  | .over => []
  | .reading none => Splitter.closing r.scan
  | .reading (some held) => sp.itemsFrom r.scan held r.source.answers
  | .fresh =>
    match r.source.answers with
    | .failed fault :: _ => [.error (.source fault)]
    | .line first :: answers => sp.itemsFrom r.scan first answers
    | _ => Splitter.closing r.scan

/-- What a run has still to give. -/
def remaining (sp : Splitter) (r : Run) : List Item :=
  match r.queued with
  | some d => .ok (.directive d) :: r.unread sp
  | none => r.unread sp

/-- A result and the run after it take the first one of some items. -/
def Takes (sp : Splitter) (result : Option Item × Run) (items : List Item) : Prop :=
  result.1 = items.head? ∧ result.2.remaining sp = items.tail

/-- The end of a script takes what is pending. -/
theorem takes_close (source : Source) (s : ScanState) : Takes sp (close source s) (Splitter.closing s) := by
  unfold close Splitter.closing
  cases hf : s.finish with
  | mk result scan =>
    cases result with
    | error fault => exact ⟨rfl, rfl⟩
    | ok sql => cases sql <;> exact ⟨rfl, rfl⟩

/-- The last line takes what it closes. -/
theorem takes_lastLine (source : Source) (s : ScanState) (held : Text) {answers : List Answer}
    (ha : answers = [] ∨ ∃ rest, answers = .finished :: rest) :
    Takes sp (lastLine sp source s held) (sp.itemsFrom s held answers) := by
  have hitems : sp.itemsFrom s held answers = sp.itemsFrom s held [] := by
    rcases ha with rfl | ⟨rest, rfl⟩ <;> rfl
  rw [hitems]
  unfold lastLine Splitter.itemsFrom
  rcases sp.scanLine_cases held true s with ⟨d, _, he⟩ | ⟨_, he⟩
  · rw [he]
    exact ⟨rfl, rfl⟩
  · rw [he]
    exact takes_close source _

/-- Reading on takes the first item that the lines to come hold. -/
theorem takes_advance : ∀ (answers : List Answer) (s : ScanState) (held : Text) (asked : Nat),
    Takes sp (advance sp s held asked answers) (sp.itemsFrom s held answers)
  | [], s, held, _ => takes_lastLine _ s held (Or.inl rfl)
  | .finished :: rest, s, held, _ => takes_lastLine _ s held (Or.inr ⟨rest, rfl⟩)
  | .failed fault :: rest, s, held, _ => ⟨rfl, rfl⟩
  | .line ahead :: rest, s, held, asked => by
    unfold advance Splitter.itemsFrom
    rcases sp.scanLine_cases held false s with ⟨d, _, he⟩ | ⟨_, he⟩
    · rw [he]
      exact ⟨rfl, rfl⟩
    · rw [he]
      exact takes_advance rest _ ahead (asked + 1)

/-- **One request** takes the first item of what remains. -/
theorem takes_next (sp : Splitter) : ∀ r : Run, Takes sp (r.next sp) (r.remaining sp)
  | ⟨_, _, _, some _⟩ => ⟨rfl, rfl⟩
  | ⟨_, _, .over, none⟩ => ⟨rfl, rfl⟩
  | ⟨source, scan, .reading none, none⟩ => takes_close source scan
  | ⟨source, scan, .reading (some held), none⟩ => takes_advance source.answers scan held source.asked
  | ⟨⟨[], _⟩, scan, .fresh, none⟩ => takes_close _ scan
  | ⟨⟨.line first :: rest, asked⟩, scan, .fresh, none⟩ => takes_advance rest scan first (asked + 1)
  | ⟨⟨.finished :: _, _⟩, scan, .fresh, none⟩ => takes_close _ scan
  | ⟨⟨.failed _ :: _, _⟩, _, .fresh, none⟩ => ⟨rfl, rfl⟩

/-- The results of some requests. -/
def pull (sp : Splitter) : Nat → Run → List (Option Item)
  | 0, _ => []
  | n + 1, r => (r.next sp).1 :: pull sp n (r.next sp).2

/-- **Any number of requests** gives what remains, item by item, and then nothing. -/
theorem pull_eq (n : Nat) (r : Run) : pull sp n r = (List.range n).map fun i => (r.remaining sp)[i]? := by
  induction n generalizing r with
  | zero => rfl
  | succ n ih =>
    obtain ⟨hhead, htail⟩ := takes_next sp r
    rw [pull, ih, htail, hhead, List.range_succ_eq_map, List.map_cons, List.map_map]
    congr 1
    · exact List.head?_eq_getElem?
    · refine List.map_congr_left fun i _ => ?_
      rw [Function.comp_apply, List.getElem?_tail]

/-- A run that begins has the items of its source to give. -/
theorem remaining_start (sp : Splitter) (stripComments : Bool) (source : Source) :
    (start stripComments source).remaining sp = sp.items stripComments source := rfl

/-- What a run gives whose items begin with some events: these events, and then what a run over the other items gives. -/
theorem pull_append {r' : Run} {f : Item → Item} (n : Nat) : ∀ {events : List Event} {r : Run},
    r.remaining sp = events.map .ok ++ (r'.remaining sp).map f →
      pull sp (events.length + n) r = events.map (fun e => some (.ok e)) ++ (pull sp n r').map (Option.map f)
  | [], r, h => by
    simp only [List.map_nil, List.nil_append] at h ⊢
    rw [List.length_nil, Nat.zero_add, pull_eq, pull_eq, h, List.map_map]
    refine List.map_congr_left fun i _ => ?_
    rw [Function.comp_apply, List.getElem?_map]
  | e :: events, r, h => by
    obtain ⟨hhead, htail⟩ := takes_next sp r
    rw [h] at hhead htail
    rw [List.length_cons, Nat.succ_add, pull, hhead, pull_append n htail]
    rfl

end BatchMigrate.Run
