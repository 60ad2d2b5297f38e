import BatchMigrate.Proofs.Script.Rescan

/-!
# Reading one character at a time

`Mode.mark` reads the two characters of a marker at once. `Cursor` remembers the first half of a marker instead, so that a
text is read one character at a time, and the place that it leads to is a fold over its characters (`Cursor.after`). The two
readings agree (`Mode.mark_eq_marks`). A text can be cut anywhere: what follows the cut is read from the place that was come
to (`Cursor.drop_marks`), and what precedes it is marked in the same way on its own, unless a marker that opens a comment
goes across the cut (`Cursor.marks_append`).
-/

namespace BatchMigrate

/-- The place that the reading of a text has come to. -/
inductive Cursor
  /-- Outside comments, and not after the first half of a marker. -/
  | plain
  /-- Outside comments after a slash, which an asterisk makes a marker. -/
  | slash
  /-- Outside comments after a hyphen, which another one makes a marker. -/
  | hyphen
  /-- Inside a comment that ends at the next line feed. -/
  | lineComment
  /-- Inside a block comment, and not after an asterisk of it. -/
  | blockComment
  /-- Inside a block comment after an asterisk of it, which a slash makes its end. -/
  | star
  deriving DecidableEq, Repr

/-- The place at which a reading begins. -/
def Mode.cursor : Mode → Cursor
  | plain => .plain
  | lineComment => .lineComment
  | blockComment => .blockComment

namespace Cursor

/-- The kind of text at the place. -/
def mode : Cursor → Mode
  | plain => .plain
  | slash => .plain
  | hyphen => .plain
  | lineComment => .lineComment
  | blockComment => .blockComment
  | star => .blockComment

/-- The place after a character outside comments that completes no marker. -/
def outside (c : Char) : Cursor := if c = '/' then slash else if c = '-' then hyphen else plain

/-- The place after a character of a block comment that does not end it. -/
def inside (c : Char) : Cursor := if c = '*' then star else blockComment

/-- The place after one more character. -/
def next (q : Cursor) (c : Char) : Cursor :=
  match q with
  | plain => outside c
  | slash => if c = '*' then blockComment else outside c
  | hyphen => if c = '-' then lineComment else outside c
  | lineComment => if c = '\n' then plain else lineComment
  | blockComment => inside c
  | star => if c = '/' then plain else inside c

/-- The place after a text. -/
def after (q : Cursor) (t : Text) : Cursor := t.foldl next q

/-- A character and the one behind it, if there is one, open a comment. -/
def opens (c : Char) (following : Option Char) : Bool := following.any fun d => Opens c d

/-- The next character belongs to a comment. -/
def inComment (q : Cursor) (c : Char) (following : Option Char) : Bool :=
  match q with
  | plain => opens c following
  | slash => c = '*' || opens c following
  | hyphen => c = '-' || opens c following
  | lineComment => c ≠ '\n'
  | blockComment => true
  | star => true

/-- The characters of a text with their marks. -/
def marks : Cursor → Text → List Mark
  | _, [] => []
  | q, c :: r => ⟨c, q.inComment c r.head?⟩ :: marks (q.next c) r

/-- The character that completes the marker whose first half has been read. -/
def secondHalf : Cursor → Option Char
  | slash => some '*'
  | hyphen => some '-'
  | star => some '/'
  | _ => none

/-- The text does not complete a marker. -/
def Apart (q : Cursor) (t : Text) : Prop := ∀ c ∈ t.head?, q.secondHalf ≠ some c

/-! ## Texts in a row -/

theorem after_cons (q : Cursor) (c : Char) (t : Text) : q.after (c :: t) = (q.next c).after t := rfl

theorem after_append (q : Cursor) (t u : Text) : q.after (t ++ u) = (q.after t).after u := List.foldl_append

theorem length_marks : ∀ (q : Cursor) (t : Text), (q.marks t).length = t.length
  | _, [] => rfl
  | q, c :: t => congrArg Nat.succ (length_marks (q.next c) t)

/-- The end of a text is read from the place that was come to. -/
theorem drop_marks : ∀ (q : Cursor) (t u : Text), (q.marks (t ++ u)).drop t.length = (q.after t).marks u
  | _, [], _ => rfl
  | q, c :: t, u => drop_marks (q.next c) t u

/-- The mark of the next character, and those behind it. -/
theorem marks_of_prefix {q : Cursor} {m : Mark} {ms : List Mark} {c : Char} {r : Text} (h : m :: ms <+: q.marks (c :: r)) :
    q.inComment c r.head? = m.inComment ∧ ms <+: (q.next c).marks r := by
  obtain ⟨rfl, hms⟩ := List.cons_prefix_cons.1 h
  exact ⟨rfl, hms⟩

theorem mode_outside (c : Char) : (outside c).mode = .plain := by
  unfold outside
  split
  · rfl
  · split <;> rfl

theorem mode_inside (c : Char) : (inside c).mode = .blockComment := by
  unfold inside
  split <;> rfl

theorem secondHalf_outside (c d : Char) : (outside c).secondHalf = some d ↔ Opens c d := by
  by_cases hslash : c = '/'
  · simp [hslash, outside, secondHalf, Opens, eq_comm]
  · by_cases hhyphen : c = '-'
    · simp [hhyphen, outside, secondHalf, Opens, eq_comm]
    · simp [hslash, hhyphen, outside, secondHalf, Opens]

theorem secondHalf_inside (c d : Char) : (inside c).secondHalf = some d ↔ c = '*' ∧ d = '/' := by
  by_cases hstar : c = '*'
  · simp [hstar, inside, secondHalf, eq_comm]
  · simp [hstar, inside, secondHalf]

/-- Outside comments, a text completes a marker iff it opens a comment with the character before it. -/
theorem apart_outside {c : Char} {t : Text} : (outside c).Apart t ↔ opens c t.head? = false := by
  cases t with
  | nil => simp [Apart, opens]
  | cons d r => simp [Apart, secondHalf_outside, opens]

/-- A character before a cut is marked by what follows the cut only if the two are a marker. -/
theorem inComment_of_apart {q : Cursor} {c : Char} {u : Text} (h : (q.next c).mode = .plain → (q.next c).Apart u) :
    q.inComment c u.head? = q.inComment c none := by
  have houtside : q.next c = outside c → opens c u.head? = opens c none := by
    intro hq
    rw [hq] at h
    rw [apart_outside.1 (h (mode_outside c))]
    simp [opens]
  cases q with
  | plain => exact houtside rfl
  | slash =>
    by_cases hc : c = '*'
    · simp [inComment, hc]
    · simp only [inComment, houtside (if_neg hc)]
  | hyphen =>
    by_cases hc : c = '-'
    · simp [inComment, hc]
    · simp only [inComment, houtside (if_neg hc)]
  | lineComment => rfl
  | blockComment => rfl
  | star => rfl

/-- **Texts in a row.** If no marker that opens a comment goes across the place where a text is cut, its two parts are marked
one after the other. -/
theorem marks_append : ∀ {q : Cursor} {t u : Text}, ((q.after t).mode = .plain → (q.after t).Apart u) →
    q.marks (t ++ u) = q.marks t ++ (q.after t).marks u
  | _, [], _, _ => rfl
  | q, [c], u, h => by
    rw [List.singleton_append, marks, inComment_of_apart h]
    rfl
  | q, c :: d :: t, u, h => by
    have ih := @marks_append (q.next c) (d :: t) u h
    rw [List.cons_append, marks, ih]
    rfl

/-! ## The two readings -/

/-- A first half that is not completed is of no account. -/
theorem next_of_apart {q : Cursor} {c : Char} (h : q.secondHalf ≠ some c) (following : Option Char) :
    q.next c = q.mode.cursor.next c ∧ q.inComment c following = q.mode.cursor.inComment c following := by
  cases q with
  | plain => exact ⟨rfl, rfl⟩
  | slash =>
    have hc : c ≠ '*' := fun hc => h (by rw [hc]; rfl)
    exact ⟨if_neg hc, by simp [inComment, hc, mode, Mode.cursor]⟩
  | hyphen =>
    have hc : c ≠ '-' := fun hc => h (by rw [hc]; rfl)
    exact ⟨if_neg hc, by simp [inComment, hc, mode, Mode.cursor]⟩
  | lineComment => exact ⟨rfl, rfl⟩
  | blockComment => exact ⟨rfl, rfl⟩
  | star =>
    have hc : c ≠ '/' := fun hc => h (by rw [hc]; rfl)
    exact ⟨if_neg hc, rfl⟩

theorem mode_cursor_mode (q : Cursor) : q.mode.cursor.mode = q.mode := by cases q <;> rfl

/-- A text that does not complete a marker is read as from where none has begun. -/
theorem marks_of_apart {q : Cursor} {t : Text} (h : q.Apart t) :
    q.marks t = q.mode.cursor.marks t ∧ (q.after t).mode = (q.mode.cursor.after t).mode := by
  cases t with
  | nil => exact ⟨rfl, q.mode_cursor_mode.symm⟩
  | cons c r =>
    obtain ⟨hnext, hcomment⟩ := next_of_apart (h c rfl) r.head?
    rw [marks, marks, after_cons, after_cons, hnext, hcomment]
    exact ⟨rfl, rfl⟩

end Cursor

/-- **The two readings agree.** -/
theorem Mode.mark_eq_marks (mode : Mode) (t : Text) : mode.mark t = (mode.cursor.marks t, (mode.cursor.after t).mode) := by
  fun_induction mark mode t with
  | case1 mode => cases mode <;> rfl
  | case2 r ih => rw [ih]; rfl
  | case3 r ih => rw [ih]; rfl
  | case4 c r hblock hline ih =>
    have hapart : (Cursor.outside c).Apart r := by
      intro d hd hhalf
      obtain ⟨r', rfl⟩ := List.head?_eq_some_iff.1 hd
      rcases (Cursor.secondHalf_outside c d).1 hhalf with ⟨rfl, rfl⟩ | ⟨rfl, rfl⟩
      · exact hblock r' rfl rfl
      · exact hline r' rfl rfl
    have hcode := Cursor.apart_outside.1 hapart
    obtain ⟨hmarks, hafter⟩ := Cursor.marks_of_apart hapart
    rw [Cursor.mode_outside] at hmarks hafter
    rw [ih, cursor, Cursor.marks, Cursor.after_cons, Cursor.inComment, Cursor.next, hmarks, hafter, hcode]
    rfl
  | case5 r ih => rw [ih]; rfl
  | case6 c r hbreak ih =>
    have hc : c ≠ '\n' := fun hc => hbreak hc
    rw [ih, cursor, Cursor.marks, Cursor.after_cons, Cursor.inComment, Cursor.next, if_neg hc]
    simp [hc, Mark.comment]
  | case7 r ih => rw [ih]; rfl
  | case8 c r hclose ih =>
    have hapart : (Cursor.inside c).Apart r := by
      intro d hd hhalf
      obtain ⟨r', rfl⟩ := List.head?_eq_some_iff.1 hd
      obtain ⟨rfl, rfl⟩ := (Cursor.secondHalf_inside c d).1 hhalf
      exact hclose r' rfl rfl
    obtain ⟨hmarks, hafter⟩ := Cursor.marks_of_apart hapart
    rw [Cursor.mode_inside] at hmarks hafter
    rw [ih, cursor, Cursor.marks, Cursor.after_cons, Cursor.next, hmarks, hafter]
    rfl

end BatchMigrate
