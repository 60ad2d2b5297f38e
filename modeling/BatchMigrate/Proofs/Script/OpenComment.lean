import Mathlib.Algebra.Ring.Nat
import Mathlib.Logic.Relation
import BatchMigrate.Proofs.Script.SeparatorLine

/-!
# Comments that are never closed

Outside comments a script is read from place to place (`Place.Step`): past a character with which no comment opens, past
the end of a line, past a comment that ends with its line, or past a block comment up to the first place where it is
closed, on its own line or on a later one. No step changes the state of comments in which the script ends
(`Place.Step.final_eq`), and reading only stops at the end of the script, in a comment that ends with the last line, or
before a block comment that nothing closes (`Place.exists_step`). So a script ends in a block comment exactly if reading
comes to such a one, and the line that is reported is the line in which it opens (`Splitter.split_eq_unterminated_iff`).
-/

namespace BatchMigrate

/-! ## Block comments that are not closed -/

namespace Lex

/-- A block comment that no line closes stays open. -/
theorem afterLines_open (k : Nat) : ∀ {lines : List Text} (n : Nat), (∀ line ∈ lines, ¬['*', '/'] <:+: line) →
    afterLines n (blockComment k) lines = blockComment k
  | [], _, _ => rfl
  | line :: lines, n, h => by
    obtain ⟨hline, hlines⟩ := List.forall_mem_cons.1 h
    rw [afterLines, mark_blockComment_open _ _ hline]
    exact afterLines_open k (n + 1) hlines

end Lex

/-! ## Reading outside comments -/

/-- A place in a script: the number of a line, what is left of that line, and the lines after it. -/
structure Place where
  number : Nat
  rest : Text
  later : List Text

namespace Place

/-- The place before the first line. -/
def start (lines : List Text) : Place := ⟨0, [], lines⟩

/-- Outside comments, reading goes on from the one place to the other. -/
inductive Step : Place → Place → Prop
  /-- Past a character with which no comment opens. -/
  | code {n : Nat} {c : Char} {rest : Text} {later : List Text} (h : ∀ d ∈ rest.head?, ¬Opens c d) :
      Step ⟨n, c :: rest, later⟩ ⟨n, rest, later⟩
  /-- Past the end of a line. -/
  | lineEnd {n : Nat} {next : Text} {later : List Text} : Step ⟨n, [], next :: later⟩ ⟨n + 1, next, later⟩
  /-- Past a comment that ends with its line. -/
  | lineComment {n : Nat} {body next : Text} {later : List Text} :
      Step ⟨n, '-' :: '-' :: body, next :: later⟩ ⟨n + 1, next, later⟩
  /-- Past a block comment that is closed on its line. -/
  | block {n : Nat} {body rest : Text} {later : List Text} (hbody : ¬['*', '/'] <:+: body) :
      Step ⟨n, '/' :: '*' :: (body ++ '*' :: '/' :: rest), later⟩ ⟨n, rest, later⟩
  /-- Past a block comment that is closed on a later line. -/
  | longBlock {n : Nat} {body last rest : Text} {between later : List Text} (hbody : ¬['*', '/'] <:+: body)
      (hbetween : ∀ line ∈ between, ¬['*', '/'] <:+: line) (hlast : ¬['*', '/'] <:+: last) :
      Step ⟨n, '/' :: '*' :: body, between ++ (last ++ '*' :: '/' :: rest) :: later⟩
        ⟨n + between.length + 1, rest, later⟩

/-- Reading the lines comes to the place outside comments. -/
def Outside (lines : List Text) (p : Place) : Prop := Relation.ReflTransGen Step (start lines) p

/-- A block comment opens at the place, and neither the rest of its line nor a later line closes it. -/
def Unclosed (p : Place) : Prop :=
  ∃ body, p.rest = '/' :: '*' :: body ∧ ¬['*', '/'] <:+: body ∧ ∀ line ∈ p.later, ¬['*', '/'] <:+: line

/-- The state of comments in which the script ends, when the place stands outside comments. -/
def final (p : Place) : Lex := Lex.afterLines p.number (Lex.plain.mark p.number p.rest).2.atLineEnd p.later

/-- The number of characters and line ends to come. -/
def size (p : Place) : Nat := p.rest.length + (p.later.map (·.length + 1)).sum

variable {p q : Place} {lines : List Text} {k : Nat}

/-! ## One step -/

/-- **No step changes how the script ends.** -/
theorem Step.final_eq (h : Step p q) : p.final = q.final := by
  cases h with
  | code h => rw [final, final, Lex.mark_of_not_opens _ h]
  | lineEnd => rfl
  | lineComment =>
    rw [final, Lex.mark, Lex.mark_lineComment]
    rfl
  | block hbody => rw [final, final, Lex.mark_block _ hbody]
  | longBlock hbody hbetween hlast =>
    rw [final, final, Lex.mark, Lex.mark_blockComment_open _ _ hbody]
    -- the end of a line does not end the comment
    show Lex.afterLines _ (.blockComment _) _ = _
    rw [Lex.afterLines_append, Lex.afterLines_open _ _ hbetween, Lex.afterLines, Lex.mark_blockComment _ _ _ hlast]

theorem Step.size_lt (h : Step p q) : q.size < p.size := by
  cases h <;> simp only [size, List.length_cons, List.length_append, List.length_nil, List.map_cons, List.map_append,
    List.sum_cons, List.sum_append] <;> omega

/-- **Reading goes on** unless it stands before a block comment that nothing closes, or the script ends outside. -/
theorem exists_step : ∀ p : Place, (∃ q, Step p q) ∨ p.Unclosed ∨ p.final = .plain
  | ⟨n, [], []⟩ => .inr (.inr rfl)
  | ⟨n, [], next :: later⟩ => .inl ⟨_, .lineEnd⟩
  | ⟨n, c :: rest, later⟩ => by
    by_cases hopens : ∃ d ∈ rest.head?, Opens c d
    · obtain ⟨d, hd, hopens⟩ := hopens
      obtain ⟨body, rfl⟩ := List.head?_eq_some_iff.1 hd
      rcases hopens with ⟨rfl, rfl⟩ | ⟨rfl, rfl⟩
      · by_cases hbody : ['*', '/'] <:+: body
        · obtain ⟨inner, rest, hinner, rfl⟩ := Text.exists_firstClose hbody
          exact .inl ⟨_, .block hinner⟩
        cases hfind : later.find? fun line => decide (['*', '/'] <:+: line) with
        | none =>
          have hlater : ∀ line ∈ later, ¬['*', '/'] <:+: line := by simpa using hfind
          exact .inr (.inl ⟨body, rfl, hbody, hlater⟩)
        | some line =>
          obtain ⟨hline, between, after, rfl, hbetween⟩ := List.find?_eq_some_iff_append.1 hfind
          obtain ⟨last, rest, hlast, rfl⟩ := Text.exists_firstClose (of_decide_eq_true hline)
          exact .inl ⟨_, .longBlock hbody (by simpa using hbetween) hlast⟩
      · cases later with
        | nil =>
          refine .inr (.inr ?_)
          rw [final, Lex.mark, Lex.mark_lineComment]
          rfl
        | cons next later => exact .inl ⟨_, .lineComment⟩
    · exact .inl ⟨_, .code fun d hd ho => hopens ⟨d, hd, ho⟩⟩

/-- The place stands on the line with its number; line 0 is the empty one before the first. -/
theorem Step.exists_lines (h : Step p q)
    (hp : ∃ before head, [] :: lines = before ++ (head ++ p.rest) :: p.later ∧ p.number = before.length) :
    ∃ before head, [] :: lines = before ++ (head ++ q.rest) :: q.later ∧ q.number = before.length := by
  obtain ⟨before, head, hlines, hnumber⟩ := hp
  rw [hlines]
  cases h with
  | @code n c rest later h => exact ⟨before, head ++ [c], by simp, hnumber⟩
  | lineEnd => exact ⟨before ++ [head], [], by simp, by simpa using hnumber⟩
  | @lineComment n body next later => exact ⟨before ++ [head ++ '-' :: '-' :: body], [], by simp, by simpa using hnumber⟩
  | @block n body rest later hbody => exact ⟨before, head ++ '/' :: '*' :: (body ++ ['*', '/']), by simp, hnumber⟩
  | @longBlock n body last rest between later hbody hbetween hlast =>
    refine ⟨before ++ (head ++ '/' :: '*' :: body) :: between, last ++ ['*', '/'], by simp, ?_⟩
    simp only [List.length_append, List.length_cons] at hnumber ⊢
    omega

/-! ## All steps -/

theorem final_eq_of_reaches (h : Relation.ReflTransGen Step p q) : p.final = q.final := by
  induction h with
  | refl => rfl
  | tail _ hstep ih => exact ih.trans hstep.final_eq

theorem Outside.exists_lines (h : Outside lines p) :
    ∃ before head, [] :: lines = before ++ (head ++ p.rest) :: p.later ∧ p.number = before.length := by
  induction h with
  | refl => exact ⟨[], [], rfl, rfl⟩
  | tail _ hstep ih => exact hstep.exists_lines ih

theorem Unclosed.final_eq (h : p.Unclosed) : p.final = .blockComment p.number := by
  obtain ⟨body, hrest, hbody, hlater⟩ := h
  rw [final, hrest, Lex.mark, Lex.mark_blockComment_open _ _ hbody]
  exact Lex.afterLines_open _ _ hlater

/-- A script that ends in a block comment is read up to where that comment opens. -/
theorem exists_unclosed (p : Place) (h : p.final = .blockComment k) :
    ∃ q, Relation.ReflTransGen Step p q ∧ q.Unclosed ∧ q.number = k := by
  rcases exists_step p with ⟨next, hstep⟩ | hunclosed | hplain
  · have := hstep.size_lt
    obtain ⟨q, hreach, hq⟩ := exists_unclosed next (hstep.final_eq ▸ h)
    exact ⟨q, .head hstep hreach, hq⟩
  · rw [hunclosed.final_eq] at h
    exact ⟨p, .refl, hunclosed, Lex.blockComment.inj h⟩
  · rw [hplain] at h
    cases h
  termination_by p.size

/-- **A script ends in a block comment** exactly if reading comes to one that nothing closes. -/
theorem afterLines_eq_blockComment : Lex.afterLines 0 .plain lines = .blockComment k ↔
    ∃ p, Outside lines p ∧ p.Unclosed ∧ p.number = k := by
  constructor
  · intro h
    exact exists_unclosed (start lines) h
  · rintro ⟨p, houtside, hunclosed, rfl⟩
    exact (final_eq_of_reaches houtside).trans hunclosed.final_eq

end Place

/-! ## The fault -/

namespace Splitter

variable {sp : Splitter}

variable (sp) in
/-- The fault of lines depends on the state of comments in which they end, whatever is a directive among them. -/
theorem fault_lineItems_eq : ∀ (s : ScanState) (lines : List Text),
    (delivered (sp.lineItems s lines)).2 = (Lex.afterLines s.lineNumber s.lex lines).fault?
  | s, [] => (delivered_closing s).1
  | s, line :: rest => by
    cases hd : s.directive? sp.separator line with
    | none =>
      rw [lineItems_of_content hd, fault_lineItems_eq]
      rfl
    | some d =>
      rw [lineItems_of_directive hd]
      exact fault_lineItems_eq (s.advance line).takePending.2 rest

/-- **An open comment.** Whether comments are kept or stripped, and whatever separates the batches, lines are refused for
an open comment exactly if reading comes, outside comments, to a block comment that neither the rest of its line nor a
later line closes. The line that is reported is the one in which that comment opens. -/
theorem split_eq_unterminated_iff (sp : Splitter) (stripComments : Bool) (lines : List Text) (n : Nat) :
    sp.split stripComments (.ofLines lines) = .error (.unterminatedComment n) ↔
      ∃ before head body after, lines = before ++ (head ++ '/' :: '*' :: body) :: after ∧ n = before.length + 1 ∧
        Place.Outside lines ⟨n, '/' :: '*' :: body, after⟩ ∧
        ¬['*', '/'] <:+: body ∧ ∀ line ∈ after, ¬['*', '/'] <:+: line := by
  have hfault : sp.split stripComments (.ofLines lines) = .error (.unterminatedComment n) ↔
      Lex.afterLines 0 .plain lines = .blockComment n := by
    rw [split_eq_error, items_ofLines, fault_lineItems_eq]
    show (Lex.afterLines 0 .plain lines).fault? = _ ↔ _
    cases Lex.afterLines 0 .plain lines <;> simp [Lex.fault?]
  rw [hfault, Place.afterLines_eq_blockComment]
  constructor
  · rintro ⟨⟨number, rest, after⟩, houtside, ⟨body, rfl, hbody, hafter⟩, rfl⟩
    obtain ⟨before, head, hlines, hnumber⟩ := houtside.exists_lines
    cases before with
    | nil => simp at hlines
    | cons first before =>
      exact ⟨before, head, body, after, (List.cons.inj hlines).2, hnumber, houtside, hbody, hafter⟩
  · rintro ⟨before, head, body, after, -, -, houtside, hbody, hafter⟩
    exact ⟨_, houtside, ⟨body, rfl, hbody, hafter⟩, rfl⟩

/-- The star that opens a comment does not close it, and a directive line between two comments changes nothing. -/
example : unix.split true (.ofLines [.of "/* a */ b --/*", .of "go", .of "/*/ c", .of "--/* GO"]) =
    .error (.unterminatedComment 3) := rfl

end Splitter

end BatchMigrate
