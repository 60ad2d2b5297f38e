import BatchMigrate.Proofs.Text.Utf8
import BatchMigrate.Text.Slice

/-!
# Boundaries of characters

A place in the bytes of a text is a boundary exactly if it is where some part of the text ends (`Text.isBoundary_iff`), since
a character begins with a byte that continues none and goes on with bytes that do. Between two boundaries the text is sliced
as it stands (`Text.slice?_append`). A text begins with another one if its bytes do (`Text.utf8_isPrefix`).
-/

namespace BatchMigrate.Text

variable {s t : Text} {bytes : List UInt8} {place first last : Nat}

/-! ## Bytes of parts -/

/-- A text begins with another one if its bytes do. -/
theorem utf8_isPrefix : ∀ {s t : Text}, s.utf8 <+: t.utf8 ↔ s <+: t
  | [], t => iff_of_true List.nil_prefix List.nil_prefix
  | c :: s, [] => by
    rw [utf8_cons, show utf8 [] = [] from rfl, List.prefix_nil, List.append_eq_nil_iff, List.prefix_nil]
    exact iff_of_false (fun h => String.utf8EncodeChar_ne_nil h.1) (List.cons_ne_nil c s)
  | c :: s, d :: t => by
    rw [utf8_cons, utf8_cons, List.cons_prefix_cons]
    constructor
    · intro h
      have hcd : c = d := by
        rcases List.prefix_or_prefix_of_prefix ((List.prefix_append _ _).trans h) (List.prefix_append _ (utf8 t)) with h | h
        · exact eq_of_utf8EncodeChar_isPrefix h
        · exact (eq_of_utf8EncodeChar_isPrefix h).symm
      subst hcd
      exact ⟨rfl, utf8_isPrefix.1 ((List.prefix_append_right_inj _).1 h)⟩
    · rintro ⟨rfl, h⟩
      exact (List.prefix_append_right_inj _).2 (utf8_isPrefix.2 h)

/-- A text that is not empty begins with a byte that continues no character. -/
theorem isContinuation_head {b : UInt8} {more : List UInt8} (h : t.utf8 = b :: more) : isContinuation b = false := by
  cases t with
  | nil => cases h
  | cons c t =>
    obtain ⟨first, rest, hc, hfirst, _⟩ := exists_utf8EncodeChar_eq_cons c
    rw [utf8_cons, hc, List.cons_append, List.cons.injEq] at h
    rw [← h.1]
    exact hfirst

/-! ## Boundaries -/

theorem isBoundary_iff_byte : isBoundary bytes place = true ↔
    place = 0 ∨ place = bytes.length ∨ ∃ b, bytes[place]? = some b ∧ isContinuation b = false := by
  rw [isBoundary]
  cases hb : bytes[place]? with
  | some b =>
    have hlt := (List.getElem?_eq_some_iff.1 hb).1
    simp [Nat.ne_of_lt hlt]
  | none =>
    have hle := List.getElem?_eq_none_iff.1 hb
    simp only [decide_eq_true_eq, reduceCtorEq, false_and, exists_false, or_false]
    omega

theorem le_of_isBoundary (h : isBoundary bytes place = true) : place ≤ bytes.length := by
  rcases isBoundary_iff_byte.1 h with rfl | rfl | ⟨b, hb, _⟩
  · exact Nat.zero_le _
  · exact Nat.le_refl _
  · exact Nat.le_of_lt (List.getElem?_eq_some_iff.1 hb).1

/-- A place where a part of a text ends is a boundary. -/
theorem isBoundary_append (s t : Text) : isBoundary (s ++ t).utf8 s.utf8.length = true := by
  have hnext : (s ++ t).utf8[s.utf8.length]? = t.utf8.head? := by
    rw [utf8_append, List.getElem?_append_right (Nat.le_refl _), Nat.sub_self, List.head?_eq_getElem?]
  rw [isBoundary_iff_byte, hnext]
  cases ht : t.utf8 with
  | nil => exact .inr (.inl (by rw [utf8_append, ht, List.append_nil]))
  | cons b more => exact .inr (.inr ⟨b, rfl, isContinuation_head ht⟩)

/-- There is no boundary inside a character, and behind it are those of the text after it. -/
theorem isBoundary_cons {c : Char} (h : isBoundary (utf8 (c :: t)) place = true) :
    place = 0 ∨ ∃ rest, place = (String.utf8EncodeChar c).length + rest ∧ isBoundary t.utf8 rest = true := by
  obtain ⟨first, more, hc, _, hmore⟩ := exists_utf8EncodeChar_eq_cons c
  rcases isBoundary_iff_byte.1 h with rfl | rfl | ⟨b, hb, hstart⟩
  · exact .inl rfl
  · refine .inr ⟨t.utf8.length, ?_, isBoundary_iff_byte.2 (.inr (.inl rfl))⟩
    rw [utf8_cons, List.length_append]
  · by_cases hinside : place < (String.utf8EncodeChar c).length
    · rw [utf8_cons, List.getElem?_append_left hinside, hc] at hb
      cases place with
      | zero => exact .inl rfl
      | succ k =>
        rw [List.getElem?_cons_succ] at hb
        rw [hmore b (List.mem_of_getElem? hb)] at hstart
        cases hstart
    · obtain ⟨rest, rfl⟩ := Nat.exists_eq_add_of_le (Nat.le_of_not_lt hinside)
      rw [utf8_cons, List.getElem?_append_right (Nat.le_add_right _ _), Nat.add_sub_cancel_left] at hb
      exact .inr ⟨rest, rfl, isBoundary_iff_byte.2 (.inr (.inr ⟨b, hb, hstart⟩))⟩

theorem exists_of_isBoundary : ∀ {t : Text} {place : Nat}, isBoundary t.utf8 place = true →
    ∃ before after, t = before ++ after ∧ place = before.utf8.length
  | [], place, h => ⟨[], [], rfl, of_decide_eq_true h⟩
  | c :: t, place, h => by
    rcases isBoundary_cons h with rfl | ⟨rest, rfl, hrest⟩
    · exact ⟨[], c :: t, rfl, rfl⟩
    · obtain ⟨before, after, rfl, rfl⟩ := exists_of_isBoundary hrest
      exact ⟨c :: before, after, rfl, by rw [utf8_cons, List.length_append]⟩

/-- **A boundary** is a place where a part of the text ends. -/
theorem isBoundary_iff : isBoundary t.utf8 place = true ↔ ∃ before after, t = before ++ after ∧ place = before.utf8.length := by
  constructor
  · exact exists_of_isBoundary
  · rintro ⟨before, after, rfl, rfl⟩
    exact isBoundary_append before after

/-! ## Slices -/

theorem slice?_eq_some (h : slice? bytes first last = some t) :
    first ≤ last ∧ last ≤ bytes.length ∧ isBoundary bytes first = true ∧ isBoundary bytes last = true := by
  obtain ⟨hplaces, _⟩ := Option.ite_none_right_eq_some.1 h
  simp only [Bool.and_eq_true, decide_eq_true_eq] at hplaces
  obtain ⟨⟨hle, hfirst⟩, hlast⟩ := hplaces
  exact ⟨hle, le_of_isBoundary hlast, hfirst, hlast⟩

/-- A part of a text is sliced out as it stands. -/
theorem slice?_append (before t after : Text) :
    slice? (before ++ t ++ after).utf8 before.utf8.length (before ++ t).utf8.length = some t := by
  have hfirst := isBoundary_append before (t ++ after)
  rw [← List.append_assoc] at hfirst
  have hbytes : ((before ++ t ++ after).utf8.take (before ++ t).utf8.length).drop before.utf8.length = t.utf8 := by
    rw [utf8_append _ after, List.take_left, utf8_append, List.drop_left]
  have hle : before.utf8.length ≤ (before ++ t).utf8.length := by
    rw [utf8_append, List.length_append]
    exact Nat.le_add_right _ _
  rw [slice?, hfirst, isBoundary_append, hbytes, decide_eq_true hle, ofUtf8_eq_ok.2 rfl]
  rfl

end BatchMigrate.Text
