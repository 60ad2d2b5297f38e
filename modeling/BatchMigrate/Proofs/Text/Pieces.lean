import BatchMigrate.Text.Basic

/-!
# Pieces of a text

A text and its pieces between the occurrences of a character. The pieces with the character between them are the text,
and pieces without the character are those of the text that they make (`List.intercalate_splitOn`,
`List.splitOn_intercalate`). So texts are told apart by their pieces, and the first pieces of a text are those of
another one when the text goes on with the character after it (`Text.splitOn_isPrefix_splitOn`).
-/

namespace BatchMigrate

namespace Text

/-! ## Cutting -/

theorem not_mem_of_mem_splitOn {sep : Char} : ∀ {t piece : Text}, piece ∈ splitOn sep t → sep ∉ piece
  | [], piece, h => by
    rw [List.splitOn_nil] at h
    cases List.mem_singleton.1 h
    exact List.not_mem_nil
  | c :: t, piece, h => by
    rw [List.splitOn_cons_eq_if_modifyHead] at h
    split at h
    · rcases List.mem_cons.1 h with rfl | h
      · exact List.not_mem_nil
      · exact not_mem_of_mem_splitOn h
    · rename_i hc
      obtain ⟨first, pieces, hs⟩ := List.exists_cons_of_ne_nil (List.splitOn_ne_nil sep t)
      rw [hs, List.modifyHead_cons] at h
      rcases List.mem_cons.1 h with rfl | h
      · have hfirst : sep ∉ first := not_mem_of_mem_splitOn (hs ▸ List.mem_cons_self)
        exact List.not_mem_cons_of_ne_of_not_mem (fun he => hc (beq_iff_eq.2 he.symm)) hfirst
      · exact not_mem_of_mem_splitOn (hs ▸ List.mem_cons_of_mem _ h)

/-- The first piece goes up to the first separator. -/
theorem exists_splitOn_eq_cons (sep : Char) : ∀ t : Text, ∃ pieces, splitOn sep t = t.takeWhile (· ≠ sep) :: pieces
  | [] => ⟨[], rfl⟩
  | c :: t => by
    rw [List.splitOn_cons_eq_if_modifyHead]
    by_cases hc : c = sep
    · rw [if_pos (beq_iff_eq.2 hc), List.takeWhile_cons_of_neg (by simpa using hc)]
      exact ⟨_, rfl⟩
    · obtain ⟨pieces, hpieces⟩ := exists_splitOn_eq_cons sep t
      rw [if_neg (by simpa using hc), hpieces, List.takeWhile_cons_of_pos (by simpa using hc)]
      exact ⟨pieces, rfl⟩

/-! ## Joining -/

theorem intercalate_append (sep : Text) {right : List Text} (hr : right ≠ []) : ∀ {left : List Text}, left ≠ [] →
    intercalate sep (left ++ right) = intercalate sep left ++ sep ++ intercalate sep right
  | [], hl => absurd rfl hl
  | [piece], _ => by rw [List.singleton_append, List.intercalate_cons_of_ne_nil hr, List.intercalate_singleton]
  | piece :: next :: left, _ => by
    have ih := intercalate_append sep hr (List.cons_ne_nil next left)
    have hne : next :: left ++ right ≠ [] := List.append_ne_nil_of_left_ne_nil (List.cons_ne_nil next left) right
    rw [List.cons_append, List.intercalate_cons_of_ne_nil hne, ih, List.intercalate_cons_cons]
    simp only [List.append_assoc]

/-- What is in the text is in the separator or in a piece. -/
theorem mem_intercalate {sep : Text} {c : Char} : ∀ {pieces : List Text}, c ∈ intercalate sep pieces →
    c ∈ sep ∨ ∃ piece ∈ pieces, c ∈ piece
  | [], h => absurd h List.not_mem_nil
  | [piece], h => .inr ⟨piece, List.mem_cons_self, by rwa [List.intercalate_singleton] at h⟩
  | piece :: next :: pieces, h => by
    rw [List.intercalate_cons_cons, List.mem_append, List.mem_append] at h
    rcases h with (hpiece | hsep) | hlater
    · exact .inr ⟨piece, List.mem_cons_self, hpiece⟩
    · exact .inl hsep
    · rcases mem_intercalate hlater with hsep | ⟨other, ho, hc⟩
      · exact .inl hsep
      · exact .inr ⟨other, List.mem_cons_of_mem piece ho, hc⟩

/-- What ends the last piece ends the text. -/
theorem getLast?_intercalate {sep piece : Text} (pieces : List Text) (h : piece ≠ []) :
    (intercalate sep (pieces ++ [piece])).getLast? = piece.getLast? := by
  by_cases hp : pieces = []
  · rw [hp, List.nil_append, List.intercalate_singleton]
  · rw [intercalate_append sep (List.cons_ne_nil piece []) hp, List.intercalate_singleton, List.getLast?_append,
      List.getLast?_eq_some_getLast h, Option.some_or]

/-! ## Texts and their pieces -/

theorem splitOn_inj {sep : Char} {a b : Text} : splitOn sep a = splitOn sep b ↔ a = b :=
  ⟨fun h => by rw [← @List.intercalate_splitOn _ a _ _ sep, h, List.intercalate_splitOn], congrArg (splitOn sep)⟩

/-- The pieces of a text are the first ones of another if the two are the same, or the other goes on with a separator. -/
theorem splitOn_isPrefix_splitOn {sep : Char} {a b : Text} :
    splitOn sep a <+: splitOn sep b ↔ a = b ∨ a ++ [sep] <+: b := by
  constructor
  · rintro ⟨more, hmore⟩
    by_cases hlast : more = []
    · rw [hlast, List.append_nil] at hmore
      exact .inl (splitOn_inj.1 hmore)
    · have hb : a ++ [sep] ++ intercalate [sep] more = b := by
        rw [← @List.intercalate_splitOn _ b _ _ sep, ← hmore,
          intercalate_append [sep] hlast (List.splitOn_ne_nil sep a), List.intercalate_splitOn]
      exact .inr (hb ▸ List.prefix_append _ _)
  · rintro (rfl | ⟨more, rfl⟩)
    · exact List.prefix_rfl
    · rw [List.append_assoc, List.singleton_append, List.splitOn_append_cons_self]
      exact List.prefix_append _ _

end Text

end BatchMigrate
