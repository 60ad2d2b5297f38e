import BatchMigrate.Proofs.Yaml.Quoted

/-!
# Reading texts back

A text is read back from each of its styles, as a value on the line of its key (`inlineNode?_writeText`) and as an item
of a sequence, where it could also be the first key of a mapping (`blockNode?_writeText`). Whether it was written
plainly is part of what is read.
-/

namespace BatchMigrate.Yaml

section Styles

variable {t : Text}

/-! ## Styles -/

theorem fits_of_plain (h : Style.of t = .plain) : fitsPlain t = true ∧ looksTyped t = false := by
  unfold Style.of at h
  split at h
  · split at h <;> cases h
  · split at h
    · rename_i hfits
      simp only [Bool.and_eq_true, Bool.not_eq_true'] at hfits
      exact ⟨hfits.2, hfits.1⟩
    · split at h <;> cases h

theorem fits_of_singleQuoted (h : Style.of t = .singleQuoted) : fitsSingle t = true ∧ '\n' ∉ t := by
  unfold Style.of at h
  split at h
  · split at h <;> cases h
  · rename_i hfeed
    split at h
    · cases h
    · split at h
      · rename_i hfits
        exact ⟨hfits, hfeed⟩
      · cases h

theorem fits_of_literal (h : Style.of t = .literal) : fitsLiteral t = true ∧ '\n' ∈ t := by
  unfold Style.of at h
  split at h
  · rename_i hfeed
    split at h
    · rename_i hfits
      exact ⟨hfits, hfeed⟩
    · cases h
  · split at h
    · cases h
    · split at h <;> cases h

theorem ne_nil_of_plain (h : Style.of t = .plain) : t ≠ [] := by
  rintro rfl
  cases h

/-- The node that a text is read as. -/
def textNode (t : Text) : Node := .scalar (Style.of t = .plain) t

end Styles

/-! ## Scalars -/

section Scalars

variable {t rest after : Text} {least fuel : Nat} {node : Node} {spans : Bool}

theorem settle_of_endsNode (h : EndsNode least rest) : ∃ next r, settle (.margin 0) rest = .fresh next r := by
  cases h with
  | done => exact ⟨0, [], rfl⟩
  | line hk hc => exact ⟨_, _, settle_margin hc _ _⟩

/-- A quoted or plain scalar can stand in the middle of a line. -/
theorem inlineNode?_of_scalar? (h : scalar? false least t = some (node, spans, after)) (fuel : Nat) :
    inlineNode? fuel least t = some (node, settle .line after) := by
  unfold inlineNode?
  split
  · cases h
  · cases h
  · cases h
  · cases h
  · rw [h]
    rfl

/-- No key is a scalar after which the line ends. -/
theorem key?_eq_none (h : ∀ node spans after, scalar? false least t = some (node, spans, after) →
    ∃ next r, settle .line after = .fresh next r) : key? least t = none := by
  unfold key?
  split
  · rename_i key rest hscalar
    obtain ⟨next, r, hsettle⟩ := h _ _ _ hscalar
    rw [hsettle]
  · rfl

/-- A plain text is read back. -/
theorem scalar?_plainText (hfits : fitsPlain t = true) (hne : t ≠ []) (hrest : EndsNode least rest) :
    ∃ spans after, scalar? false least (t ++ '\n' :: rest) = some (.scalar true t, spans, after) ∧
      settle .line after = settle (.margin 0) rest := by
  match t, hne with
  | c :: r, hne =>
    obtain ⟨after, hplain, hafter⟩ := plain_line hfits hrest
    exact ⟨false, after, scalar?_plain hfits hne hplain, hafter⟩

theorem scalar?_quoted {s text : Text} (h : quoted? s = some (text, spans, after)) (least : Nat) :
    scalar? false least s = some (.scalar false text, spans, after) := by
  rw [scalar?, h]

/-- A text is read back, unless it is a literal block. -/
theorem scalar?_writeText (hstyle : Style.of t ≠ .literal) (hrest : EndsNode least rest) :
    ∃ spans after, scalar? false least (writeText (least + 1) t ++ rest) = some (textNode t, spans, after) ∧
      settle .line after = settle (.margin 0) rest := by
  rw [writeText, textNode]
  match hof : Style.of t with
  | .plain =>
    rw [List.append_assoc]
    exact scalar?_plainText (fits_of_plain hof).1 (ne_nil_of_plain hof) hrest
  | .singleQuoted =>
    obtain ⟨hfits, hfeed⟩ := fits_of_singleQuoted hof
    obtain ⟨spans, hquoted⟩ := quoted?_single (Nat.succ_pos least) hfits hfeed
      (show ('\n' :: rest).head? ≠ some '\x27' by simp)
    rw [List.append_assoc]
    exact ⟨spans, '\n' :: rest, scalar?_quoted hquoted least, settle_line_break rest⟩
  | .doubleQuoted =>
    obtain ⟨spans, hquoted⟩ := quoted?_double t ('\n' :: rest)
    rw [List.append_assoc]
    exact ⟨spans, '\n' :: rest, scalar?_quoted hquoted least, settle_line_break rest⟩
  | .literal => exact absurd hof hstyle

/-- **A text** is read back after its key. -/
theorem inlineNode?_writeText (hleast : 1 ≤ least) (hrest : EndsNode least rest) (fuel : Nat) (t : Text) :
    inlineNode? fuel least (writeText (least + 1) t ++ rest) = some (textNode t, settle (.margin 0) rest) := by
  by_cases hstyle : Style.of t = .literal
  · obtain ⟨hfits, hfeed⟩ := fits_of_literal hstyle
    rw [writeText, textNode, hstyle]
    show (blockScalar? false least (literalHeader t ++ '\n' :: literalBody (least + 1) true t ++ rest)).map _ = _
    rw [List.append_assoc, List.cons_append, blockScalar?_literal hfits (List.ne_nil_of_mem hfeed) hleast hrest]
    rfl
  · obtain ⟨spans, after, hscalar, hafter⟩ := scalar?_writeText hstyle hrest
    rw [inlineNode?_of_scalar? hscalar, hafter]

/-- A text in its style is no key, because its line ends after it. -/
theorem key?_writeText (hrest : EndsNode least rest) (t : Text) :
    key? least (writeText (least + 1) t ++ rest) = none := by
  refine key?_eq_none fun node spans after h => ?_
  by_cases hstyle : Style.of t = .literal
  · rw [writeText, hstyle] at h
    cases h
  · obtain ⟨spans', after', hscalar, hafter⟩ := scalar?_writeText hstyle hrest
    rw [hscalar, Option.some_inj, Prod.mk.injEq, Prod.mk.injEq] at h
    obtain ⟨-, -, rfl⟩ := h
    rw [hafter]
    exact settle_of_endsNode hrest

/-! ## The first character -/

theorem beginsItem_of_fitsPlain (h : fitsPlain t = true) (hne : t ≠ []) (stop : Text) :
    beginsItem (t ++ stop) = false := by
  match t, hne with
  | c :: r, _ =>
    obtain ⟨-, -, hgap, -⟩ := indicators_of_fitsPlain h
    rw [List.cons_append, beginsItem, Bool.and_eq_false_iff]
    by_cases hc : c = '-'
    · refine .inr (Bool.eq_false_iff.2 fun hstop => hgap ⟨by simp [hc], atGap_of_append hstop⟩)
    · exact .inl (by simpa using hc)

/-- A text in its style begins like text, and not like an item of a sequence. -/
theorem writeText_begins (indent : Nat) (t s : Text) :
    (∃ c r, writeText indent t ++ s = c :: r ∧ beginsText c = true) ∧ beginsItem (writeText indent t ++ s) = false := by
  rw [writeText]
  match hof : Style.of t with
  | .plain =>
    have hfits := (fits_of_plain hof).1
    have hne := ne_nil_of_plain hof
    rw [List.append_assoc]
    refine ⟨?_, beginsItem_of_fitsPlain hfits hne _⟩
    match t, hne with
    | c :: r, _ => exact ⟨c, _, rfl, beginsText_of_fitsPlain hfits⟩
  | .singleQuoted => exact ⟨⟨'\x27', _, rfl, rfl⟩, rfl⟩
  | .doubleQuoted => exact ⟨⟨'\x22', _, rfl, rfl⟩, rfl⟩
  | .literal => exact ⟨⟨'|', _, rfl, rfl⟩, rfl⟩

/-- **A text** is read back as an item of a sequence. -/
theorem blockNode?_writeText (hleast : 1 ≤ least) (hrest : EndsNode least rest) (fuel column : Nat) (t : Text) :
    blockNode? (fuel + 1) least column (writeText (least + 1) t ++ rest) =
      some (textNode t, settle (.margin 0) rest) := by
  rw [blockNode?, (writeText_begins _ t rest).2, key?_writeText hrest, inlineNode?_writeText hleast hrest]
  rfl

/-! ## Characters -/

/-- Whatever a text holds, only characters that are written as they are stand in its style. -/
theorem isPrintable_writeText (indent : Nat) (t : Text) : ∀ c ∈ writeText indent t, isPrintable c = true := by
  intro c hc
  rw [writeText] at hc
  match hof : Style.of t with
  | .plain =>
    simp only [hof, List.mem_append, List.mem_singleton] at hc
    rcases hc with hc | rfl
    · exact printable_of_fitsPlain (fits_of_plain hof).1 c hc
    · rfl
  | .singleQuoted =>
    simp only [hof, List.mem_append, List.mem_cons, List.not_mem_nil, or_false] at hc
    rcases hc with (rfl | hc) | rfl | rfl
    · rfl
    · exact isPrintable_singleBody false (printable_of_fitsSingle (fits_of_singleQuoted hof).1) c hc
    · rfl
    · rfl
  | .doubleQuoted =>
    simp only [hof, List.mem_append, List.mem_cons, List.not_mem_nil, or_false, List.mem_flatMap] at hc
    rcases hc with (rfl | ⟨d, -, hc⟩) | rfl | rfl
    · rfl
    · exact isPrintable_escape d c hc
    · rfl
    · rfl
  | .literal =>
    simp only [hof, List.mem_append, List.mem_cons] at hc
    rcases hc with (rfl | hc) | rfl | hc
    · rfl
    · exact isPrintable_literalHeader t c hc
    · rfl
    · exact isPrintable_literalBody true (printable_of_fitsLiteral (fits_of_literal hof).1) c hc

end Scalars

end BatchMigrate.Yaml
