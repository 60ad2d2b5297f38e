import BatchMigrate.Yaml.Read
import BatchMigrate.Yaml.Write

/-!
# Reading plain scalars

A plain scalar ends with its line if what follows begins further to the left (`EndsNode`), and a key ends at the colon
after it. Both are read back when they fit the plain style (`scalar?_plain`, `key?_append`): such a text begins like a
plain scalar, and nothing in it ends one.
-/

namespace BatchMigrate.Yaml

/-! ## Characters -/

/-- A character with which text can begin in the margin of a line. -/
def beginsText (c : Char) : Bool := !isBlank c && !isBreak c && c != '#' && c != '\uFEFF'

theorem isBlank_eq_false_iff {c : Char} : isBlank c = false ↔ c ≠ ' ' ∧ c ≠ '\t' := by
  simp [isBlank]

theorem beginsText_iff {c : Char} :
    beginsText c = true ↔ isBlank c = false ∧ isBreak c = false ∧ c ≠ '#' ∧ c ≠ '\uFEFF' := by
  simp [beginsText, and_assoc]

theorem not_isBlank_of_isPrintable {c : Char} (h : isPrintable c = true) (hspace : c ≠ ' ') : isBlank c = false := by
  refine isBlank_eq_false_iff.2 ⟨hspace, ?_⟩
  rintro rfl
  cases h

theorem beginsText_of_isPrintable {c : Char} (h : isPrintable c = true) (hspace : c ≠ ' ') (hbreak : isBreak c = false)
    (hhash : c ≠ '#') : beginsText c = true := by
  have hmark : c ≠ '\uFEFF' := by
    rintro rfl
    cases h
  exact beginsText_iff.2 ⟨not_isBlank_of_isPrintable h hspace, hbreak, hhash, hmark⟩

theorem isPrintable_of_mem_blanks {n : Nat} {c : Char} (h : c ∈ blanks n) : isPrintable c = true := by
  rw [List.eq_of_mem_replicate h]
  rfl

theorem atGap_of_append {t stop : Text} (h : atGap (t ++ stop) = true) : atGap t = true := by
  cases t with
  | nil => rfl
  | cons c r => exact h

/-! ## Margins -/

/-- What may follow a node whose lines begin at column `least` or later: nothing, or a line that begins before. -/
inductive EndsNode (least : Nat) : Text → Prop
  | done : EndsNode least []
  | line {k : Nat} {c : Char} {r : Text} (hk : k < least) (hc : beginsText c = true) :
    EndsNode least (blanks k ++ c :: r)

theorem EndsNode.mono {least least' : Nat} {rest : Text} (h : EndsNode least rest) (hle : least ≤ least') :
    EndsNode least' rest := by
  cases h with
  | done => exact .done
  | line hk hc => exact .line (Nat.lt_of_lt_of_le hk hle) hc

section Margin

variable {c : Char} {r : Text}

/-- The text of a line begins after its blanks. -/
theorem settle_margin (hc : beginsText c = true) : ∀ k column : Nat,
    settle (.margin column) (blanks k ++ c :: r) = .fresh (column + k) (c :: r)
  | 0, column => by
    obtain ⟨hblank, hbreak, hhash, hmark⟩ := beginsText_iff.1 hc
    obtain ⟨hspace, -⟩ := isBlank_eq_false_iff.1 hblank
    show settle (.margin column) (c :: r) = _
    rw [settle, if_neg (by simp [hspace, hmark]), if_neg hhash, if_neg (by simp [hbreak])]
    rfl
  | k + 1, column => by
    show settle (.margin column) (' ' :: (blanks k ++ c :: r)) = _
    rw [settle, if_pos (by simp), settle_margin hc k (column + 1), Nat.add_assoc, Nat.add_comm 1 k]

theorem settle_line_break (rest : Text) : settle .line ('\n' :: rest) = settle (.margin 0) rest := rfl

theorem settle_line (hc : beginsText c = true) : settle .line (c :: r) = .inline (c :: r) := by
  obtain ⟨hblank, hbreak, hhash, -⟩ := beginsText_iff.1 hc
  rw [settle, if_neg (by simp [hblank]), if_neg hhash, if_neg (by simp [hbreak])]

theorem settle_blank (rest : Text) : settle .line (' ' :: rest) = settle .line rest := rfl

/-- The line breaks before a line, and the place where it begins. -/
theorem lineGap_margin (hc : beginsText c = true) (least : Nat) (pending : Pending) : ∀ k column : Nat,
    lineGap least pending column (blanks k ++ c :: r) = (pending, column + k, c :: r)
  | 0, column => by
    obtain ⟨hblank, hbreak, -⟩ := beginsText_iff.1 hc
    obtain ⟨hspace, htab⟩ := isBlank_eq_false_iff.1 hblank
    show lineGap least pending column (c :: r) = _
    rw [lineGap, if_neg (by simp [hbreak]), if_neg (by simp [hspace, htab])]
    rfl
  | k + 1, column => by
    show lineGap least pending column (' ' :: (blanks k ++ c :: r)) = _
    rw [lineGap, if_neg (by decide), if_pos (by simp), lineGap_margin hc least pending k (column + 1), Nat.add_assoc,
      Nat.add_comm 1 k]

end Margin

/-! ## Texts that fit the plain style -/

section Fits

variable {c : Char} {r t stop : Text}

theorem printable_of_fitsPlain (h : fitsPlain t = true) : ∀ d ∈ t, isPrintable d = true := by
  simp only [fitsPlain, hasSpecial, Bool.and_eq_true, Bool.not_not] at h
  exact List.all_eq_true.1 h.1.2

theorem not_isBreak_of_fitsPlain (h : fitsPlain t = true) : ∀ d ∈ t, isBreak d = false := by
  simp only [fitsPlain, Bool.and_eq_true, Bool.not_eq_true'] at h
  simpa using h.1.1.2

theorem getLast_of_fitsPlain (h : fitsPlain t = true) : ∀ d ∈ t.getLast?, d ≠ ' ' := by
  simp only [fitsPlain, Bool.and_eq_true, Bool.not_eq_true'] at h
  rintro d hd rfl
  have hlast := h.1.1.1.2
  rw [hd] at hlast
  cases hlast

theorem head_of_fitsPlain (h : fitsPlain (c :: r) = true) : c ≠ ' ' := by
  simp only [fitsPlain, Bool.and_eq_true, Bool.not_eq_true'] at h
  rintro rfl
  cases h.1.1.1.1

/-- What no plain text begins with, and what it does not hold. -/
theorem indicators_of_fitsPlain (h : fitsPlain (c :: r) = true) :
    ((Text.of "---").isPrefixOf (c :: r) = false ∧ (Text.of "...").isPrefixOf (c :: r) = false) ∧
      c ∉ indicators ∧ ¬(c ∈ ['?', ':', '-'] ∧ atGap r = true) ∧ hasInnerIndicator false (c :: r) = false := by
  have hbreak := not_isBreak_of_fitsPlain h c List.mem_cons_self
  simp only [fitsPlain, Bool.and_eq_true, Bool.not_eq_true'] at h
  have hind := h.2
  simp only [hasIndicator, Bool.or_eq_false_iff, Bool.and_eq_false_iff, decide_eq_false_iff_not] at hind
  obtain ⟨⟨⟨⟨hdash, hdot⟩, hfirst⟩, hgap⟩, hinner⟩ := hind
  refine ⟨⟨hdash, hdot⟩, hfirst, fun hc => ?_, ?_⟩
  · rcases hgap with hgap | hgap
    · exact hgap hc.1
    · rw [hc.2] at hgap
      cases hgap
  · rw [hasInnerIndicator, hinner, Bool.and_false, Bool.or_false, Bool.or_false, Bool.and_eq_false_iff]
    rcases hgap with hgap | hgap
    · exact .inl (by simpa using fun hc : c = ':' => hgap (by simp [hc]))
    · exact .inr hgap

theorem beginsText_of_fitsPlain (h : fitsPlain (c :: r) = true) : beginsText c = true := by
  refine beginsText_of_isPrintable (printable_of_fitsPlain h c List.mem_cons_self) (head_of_fitsPlain h)
    (not_isBreak_of_fitsPlain h c List.mem_cons_self) ?_
  rintro rfl
  exact (indicators_of_fitsPlain h).2.1 (by decide)

theorem beginsPlain_of_fitsPlain (h : fitsPlain (c :: r) = true) (stop : Text) :
    beginsPlain false (c :: (r ++ stop)) = true := by
  obtain ⟨-, hfirst, hgap, -⟩ := indicators_of_fitsPlain h
  obtain ⟨hblank, hbreak, -⟩ := beginsText_iff.1 (beginsText_of_fitsPlain h)
  have hnext : c ∈ ['?', ':', '-'] → atGap (r ++ stop) = false := fun hc => by
    cases hgap' : atGap (r ++ stop) with
    | false => rfl
    | true => exact absurd ⟨hc, atGap_of_append hgap'⟩ hgap
  have hdash : c = '-' → atGap (r ++ stop) = false := fun hc => hnext (by simp [hc])
  have hmark : c = '?' ∨ c = ':' → atGap (r ++ stop) = false := fun hc =>
    hnext (by rcases hc with hc | hc <;> simp [hc])
  simp only [beginsPlain, hblank, hbreak, hfirst, decide_false, Bool.not_false, Bool.true_and,
    Bool.and_eq_true, Bool.or_eq_true, bne_iff_ne, Bool.not_eq_true', List.mem_cons, List.not_mem_nil, or_false,
    decide_eq_false_iff_not]
  exact ⟨Decidable.or_iff_not_imp_left.2 fun hc => hdash (Decidable.not_not.1 hc),
    Decidable.or_iff_not_imp_left.2 fun hc => hmark (Decidable.not_not.1 hc)⟩

/-- The text begins with a line break, or with a colon before a gap. -/
def EndsPlain (stop : Text) : Prop := ∃ d r, stop = d :: r ∧ (isBreak d = true ∨ (d = ':' ∧ atGap r = true))

/-- A line of a plain scalar goes on as long as nothing ends it. -/
theorem plainLine_append (hstop : EndsPlain stop) : ∀ {t : Text} {afterGap : Bool}, (∀ d ∈ t, isBreak d = false) →
    hasInnerIndicator afterGap t = false → plainLine false afterGap (t ++ stop) = (t, stop)
  | [], afterGap, _, _ => by
    obtain ⟨d, r, rfl, hd⟩ := hstop
    rw [List.nil_append, plainLine, if_pos]
    rcases hd with hd | ⟨rfl, hr⟩
    · simp [hd]
    · simp [colonEnds, hr]
  | d :: t, afterGap, hbreak, hinner => by
    obtain ⟨hd, ht⟩ := List.forall_mem_cons.1 hbreak
    simp only [hasInnerIndicator, hd, Bool.or_false, Bool.or_eq_false_iff, Bool.and_eq_false_iff,
      decide_eq_false_iff_not] at hinner
    obtain ⟨⟨hcolon, hhash⟩, hinner⟩ := hinner
    have hends : ¬(d = ':' ∧ atGap (t ++ stop) = true) := by
      rintro ⟨hd, hgap⟩
      rcases hcolon with hcolon | hcolon
      · exact hcolon hd
      · rw [atGap_of_append hgap] at hcolon
        cases hcolon
    rw [List.cons_append, plainLine, plainLine_append hstop ht hinner, if_neg]
    simp only [hd, colonEnds, Bool.false_and, Bool.or_false, Bool.false_or, Bool.or_eq_true, Bool.and_eq_true,
      decide_eq_true_eq, not_or]
    exact ⟨hends, fun hc => hhash.elim (fun h => h hc.1) fun h => by rw [h] at hc; cases hc.2⟩

theorem dropEndBlanks_of_fitsPlain (h : fitsPlain t = true) : dropEndBlanks t = t := by
  rcases List.eq_nil_or_concat t with rfl | ⟨front, d, rfl⟩
  · rfl
  · rw [List.concat_eq_append] at h ⊢
    have hd := not_isBlank_of_isPrintable (printable_of_fitsPlain h d (by simp)) (getLast_of_fitsPlain h d (by simp))
    rw [dropEndBlanks, List.reverse_append, List.reverse_singleton, List.singleton_append,
      List.dropWhile_cons_of_neg (by simp [hd])]
    simp

end Fits

/-! ## Plain scalars -/

section Plain

variable {c : Char} {r rest after : Text} {least : Nat}

/-- A plain text ends with its line, if what follows begins further to the left. -/
theorem plain_line (h : fitsPlain (c :: r) = true) (hrest : EndsNode least rest) :
    ∃ after, plain false least (c :: r ++ '\n' :: rest) = (c :: r, false, after) ∧
      settle .line after = settle (.margin 0) rest := by
  have hline : plainLine false false (c :: r ++ '\n' :: rest) = (c :: r, '\n' :: rest) :=
    plainLine_append ⟨'\n', rest, rfl, .inl rfl⟩ (not_isBreak_of_fitsPlain h) (indicators_of_fitsPlain h).2.2.2
  have hbreak : (('\n' :: rest).head?.any isBreak) = true := rfl
  rw [plain, plainFrom, hline]
  simp only [Bool.false_eq_true, if_false, dropEndBlanks_of_fitsPlain h, hbreak, if_true]
  cases hrest with
  | done => exact ⟨[], rfl, rfl⟩
  | @line k d r' hk hd =>
    have hgap : lineGap least (.blanks []) 0 ('\n' :: (blanks k ++ d :: r')) = (.breaks ['\n'] [], k, d :: r') := by
      rw [lineGap, if_pos (by decide), lineGap_margin hd, Nat.zero_add]
      rfl
    have hcontinues : continuesPlain false least k (d :: r') = false := by
      rw [continuesPlain, decide_eq_false (Nat.not_le.2 hk)]
      rfl
    have hhash : d ≠ '#' := by
      rintro rfl
      cases hd
    refine ⟨'\n' :: (blanks k ++ d :: r'), ?_, settle_line_break _⟩
    rw [hgap]
    simp [hcontinues, afterPlain, hhash]

/-- A plain key ends before the colon. -/
theorem plain_key (h : fitsPlain (c :: r) = true) (hafter : atGap after = true) (least : Nat) :
    plain false least (c :: r ++ ':' :: after) = (c :: r, false, ':' :: after) := by
  have hline : plainLine false false (c :: r ++ ':' :: after) = (c :: r, ':' :: after) :=
    plainLine_append ⟨':', after, rfl, .inr ⟨rfl, hafter⟩⟩ (not_isBreak_of_fitsPlain h)
      (indicators_of_fitsPlain h).2.2.2
  have hbreak : ((':' :: after).head?.any isBreak) = false := rfl
  rw [plain, plainFrom, hline]
  simp only [dropEndBlanks_of_fitsPlain h, hbreak, Bool.false_eq_true, if_false]

theorem quoted?_of_not_mem {c : Char} (h : c ∉ indicators) (r : Text) : quoted? (c :: r) = none := by
  unfold quoted?
  split
  · rename_i he
    obtain ⟨rfl, -⟩ := List.cons_eq_cons.1 he
    exact absurd (by decide) h
  · rename_i he
    obtain ⟨rfl, -⟩ := List.cons_eq_cons.1 he
    exact absurd (by decide) h
  · rfl

theorem scalar?_plain {t stop after : Text} {spans : Bool} (h : fitsPlain t = true) (hne : t ≠ [])
    (hplain : plain false least (t ++ stop) = (t, spans, after)) :
    scalar? false least (t ++ stop) = some (.scalar true t, spans, after) := by
  cases t with
  | nil => exact absurd rfl hne
  | cons c r =>
    rw [List.cons_append] at hplain ⊢
    rw [scalar?, quoted?_of_not_mem (indicators_of_fitsPlain h).2.1]
    simp only [beginsPlain_of_fitsPlain h stop, if_true, hplain]

/-- **A key** is read up to its colon. -/
theorem key?_append {key : Text} (h : fitsPlain key = true) (hne : key ≠ []) (hlength : key.length ≤ maxKeyLength)
    (hafter : atGap after = true) (least : Nat) : key? least (key ++ ':' :: after) = some (key, after) := by
  have hplain : plain false least (key ++ ':' :: after) = (key, false, ':' :: after) := by
    cases key with
    | nil => exact absurd rfl hne
    | cons c r => exact plain_key h hafter least
  have hshort : (key ++ ':' :: after).length ≤ after.length + 1 + maxKeyLength := by
    rw [List.length_append, List.length_cons]
    omega
  rw [key?, scalar?_plain h hne hplain]
  simp only [settle_line (show beginsText ':' = true from rfl), hafter, hshort, decide_true, Bool.and_true, if_true]

end Plain

end BatchMigrate.Yaml
