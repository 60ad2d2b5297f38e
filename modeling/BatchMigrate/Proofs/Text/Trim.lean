import Mathlib.Data.List.TakeWhile
import BatchMigrate.Text.Space

/-!
# Characters at the ends

What is left of a text when characters of one kind are taken off its ends is a piece of it that neither begins nor ends
with one of them (`Text.head?_trimBy`, `Text.getLast?_trimBy`). A text that does neither is left as it is
(`Text.trimBy_eq_self`). The characters are white space for `Text.trim`.
-/

namespace BatchMigrate.Text

variable {p : Char → Bool} {t : Text}

theorem head?_dropWhile {c : Char} (h : (t.dropWhile p).head? = some c) : p c = false := by
  have hn := List.head?_dropWhile_not p t
  rw [h] at hn
  exact hn

/-- Text whose first character stays keeps all its characters. -/
theorem dropWhile_eq_self (h : ∀ c, t.head? = some c → p c = false) : t.dropWhile p = t := by
  cases t with
  | nil => rfl
  | cons c r => exact List.dropWhile_cons_of_neg (by rw [h c rfl]; exact Bool.false_ne_true)

theorem dropWhile_dropWhile (p : Char → Bool) (t : Text) : (t.dropWhile p).dropWhile p = t.dropWhile p :=
  dropWhile_eq_self fun _ => head?_dropWhile

theorem trimBy_eq_self (h : ∀ c, t.head? = some c → p c = false) (hl : ∀ c, t.getLast? = some c → p c = false) :
    trimBy p t = t := by
  have hr : ∀ c, t.reverse.head? = some c → p c = false := fun c hc => hl c (by rwa [List.head?_reverse] at hc)
  rw [trimBy, dropWhile_eq_self h, dropWhile_eq_self hr, List.reverse_reverse]

theorem trimBy_isPrefix (p : Char → Bool) (t : Text) : trimBy p t <+: t.dropWhile p := by
  rw [trimBy, ← List.reverse_suffix, List.reverse_reverse]
  exact List.dropWhile_suffix p

theorem trimBy_isInfix (p : Char → Bool) (t : Text) : trimBy p t <:+: t :=
  (trimBy_isPrefix p t).isInfix.trans (List.dropWhile_suffix p).isInfix

theorem head?_trimBy {c : Char} (h : (trimBy p t).head? = some c) : p c = false := by
  obtain ⟨more, hm⟩ := trimBy_isPrefix p t
  refine head?_dropWhile (t := t) ?_
  rw [← hm, List.head?_append, h, Option.some_or]

theorem getLast?_trimBy {c : Char} (h : (trimBy p t).getLast? = some c) : p c = false := by
  rw [trimBy, List.getLast?_reverse] at h
  exact head?_dropWhile h

theorem trimBy_trimBy (p : Char → Bool) (t : Text) : trimBy p (trimBy p t) = trimBy p t :=
  trimBy_eq_self (fun _ => head?_trimBy) fun _ => getLast?_trimBy

/-- What is taken off the ends makes no difference. -/
theorem trimBy_append {a b : Text} (ha : ∀ c ∈ a, p c = true) (hb : ∀ c ∈ b, p c = true) (t : Text) :
    trimBy p (a ++ t ++ b) = trimBy p t := by
  have hr : ∀ c ∈ b.reverse, p c = true := fun c hc => hb c (List.mem_reverse.1 hc)
  rw [trimBy, trimBy, List.append_assoc, List.dropWhile_append_of_pos ha, List.dropWhile_append]
  split
  · rename_i h
    rw [List.isEmpty_iff.1 h, List.dropWhile_eq_nil_iff.2 hb]
  · rw [List.reverse_append, List.dropWhile_append_of_pos hr]

/-- A text is what is left of it between what is taken off its ends. -/
theorem exists_trimBy (p : Char → Bool) (t : Text) :
    ∃ a b, (∀ c ∈ a, p c = true) ∧ (∀ c ∈ b, p c = true) ∧ t = a ++ trimBy p t ++ b := by
  refine ⟨t.takeWhile p, ((t.dropWhile p).reverse.takeWhile p).reverse, fun c => List.mem_takeWhile_imp,
    fun c hc => List.mem_takeWhile_imp (List.mem_reverse.1 hc), ?_⟩
  rw [trimBy, List.append_assoc, ← List.reverse_append, List.takeWhile_append_dropWhile, List.reverse_reverse,
    List.takeWhile_append_dropWhile]

/-! ## White space -/

theorem isBlank_iff {t : Text} : t.isBlank = true ↔ ∀ c ∈ t, isSpace c = true := List.all_eq_true

theorem isBlank_takeWhile (t : Text) : Text.isBlank (t.takeWhile isSpace) = true :=
  isBlank_iff.2 fun _ => List.mem_takeWhile_imp

/-- The white space before a text ends where the text begins. -/
theorem dropWhile_blank {gap rest : Text} (hg : gap.isBlank = true) (hr : ∀ c, rest.head? = some c → isSpace c = false) :
    (gap ++ rest).dropWhile isSpace = rest := by
  rw [List.dropWhile_append_of_pos (isBlank_iff.1 hg), dropWhile_eq_self hr]

/-- White space around a text is of no account. -/
theorem trim_append {before after : Text} (hb : before.isBlank = true) (ha : after.isBlank = true) (t : Text) :
    trim (before ++ t ++ after) = trim t :=
  trimBy_append (isBlank_iff.1 hb) (isBlank_iff.1 ha) t

/-- A text is what is left of it between white space. -/
theorem exists_trim (t : Text) :
    ∃ before after, before.isBlank = true ∧ after.isBlank = true ∧ t = before ++ trim t ++ after := by
  obtain ⟨before, after, hb, ha, ht⟩ := exists_trimBy isSpace t
  exact ⟨before, after, isBlank_iff.2 hb, isBlank_iff.2 ha, ht⟩

/-- A text without white space is left as it is. -/
theorem trim_eq_self {t : Text} (h : ∀ c ∈ t, isSpace c = false) : trim t = t :=
  trimBy_eq_self (fun c hc => h c (List.mem_of_head? hc)) fun c hc => h c (List.mem_of_getLast? hc)

/-- A text between two others without white space. -/
theorem trim_eq_self_of_ends {first middle last : Text} (hf : first ≠ []) (hfirst : ∀ c ∈ first, isSpace c = false)
    (hl : last ≠ []) (hlast : ∀ c ∈ last, isSpace c = false) :
    trim (first ++ middle ++ last) = first ++ middle ++ last := by
  refine trimBy_eq_self (fun c hc => ?_) (fun c hc => ?_)
  · rw [List.append_assoc, List.head?_append, List.head?_eq_some_head hf, Option.some_or] at hc
    exact hfirst c (List.mem_of_head? ((List.head?_eq_some_head hf).trans hc))
  · rw [List.getLast?_append, List.getLast?_eq_some_getLast hl, Option.some_or] at hc
    exact hlast c (List.mem_of_getLast? ((List.getLast?_eq_some_getLast hl).trans hc))

end BatchMigrate.Text
