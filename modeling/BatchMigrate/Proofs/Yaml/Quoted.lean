import Mathlib.Algebra.Ring.Nat
import BatchMigrate.Proofs.Yaml.Literal

/-!
# Reading quoted scalars

Between double quotes each character is read from its escape (`scanDouble_escape`), and no line ends. Between single
quotes lines may end, at separators of lines and paragraphs: the blanks with which the next line is indented mean
nothing, and blanks of the text itself do not stand beside line breaks, because such a text is not written in this style
(`foldParts_single`).
-/

namespace BatchMigrate.Yaml

/-! ## Double quotes -/

section Double

variable {c : Char} {r : Text}

theorem digitIn?_digitChar : ∀ d < 16, digitIn? 16 (Nat.digitChar d).toUpper = some d := by decide

theorem escapeDigits_succ (count n : Nat) :
    escapeDigits (count + 1) n = escapeDigits count (n / 16) ++ [(Nat.digitChar (n % 16)).toUpper] := by
  rw [escapeDigits, Text.hexDigits, List.map_append]
  rfl

/-- The first digits of an escape make up a value, to which the others are added. -/
theorem scanDouble_digits : ∀ (count left n value : Nat) (r : Text), left ≠ 0 → n < 16 ^ count →
    scanDouble (.digits (count + left) value) (escapeDigits count n ++ r) =
      scanDouble (.digits left (16 ^ count * value + n)) r
  | 0, left, n, value, r, _, hn => by
    have hn : n = 0 := by omega
    simp [escapeDigits, Text.hexDigits, hn]
  | count + 1, left, n, value, r, hleft, hn => by
    -- the last digit is split off: the digits of `n / 16` are read first
    have hhigh : n / 16 < 16 ^ count := by
      rw [Nat.pow_succ] at hn
      omega
    have hvalue : 16 * (16 ^ count * value + n / 16) + n % 16 = 16 ^ (count + 1) * value + n := by
      rw [Nat.pow_succ, Nat.mul_add, ← Nat.mul_assoc, Nat.mul_comm 16 (16 ^ count)]
      omega
    rw [escapeDigits_succ, List.append_assoc, Nat.add_assoc, scanDouble_digits count (1 + left) _ _ _ (by omega) hhigh,
      List.singleton_append, scanDouble, digitIn?_digitChar _ (Nat.mod_lt _ (by decide)), Option.bind_some,
      if_neg (by omega), hvalue, Nat.add_sub_cancel_left]

theorem charOfNat?_toNat (c : Char) : charOfNat? c.toNat = some c := by
  rw [charOfNat?, dif_pos (show c.toNat.isValidChar from c.valid)]
  rfl

/-- The digits of an escape stand for their character. -/
theorem scanDouble_escapeDigits {count : Nat} (h : c.toNat < 16 ^ (count + 1)) (r : Text) :
    scanDouble (.digits (count + 1) 0) (escapeDigits (count + 1) c.toNat ++ r) =
      (scanDouble .text r).map fun (parts, rest) => (.char c :: parts, rest) := by
  have hhigh : c.toNat / 16 < 16 ^ count := by
    rw [Nat.pow_succ] at h
    omega
  have hvalue : 16 * (16 ^ count * 0 + c.toNat / 16) + c.toNat % 16 = c.toNat := by omega
  rw [escapeDigits_succ, List.append_assoc, scanDouble_digits count 1 _ _ _ (by decide) hhigh, List.singleton_append,
    scanDouble, digitIn?_digitChar _ (Nat.mod_lt _ (by decide)), Option.bind_some, if_pos rfl, hvalue, charOfNat?_toNat,
    Option.bind_some]

/-- The part that a character is read as between double quotes. -/
def doublePart (c : Char) : Part := if c = ' ' then .blank ' ' else .char c

/-- The letters of escapes mean what they are written for. -/
theorem escapes_of_mem_escapeLetters : ∀ p ∈ escapeLetters,
    isBreak p.2 = false ∧ escapes.lookup p.2 = some p.1 ∧ p.1 ≠ ' ' := by
  decide

/-- An escape that is a letter is read as what the letter is written for. -/
theorem scanDouble_letter {letter : Char} (h : escapeLetters.lookup c = some letter) (r : Text) :
    scanDouble .text (['\\', letter] ++ r) =
      (scanDouble .text r).map fun (parts, rest) => (doublePart c :: parts, rest) := by
  obtain ⟨before, after, he, -⟩ := List.lookup_eq_some_iff.1 h
  obtain ⟨hbreak, hmeant, hspace⟩ := escapes_of_mem_escapeLetters (c, letter) (by rw [he]; simp)
  have hpart : doublePart c = .char c := if_neg hspace
  have hstart : scanDouble .text (['\\', letter] ++ r) = scanDouble .escape (letter :: r) := rfl
  rw [hstart, scanDouble, if_neg (by simpa using hbreak), hmeant, hpart]

/-- A character that has no letter is read as itself. -/
theorem scanDouble_ofChar (h : escapeLetters.lookup c = none) (r : Text) : scanDouble .text (c :: r) =
    (scanDouble .text r).map fun (parts, rest) => (doublePart c :: parts, rest) := by
  have hne : ∀ p ∈ escapeLetters, c ≠ p.1 := fun p hp => bne_iff_ne.1 (List.lookup_eq_none_iff.1 h p hp)
  have hquote : c ≠ '\x22' := hne ('\x22', '\x22') (by decide)
  have hslash : c ≠ '\\' := hne ('\\', '\\') (by decide)
  have htab : c ≠ '\t' := hne ('\t', 't') (by decide)
  have hbreak : isBreak c = false := by
    have hbreaks : ['\n', '\r', '\u0085', '\u2028', '\u2029'].all (fun d => (escapeLetters.lookup d).isSome) := rfl
    refine decide_eq_false fun hc => ?_
    have hletter := List.all_eq_true.1 hbreaks c hc
    rw [h] at hletter
    cases hletter
  have hpart : Part.ofChar c = doublePart c := by
    by_cases hspace : c = ' '
    · rw [hspace]
      rfl
    · simp [Part.ofChar, doublePart, isBlank, hbreak, hspace, htab]
  rw [scanDouble, if_neg hquote, if_neg hslash, if_neg (by simp [hbreak]), hpart]

/-- **A character** between double quotes is read from its escape. -/
theorem scanDouble_escape (c : Char) (r : Text) : scanDouble .text (escape c ++ r) =
    (scanDouble .text r).map fun (parts, rest) => (doublePart c :: parts, rest) := by
  unfold escape
  split
  · rename_i letter hletter
    exact scanDouble_letter hletter r
  · rename_i hnone
    split
    · exact scanDouble_ofChar hnone r
    · rename_i hprint
      have hspace : c ≠ ' ' := by
        rintro rfl
        exact hprint rfl
      have hpart : doublePart c = .char c := if_neg hspace
      rw [hpart]
      split
      · rename_i hsmall
        exact scanDouble_escapeDigits (Nat.lt_succ_of_le hsmall) r
      · split
        · rename_i hmiddle
          exact scanDouble_escapeDigits (Nat.lt_succ_of_le hmiddle) r
        · have hvalid : c.toNat < 0x110000 := by
            rcases c.valid with hlow | ⟨-, hhigh⟩
            · exact Nat.lt_trans hlow (by decide)
            · exact hhigh
          exact scanDouble_escapeDigits (Nat.lt_trans hvalid (by decide)) r

theorem foldParts_double : ∀ (t before : Text), foldParts (.blanks before) (t.map doublePart) = before ++ t
  | [], before => (List.append_nil before).symm
  | c :: t, before => by
    rw [List.map_cons, doublePart]
    split
    · rename_i hc
      rw [foldParts, Pending.addBlank, foldParts_double t, hc, List.append_assoc]
      rfl
    · rw [foldParts, foldParts_double t]
      rfl

theorem scanDouble_flatMap (rest t : Text) :
    scanDouble .text (t.flatMap escape ++ '\x22' :: rest) = some (t.map doublePart, rest) := by
  induction t with
  | nil => rfl
  | cons c t ih =>
    rw [List.flatMap_cons, List.append_assoc, scanDouble_escape, ih]
    rfl

/-- **A double-quoted text** is read back. -/
theorem quoted?_double (t rest : Text) :
    ∃ spans, quoted? ('\x22' :: t.flatMap escape ++ '\x22' :: rest) = some (t, spans, rest) := by
  refine ⟨(t.map doublePart).any Part.endsLine, ?_⟩
  rw [List.cons_append, quoted?, scanDouble_flatMap, Option.map_some]
  exact congrArg (fun text => some (text, _, rest)) (foldParts_double t [])

theorem isPrintable_escapeDigits : ∀ (count n : Nat), ∀ d ∈ escapeDigits count n, isPrintable d = true
  | 0, _, _, hd => by cases hd
  | count + 1, n, d, hd => by
    have hdigits : ∀ m < 16, isPrintable (Nat.digitChar m).toUpper = true := by decide
    rw [escapeDigits_succ, List.mem_append, List.mem_singleton] at hd
    rcases hd with hd | rfl
    · exact isPrintable_escapeDigits count _ d hd
    · exact hdigits _ (Nat.mod_lt n (by decide))

/-- Escapes are written as they are. -/
theorem isPrintable_escape (c : Char) : ∀ d ∈ escape c, isPrintable d = true := by
  unfold escape
  split
  · rename_i letter hletter
    have hletters : ∀ p ∈ escapeLetters, isPrintable p.2 = true := by decide
    obtain ⟨before, after, he, -⟩ := List.lookup_eq_some_iff.1 hletter
    have hprint := hletters (c, letter) (by rw [he]; simp)
    exact List.forall_mem_cons.2 ⟨rfl, List.forall_mem_singleton.2 hprint⟩
  · split
    · rename_i hprint
      exact List.forall_mem_singleton.2 hprint
    · split
      · exact List.forall_mem_cons.2 ⟨rfl, List.forall_mem_cons.2 ⟨rfl, isPrintable_escapeDigits 2 _⟩⟩
      · split
        · exact List.forall_mem_cons.2 ⟨rfl, List.forall_mem_cons.2 ⟨rfl, isPrintable_escapeDigits 4 _⟩⟩
        · exact List.forall_mem_cons.2 ⟨rfl, List.forall_mem_cons.2 ⟨rfl, isPrintable_escapeDigits 8 _⟩⟩

end Double

/-! ## Single quotes -/

section Single

variable {c : Char} {r : Text} {indent : Nat}

/-- The parts that the inside of a single-quoted text is read as. -/
def singleParts (indent : Nat) (atStart : Bool) : Text → List Part
  | [] => if atStart then List.replicate indent (.blank ' ') else []
  | c :: r =>
    if isBreak c then .lineBreak c :: singleParts indent true r
    else (if atStart then List.replicate indent (.blank ' ') else []) ++ .ofChar c :: singleParts indent false r

theorem scanSingle_blanks (r : Text) : ∀ n : Nat, scanSingle (blanks n ++ r) =
    (scanSingle r).map fun (parts, rest) => (List.replicate n (.blank ' ') ++ parts, rest)
  | 0 => by
    show scanSingle r = _
    cases scanSingle r <;> rfl
  | n + 1 => by
    show (scanSingle (blanks n ++ r)).map (fun (parts, rest) => (Part.blank ' ' :: parts, rest)) = _
    rw [scanSingle_blanks r n, Option.map_map]
    rfl

theorem scanSingle_ofChar {c : Char} (hc : c ≠ '\x27') (hmark : isBreak c = true → isMarker r = false) :
    scanSingle (c :: r) = (scanSingle r).map fun (parts, rest) => (.ofChar c :: parts, rest) := by
  rw [scanSingle, if_neg]
  · simp only [Bool.and_eq_true, not_and, Bool.not_eq_true]
    exact hmark
  · rintro s rfl
    exact absurd rfl hc
  · rintro rfl
    exact absurd rfl hc

theorem isMarker_cons {c : Char} (hdash : c ≠ '-') (hdot : c ≠ '.') (r : Text) : isMarker (c :: r) = false := by
  simp [isMarker, List.isPrefixOf_cons_cons, Ne.symm hdash, Ne.symm hdot]

theorem isMarker_blanks (h : 0 < indent) (r : Text) : isMarker (blanks indent ++ r) = false := by
  obtain ⟨n, rfl⟩ := Nat.exists_eq_succ_of_ne_zero (Nat.ne_of_gt h)
  exact isMarker_cons (by decide) (by decide) _

/-- The lines after the first are indented, and so none of them is a mark between documents. -/
theorem isMarker_singleBody (hindent : 0 < indent) (s t : Text) : isMarker (singleBody indent true t ++ s) = false := by
  cases t with
  | nil => exact isMarker_blanks hindent s
  | cons c r =>
    rw [singleBody]
    split
    · rename_i hbreak
      refine isMarker_cons ?_ ?_ _ <;> rintro rfl <;> cases hbreak
    · rw [if_pos rfl, List.append_assoc, List.append_assoc]
      exact isMarker_blanks hindent _

/-- A quote is doubled, and stands for itself like any other character of a line. -/
theorem scanSingle_char (hbreak : ¬isBreak c = true) (r : Text) :
    scanSingle ((if c = '\x27' then ['\x27', '\x27'] else [c]) ++ r) =
      (scanSingle r).map fun (parts, rest) => (.ofChar c :: parts, rest) := by
  split
  · rename_i hquote
    subst hquote
    rfl
  · rename_i hquote
    exact scanSingle_ofChar hquote fun h => absurd h hbreak

/-- A single-quoted text is scanned to its closing quote. -/
theorem scanSingle_singleBody {rest : Text} (hindent : 0 < indent) (hrest : rest.head? ≠ some '\x27') :
    ∀ (t : Text) (atStart : Bool), scanSingle (singleBody indent atStart t ++ '\x27' :: rest) =
      some (singleParts indent atStart t, rest)
  | [], atStart => by
    have hclose : scanSingle ('\x27' :: rest) = some ([], rest) := by
      rw [scanSingle]
      rintro s rfl
      exact hrest rfl
    cases atStart with
    | false => exact hclose
    | true =>
      rw [singleBody, if_pos rfl, scanSingle_blanks, hclose, singleParts, if_pos rfl]
      simp
  | c :: t, atStart => by
    rw [singleBody, singleParts]
    split
    · rename_i hbreak
      have hquote : c ≠ '\x27' := by
        rintro rfl
        cases hbreak
      rw [List.cons_append, scanSingle_ofChar hquote fun _ => isMarker_singleBody hindent _ t,
        scanSingle_singleBody hindent hrest t true, Part.ofChar, if_pos hbreak]
      rfl
    · rename_i hbreak
      have hchar := scanSingle_char hbreak (singleBody indent false t ++ '\x27' :: rest)
      rw [scanSingle_singleBody hindent hrest t false] at hchar
      rw [List.append_assoc, List.append_assoc]
      cases atStart with
      | false => exact hchar
      | true =>
        rw [if_pos rfl, scanSingle_blanks, hchar, if_pos rfl]
        rfl

/-! ### Folding the lines -/

/-- What may be pending before the rest of a text: at the start of a line the breaks before it, and otherwise the blanks
before it. Blanks of the text do not stand beside breaks, and the first of the breaks is no line feed. -/
def FoldsTo : Bool → Pending → Text → Prop
  | true, .breaks first _, t => first ≠ ['\n'] ∧ t.head? ≠ some ' '
  | false, .blanks before, t => before ≠ [] → ∀ c ∈ t.head?, isBreak c = false
  | _, _, _ => False

theorem hasPair_tail {p q : Char → Bool} : ∀ {r : Text}, hasPair p q (c :: r) = false → hasPair p q r = false
  | [], _ => rfl
  | _ :: _, h => (Bool.or_eq_false_iff.1 h).2

theorem hasPair_head {p q : Char → Bool} (hc : p c = true) :
    ∀ {r : Text}, hasPair p q (c :: r) = false → ∀ d ∈ r.head?, q d = false
  | [], _, d, hd => by cases hd
  | d :: r, h, _, rfl => by
    have h := (Bool.or_eq_false_iff.1 h).1
    rwa [hc, Bool.true_and] at h

theorem FoldsTo.addBreak {atStart : Bool} {pending : Pending} (h : FoldsTo atStart pending (c :: r))
    (hc : isBreak c = true) (hfeed : c ≠ '\n') (hnext : r.head? ≠ some ' ') :
    FoldsTo true (pending.addBreak c) r ∧ (pending.addBreak c).text = pending.text ++ [c] := by
  match atStart, pending, h with
  | true, .breaks first more, h => exact ⟨⟨h.1, hnext⟩, by simp [Pending.addBreak, Pending.text, h.1]⟩
  | false, .blanks before, h =>
    have hbefore : before = [] := Decidable.byContradiction fun hne => by
      have hfalse := h hne c rfl
      rw [hc] at hfalse
      cases hfalse
    have hfirst : [c] ≠ ['\n'] := fun he => hfeed (List.singleton_inj.1 he)
    exact ⟨⟨hfirst, hnext⟩, by simp [Pending.addBreak, Pending.text, hbefore, hfeed]⟩

/-- Indentation means nothing. -/
theorem foldParts_indent {atStart : Bool} {pending : Pending} {t : Text} (h : FoldsTo atStart pending t)
    (indent : Nat) (parts : List Part) :
    foldParts pending ((if atStart then List.replicate indent (.blank ' ') else []) ++ parts) =
      foldParts pending parts := by
  match atStart, pending, h with
  | false, .blanks before, _ => rfl
  | true, .breaks first more, _ =>
    rw [if_pos rfl]
    induction indent with
    | zero => rfl
    | succ n ih => exact ih

theorem foldParts_single : ∀ {t : Text} {atStart : Bool} {pending : Pending}, FoldsTo atStart pending t →
    (∀ c ∈ t, isPrintable c = true ∧ c ≠ '\n') → hasBreakSpace t = false → hasSpaceBreak t = false →
    foldParts pending (singleParts indent atStart t) = pending.text ++ t
  | [], atStart, pending, hfolds, _, _, _ => by
    have h := foldParts_indent hfolds indent []
    rw [List.append_nil] at h
    rw [singleParts, h, List.append_nil]
    rfl
  | c :: t, atStart, pending, hfolds, hchars, hbreaks, hspaces => by
    obtain ⟨⟨hprint, hfeed⟩, hchars⟩ := List.forall_mem_cons.1 hchars
    have ih {atStart : Bool} {pending : Pending} (h : FoldsTo atStart pending t) :=
      foldParts_single h hchars (hasPair_tail hbreaks) (hasPair_tail hspaces)
    -- `FoldsTo` carries the induction: a break needs no blanks before it, a blank no break after it
    rw [singleParts]
    split
    · rename_i hbreak
      have hnext : t.head? ≠ some ' ' := by
        intro ht
        cases hasPair_head hbreak hbreaks ' ' ht
      obtain ⟨hfolds, htext⟩ := hfolds.addBreak hbreak hfeed hnext
      rw [foldParts, ih hfolds, htext, List.append_assoc]
      rfl
    · rename_i hbreak
      rw [foldParts_indent hfolds, Part.ofChar, if_neg hbreak]
      by_cases hc : c = ' '
      · subst hc
        match atStart, pending, hfolds with
        | true, .breaks first more, hfolds => exact absurd rfl hfolds.2
        | false, .blanks before, _ =>
          have hnext : FoldsTo false (.blanks (before ++ [' '])) t := fun _ => hasPair_head rfl hspaces
          rw [if_pos (show isBlank ' ' = true from rfl), foldParts, Pending.addBlank, ih hnext]
          simp [Pending.text]
      · have hnext : FoldsTo false (.blanks []) t := fun h => absurd rfl h
        rw [if_neg (by simp [not_isBlank_of_isPrintable hprint hc]), foldParts, ih hnext]
        rfl

theorem isPrintable_singleBody : ∀ {t : Text} (atStart : Bool), (∀ c ∈ t, isPrintable c = true) →
    ∀ d ∈ singleBody indent atStart t, isPrintable d = true
  | [], atStart, _, d, hd => by
    cases atStart with
    | false => cases hd
    | true => exact isPrintable_of_mem_blanks hd
  | c :: t, atStart, h, d, hd => by
    obtain ⟨hc, ht⟩ := List.forall_mem_cons.1 h
    rw [singleBody] at hd
    split at hd
    · rcases List.mem_cons.1 hd with rfl | hd
      · exact hc
      · exact isPrintable_singleBody true ht d hd
    · rcases List.mem_append.1 hd with hd | hd
      · rcases List.mem_append.1 hd with hd | hd
        · split at hd
          · exact isPrintable_of_mem_blanks hd
          · cases hd
        · split at hd
          · exact List.all_eq_true.1 (show ['\x27', '\x27'].all isPrintable = true from rfl) d hd
          · rw [List.mem_singleton.1 hd]
            exact hc
      · exact isPrintable_singleBody false ht d hd

theorem printable_of_fitsSingle {t : Text} (h : fitsSingle t = true) : ∀ c ∈ t, isPrintable c = true := by
  simp only [fitsSingle, hasSpecial, Bool.and_eq_true, Bool.not_not] at h
  exact List.all_eq_true.1 h.2

/-- **A single-quoted text** is read back. -/
theorem quoted?_single {t rest : Text} (hindent : 0 < indent) (hfits : fitsSingle t = true) (hfeed : '\n' ∉ t)
    (hrest : rest.head? ≠ some '\x27') :
    ∃ spans, quoted? ('\x27' :: singleBody indent false t ++ '\x27' :: rest) = some (t, spans, rest) := by
  have hchars : ∀ c ∈ t, isPrintable c = true ∧ c ≠ '\n' := fun c hc =>
    ⟨printable_of_fitsSingle hfits c hc, fun he => hfeed (he ▸ hc)⟩
  simp only [fitsSingle, Bool.and_eq_true, Bool.not_eq_true'] at hfits
  obtain ⟨⟨hbreaks, hspaces⟩, -⟩ := hfits
  have hfolds : FoldsTo false (.blanks []) t := fun h => absurd rfl h
  refine ⟨(singleParts indent false t).any Part.endsLine, ?_⟩
  rw [List.cons_append, quoted?, scanSingle_singleBody hindent hrest, Option.map_some]
  exact congrArg (fun text => some (text, _, rest)) (foldParts_single hfolds hchars hbreaks hspaces)

end Single

end BatchMigrate.Yaml
