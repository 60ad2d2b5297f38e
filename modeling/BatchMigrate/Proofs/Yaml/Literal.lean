import BatchMigrate.Proofs.Yaml.Plain

/-!
# Reading literal blocks

The header of a literal block says how its lines are indented, if its first line does not show it, and which of the line
breaks at its end belong to the text (`literalChomp`). From the lines the text is put together again with their line
breaks, and the first line that begins further to the left is not one of them (`blockPieces_literalBody`).
-/

namespace BatchMigrate.Yaml

section Literal

variable {c : Char} {r t rest : Text} {least indent : Nat}

/-! ## The header -/

/-- The first line of the text does not show how it is indented. -/
def hidesIndent (t : Text) : Bool := t.head?.any fun c => c = ' ' || isBreak c

/-- What becomes of the line breaks at the end of a literal block: they are dropped if there are none in the text, and
are all kept if one alone would not be the end of the text. -/
def literalChomp (t : Text) : Chomp :=
  match t.reverse with
  | [] => .strip
  | c :: r => if !isBreak c then .strip else if r = [] || r.head?.any isBreak then .keep else .clip

/-- The sign in the header that says what becomes of the line breaks at the end. -/
def Chomp.sign : Chomp → Text
  | strip => ['-']
  | clip => []
  | keep => ['+']

theorem literalHeader_eq (t : Text) :
    literalHeader t = (if hidesIndent t then ['2'] else []) ++ (literalChomp t).sign := by
  rw [literalHeader, literalChomp, hidesIndent]
  congr 1
  cases t.reverse with
  | nil => rfl
  | cons c r =>
    show _ = Chomp.sign (if _ then _ else if _ then _ else _)
    rw [apply_ite Chomp.sign, apply_ite Chomp.sign]
    rfl

theorem blockHeader_signs (chomp : Chomp) (lines : Text) : ∀ hidden : Bool,
    blockHeader ((if hidden then ['2'] else []) ++ chomp.sign ++ '\n' :: lines) =
      ({ chomp, indent := if hidden then some 2 else none }, '\n' :: lines)
  | true => by cases chomp <;> rfl
  | false => by cases chomp <;> cases lines <;> rfl

/-- The blanks before the first line are its indentation. -/
theorem findIndent?_blanks (hspace : c ≠ ' ') (htab : c ≠ '\t') (hbreak : isBreak c = false) (s : Text) :
    ∀ k column : Nat, findIndent? column 0 (blanks k ++ c :: s) = some (column + k)
  | 0, column => by
    show findIndent? column 0 (c :: s) = _
    rw [findIndent?, if_neg hspace, if_neg htab, if_neg (by simp [hbreak]), Nat.zero_max]
    rfl
  | k + 1, column => by
    show findIndent? (column + 1) 0 (blanks k ++ c :: s) = _
    rw [findIndent?_blanks hspace htab hbreak s k, Nat.add_assoc, Nat.add_comm 1 k]

theorem findIndent?_literalBody (hprint : isPrintable c = true) (hshows : hidesIndent (c :: r) = false) :
    findIndent? 0 0 (literalBody indent true (c :: r) ++ rest) = some indent := by
  simp only [hidesIndent, List.head?_cons, Option.any_some, Bool.or_eq_false_iff, decide_eq_false_iff_not] at hshows
  obtain ⟨hspace, hbreak⟩ := hshows
  have htab : c ≠ '\t' := by
    rintro rfl
    cases hprint
  rw [literalBody, if_neg (by simp [hbreak]), if_pos rfl, List.append_assoc, List.cons_append,
    findIndent?_blanks hspace htab hbreak, Nat.zero_add]

/-! ## The lines -/

/-- The pieces that the lines of a literal block are read as; the last line ends like the others. -/
def literalPieces (atStart : Bool) : Text → List BlockPiece
  | [] => if atStart then [] else [.lineBreak '\n']
  | c :: r => if isBreak c then .lineBreak c :: literalPieces true r else .char c :: literalPieces false r

/-- The blanks in the margin of a line are its indentation, as long as they are not too many. -/
theorem blockPieces_blanks (line s : Text) : ∀ {k column : Nat}, column + k ≤ indent →
    blockPieces indent (.margin column line) (blanks k ++ s) = blockPieces indent (.margin (column + k) line) s
  | 0, _, _ => rfl
  | k + 1, column, h => by
    have hcolumn : column ≠ indent := by omega
    show blockPieces indent (.margin column line) (' ' :: (blanks k ++ s)) = _
    rw [blockPieces, if_neg (by decide), if_neg hcolumn, if_pos rfl, blockPieces_blanks line s (by omega),
      Nat.add_assoc, Nat.add_comm 1 k]

/-- A line that begins further to the left ends the block. -/
theorem blockPieces_of_endsNode (h : EndsNode indent rest) : blockPieces indent (.margin 0 rest) rest = ([], rest) := by
  cases h with
  | done => rfl
  | @line k c r hk hc =>
    obtain ⟨hblank, hbreak, -⟩ := beginsText_iff.1 hc
    obtain ⟨hspace, -⟩ := isBlank_eq_false_iff.1 hblank
    rw [blockPieces_blanks _ _ (by omega), Nat.zero_add, blockPieces, if_neg (by simp [hbreak]),
      if_neg (Nat.ne_of_lt hk), if_neg hspace]

mutual

/-- The lines of a literal block are read to its end, from the start of one. -/
theorem blockPieces_literalBody (h : EndsNode indent rest) : ∀ t : Text,
    blockPieces indent (.margin 0 (literalBody indent true t ++ rest)) (literalBody indent true t ++ rest) =
      (literalPieces true t, rest)
  | [] => blockPieces_of_endsNode h
  | c :: r => by
    rw [literalBody, literalPieces]
    split
    · rename_i hbreak
      rw [List.cons_append, blockPieces, if_pos hbreak, blockPieces_literalBody h r]
    · rename_i hbreak
      rw [if_pos rfl, List.append_assoc, List.cons_append, blockPieces_blanks _ _ (by omega), Nat.zero_add, blockPieces,
        if_neg hbreak, if_pos rfl, blockPieces_literalBody_text h r]

/-- The lines of a literal block are read to its end, from within one. -/
theorem blockPieces_literalBody_text (h : EndsNode indent rest) : ∀ t : Text,
    blockPieces indent .text (literalBody indent false t ++ rest) = (literalPieces false t, rest)
  | [] => by
    show blockPieces indent .text ('\n' :: rest) = _
    rw [blockPieces, if_pos (by decide), blockPieces_of_endsNode h]
    rfl
  | c :: r => by
    rw [literalBody, literalPieces]
    split
    · rename_i hbreak
      rw [List.cons_append, blockPieces, if_pos hbreak, blockPieces_literalBody h r]
    · rename_i hbreak
      rw [if_neg (by decide), List.nil_append, List.cons_append, blockPieces, if_neg hbreak,
        blockPieces_literalBody_text h r]

end

/-! ## The text -/

/-- The piece that a character of a literal block is read as. -/
def BlockPiece.ofChar (c : Char) : BlockPiece := if isBreak c then .lineBreak c else .char c

theorem BlockPiece.toChar_ofChar (c : Char) : (ofChar c).toChar = c := by
  unfold ofChar
  split <;> rfl

theorem BlockPiece.map_toChar_ofChar (t : Text) : (t.map ofChar).map toChar = t := by
  rw [List.map_map, show toChar ∘ ofChar = id from funext toChar_ofChar, List.map_id]

theorem literalPieces_concat (c : Char) : ∀ (front : Text) (atStart : Bool), literalPieces atStart (front ++ [c]) =
    front.map BlockPiece.ofChar ++ if isBreak c then [.lineBreak c] else [.char c, .lineBreak '\n']
  | [], _ => rfl
  | d :: front, _ => by
    rw [List.cons_append, literalPieces, literalPieces_concat c front, literalPieces_concat c front, List.map_cons,
      BlockPiece.ofChar]
    split <;> rfl

/-- When all line breaks at the end are kept, the text is all that the pieces hold. -/
theorem blockText_keep (pieces : List BlockPiece) : blockText false .keep pieces = pieces.map BlockPiece.toChar := by
  rw [blockText, if_neg (by decide), Chomp.apply, ← List.map_append, ← List.reverse_append,
    List.takeWhile_append_dropWhile, List.reverse_reverse]

/-- The end of the text, when one line break stands there. -/
theorem blockText_lineBreak (chomp : Chomp) (pieces : List BlockPiece) (d c : Char) :
    blockText false chomp (pieces ++ [.char d, .lineBreak c]) =
      pieces.map BlockPiece.toChar ++ d :: chomp.apply true [c] := by
  have hbreak : BlockPiece.isLineBreak (.lineBreak c) = true := rfl
  have hchar : BlockPiece.isLineBreak (.char d) = false := rfl
  simp [blockText, hbreak, hchar, BlockPiece.toChar]

theorem blockText_literalPieces (h : t ≠ []) : blockText false (literalChomp t) (literalPieces true t) = t := by
  obtain rfl | ⟨front, c, rfl⟩ := List.eq_nil_or_concat t
  · exact absurd rfl h
  · rw [List.concat_eq_append, literalPieces_concat, literalChomp, List.reverse_append, List.reverse_singleton]
    show blockText false (if !isBreak c then .strip
      else if front.reverse = [] || front.reverse.head?.any isBreak then .keep else .clip) _ = _
    by_cases hbreak : isBreak c = true
    · rw [if_neg (by simp [hbreak]), if_pos hbreak]
      split
      · rw [blockText_keep, List.map_append, BlockPiece.map_toChar_ofChar]
        rfl
      · rename_i hclip
        obtain rfl | ⟨front, d, rfl⟩ := List.eq_nil_or_concat front
        · exact absurd rfl hclip
        · have hd : isBreak d = false := by simpa using hclip
          rw [List.concat_eq_append, List.map_append, List.map_singleton, BlockPiece.ofChar, hd,
            if_neg Bool.false_ne_true, List.append_assoc, List.singleton_append, blockText_lineBreak,
            BlockPiece.map_toChar_ofChar, List.append_assoc]
          rfl
    · rw [if_pos (by simp [hbreak]), if_neg hbreak, blockText_lineBreak, BlockPiece.map_toChar_ofChar]
      rfl

theorem isPrintable_literalHeader (t : Text) : ∀ d ∈ literalHeader t, isPrintable d = true := by
  rw [literalHeader_eq]
  cases hidesIndent t <;> cases literalChomp t <;> exact List.all_eq_true.1 rfl

theorem isPrintable_literalBody : ∀ {t : Text} (atStart : Bool), (∀ c ∈ t, isPrintable c = true) →
    ∀ d ∈ literalBody indent atStart t, isPrintable d = true
  | [], atStart, _, d, hd => by
    cases atStart with
    | false =>
      rw [List.mem_singleton.1 hd]
      rfl
    | true => cases hd
  | c :: t, atStart, h, d, hd => by
    obtain ⟨hc, ht⟩ := List.forall_mem_cons.1 h
    rw [literalBody] at hd
    split at hd
    · rcases List.mem_cons.1 hd with rfl | hd
      · exact hc
      · exact isPrintable_literalBody true ht d hd
    · rcases List.mem_append.1 hd with hd | hd
      · split at hd
        · exact isPrintable_of_mem_blanks hd
        · cases hd
      · rcases List.mem_cons.1 hd with rfl | hd
        · exact hc
        · exact isPrintable_literalBody false ht d hd

theorem printable_of_fitsLiteral (h : fitsLiteral t = true) : ∀ c ∈ t, isPrintable c = true := by
  simp only [fitsLiteral, hasSpecial, Bool.and_eq_true, Bool.not_not] at h
  exact List.all_eq_true.1 h.2

/-- **A literal block** is read back, up to the line that ends it. -/
theorem blockScalar?_literal (hfits : fitsLiteral t = true) (hne : t ≠ []) (hleast : 1 ≤ least)
    (hrest : EndsNode least rest) :
    blockScalar? false least (literalHeader t ++ '\n' :: (literalBody (least + 1) true t ++ rest)) =
      some (t, rest) := by
  have hlines : afterHeader? false ('\n' :: (literalBody (least + 1) true t ++ rest)) =
      some (literalBody (least + 1) true t ++ rest) := rfl
  have hpieces := blockPieces_literalBody (hrest.mono (Nat.le_succ least)) t
  have htext := blockText_literalPieces hne
  rw [blockScalar?, literalHeader_eq, blockHeader_signs]
  cases hhides : hidesIndent t with
  | true =>
    have hindent : least - 1 + 2 = least + 1 := by omega
    simp only [if_true, hlines, hindent, hpieces, htext, Option.bind_eq_bind, Option.bind_some, Option.pure_def]
  | false =>
    have hindent : (findIndent? 0 0 (literalBody (least + 1) true t ++ rest)).map (fun n => max (max n least) 1) =
        some (least + 1) := by
      match t, hne, hhides with
      | c :: r, _, hhides =>
        rw [findIndent?_literalBody (printable_of_fitsLiteral hfits c List.mem_cons_self) hhides, Option.map_some,
          Option.some_inj]
        omega
    simp only [Bool.false_eq_true, if_false, hlines, hindent, hpieces, htext, Option.bind_eq_bind, Option.bind_some,
      Option.pure_def]

end Literal

end BatchMigrate.Yaml
