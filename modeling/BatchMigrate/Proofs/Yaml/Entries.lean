import BatchMigrate.Proofs.Yaml.Scalars

/-!
# Entries of mappings

What is written of an entry is read as its key and its node, whichever entries stand before and after it (`Entry`), because
what the next entry begins with ends the value before it (`endsValue_entryLines`). So a mapping is read back entry by entry
(`blockMap?_entryLines`), whatever entries it has and in whatever order, after a key (`blockValue?_entryLines`) as well as in a
document (`read?_entryLines`). The length of what is written bounds the depth of the recursion.
-/

namespace BatchMigrate.Yaml

/-! ## Keys -/

/-- A text that can be written as a key. -/
structure IsKey (key : Text) : Prop where
  fits : fitsPlain key = true
  ne_nil : key ≠ []
  short : key.length ≤ maxKeyLength

instance (key : Text) : Decidable (IsKey key) :=
  decidable_of_iff (fitsPlain key = true ∧ key ≠ [] ∧ key.length ≤ maxKeyLength)
    ⟨fun ⟨fits, ne_nil, short⟩ => ⟨fits, ne_nil, short⟩, fun h => ⟨h.fits, h.ne_nil, h.short⟩⟩

namespace IsKey

variable {key : Text}

/-- A key begins like text. -/
theorem begins (h : IsKey key) (s : Text) : ∃ c r, key ++ s = c :: r ∧ beginsText c = true := by
  match key, h.ne_nil with
  | c :: r, _ => exact ⟨c, r ++ s, rfl, beginsText_of_fitsPlain h.fits⟩

/-- The line of a key is no mark between documents. -/
theorem noMarker (h : IsKey key) (after : Text) : isMarker (key ++ ':' :: after) = false := by
  match key, h.ne_nil with
  | [c], _ => simp [isMarker, List.isPrefixOf_cons_cons]
  | [c, d], _ => simp [isMarker, List.isPrefixOf_cons_cons]
  | c :: d :: e :: r, _ =>
    obtain ⟨⟨hdashes, hdots⟩, -⟩ := indicators_of_fitsPlain h.fits
    have hprefix (x : Char) (hx : [x, x, x].isPrefixOf (c :: d :: e :: r) = false) :
        [x, x, x].isPrefixOf (c :: d :: e :: r ++ ':' :: after) = false := by
      simpa [List.isPrefixOf_cons_cons] using hx
    rw [isMarker, hprefix '-' hdashes, hprefix '.' hdots]
    rfl

end IsKey

section NoKey

variable {least : Nat} {t : Text} {p : Text × Text}

/-- A key is quoted or plain. -/
theorem beginsPlain_of_key? (h : key? least t = some p) (hquoted : quoted? t = none) : beginsPlain false t = true := by
  by_cases hplain : beginsPlain false t = true
  · exact hplain
  · rw [key?, scalar?, hquoted] at h
    simp only [hplain, Bool.false_eq_true, if_false, reduceCtorEq] at h

/-- No key begins like an item of a sequence. -/
theorem beginsItem_of_key? (h : key? least t = some p) : beginsItem t = false := by
  rw [← Bool.not_eq_true]
  intro hitem
  obtain ⟨hdash, hgap⟩ := Bool.and_eq_true_iff.1 hitem
  obtain ⟨r, rfl⟩ := List.head?_eq_some_iff.1 (of_decide_eq_true hdash)
  have hplain := beginsPlain_of_key? h rfl
  rw [beginsPlain, show atGap r = true from hgap] at hplain
  simp at hplain

/-- No key begins like a block scalar. -/
theorem beginsBlockScalar_of_key? (h : key? least t = some p) : beginsBlockScalar t = false := by
  rw [← Bool.not_eq_true]
  intro hscalar
  rcases Bool.or_eq_true_iff.1 hscalar with hbar | hbar <;>
    obtain ⟨r, rfl⟩ := List.head?_eq_some_iff.1 (of_decide_eq_true hbar) <;>
    cases beginsPlain_of_key? h rfl

end NoKey

/-! ## Values of keys -/

section Values

variable {key after rest : Text} {column fuel : Nat}

/-- The value of an entry, after the colon. -/
def blockValue? (fuel column : Nat) (after : Text) : Option (Node × Place) :=
  match settle .line after with
  | .inline rest => inlineNode? fuel (column + 1) rest
  | .fresh next rest =>
    if belongs column next rest then blockNode? fuel (column + 1) next rest
    else if next = column && beginsItem rest && !endsDocument next rest then
      (blockSeq? fuel column rest).map fun (items, place) => (.seq items, place)
    else some (.empty, .fresh next rest)

/-- An entry of a mapping is its key and its value, after which other entries may follow. -/
theorem blockMap?_entry {t : Text} {value : Node} {next : Nat} (hkey : key? (column + 1) t = some (key, after))
    (hvalue : blockValue? fuel column after = some (value, .fresh next rest)) : blockMap? (fuel + 1) column t =
      if next = column && !endsDocument next rest then
        (blockMap? fuel column rest).map fun (entries, place) => ((key, value) :: entries, place)
      else some ([(key, value)], .fresh next rest) := by
  unfold blockValue? at hvalue
  rw [blockMap?, hkey]
  simp only [Option.bind_eq_bind, Option.bind_some]
  cases hplace : settle .line after with
  | inline s =>
    simp only [hplace] at hvalue ⊢
    simp only [hvalue, Option.bind_some]
  | fresh first s =>
    simp only [hplace] at hvalue ⊢
    by_cases hbelongs : belongs column first s = true
    · rw [if_pos hbelongs] at hvalue ⊢
      simp only [hvalue, Option.bind_some]
    · rw [if_neg hbelongs] at hvalue ⊢
      by_cases hitem : (first = column && beginsItem s && !endsDocument first s) = true
      · rw [if_pos hitem] at hvalue ⊢
        simp only [hvalue, Option.bind_some]
      · rw [if_neg hitem] at hvalue ⊢
        cases hvalue
        rfl

/-- What may follow the value of a key at `column`: nothing, or a line that begins there or further to the left, and there
neither with an item of a sequence nor with a block scalar. -/
structure EndsValue (column : Nat) (rest : Text) : Prop where
  ends : EndsNode (column + 1) rest
  noItem : ∀ r, settle (.margin 0) rest = .fresh column r → beginsItem r = false
  noScalar : ∀ r, settle (.margin 0) rest = .fresh column r → beginsBlockScalar r = false

theorem EndsValue.of_endsNode (h : EndsNode column rest) : EndsValue column rest := by
  have hnone : ∀ r, settle (.margin 0) rest = .fresh column r → r = [] := by
    intro r hr
    cases h with
    | done =>
      cases hr
      rfl
    | line hk hc =>
      rw [settle_margin hc, Nat.zero_add, Place.fresh.injEq] at hr
      exact absurd hr.1 (Nat.ne_of_lt hk)
  refine ⟨h.mono (Nat.le_succ column), fun r hr => ?_, fun r hr => ?_⟩ <;> rw [hnone r hr] <;> rfl

/-- The next key ends a value. -/
theorem EndsValue.of_key? {least : Nat} {c : Char} {r : Text} {p : Text × Text} (hc : beginsText c = true)
    (h : key? least (c :: r) = some p) : EndsValue column (blanks column ++ c :: r) := by
  have hnext : ∀ r', settle (.margin 0) (blanks column ++ c :: r) = .fresh column r' → r' = c :: r := by
    intro r' hr'
    rw [settle_margin hc, Place.fresh.injEq] at hr'
    exact hr'.2.symm
  refine ⟨.line (Nat.lt_succ_self column) hc, fun r' hr' => ?_, fun r' hr' => ?_⟩ <;> rw [hnext r' hr']
  · exact beginsItem_of_key? h
  · exact beginsBlockScalar_of_key? h

/-- What follows a mapping is not an entry of it. -/
theorem EndsNode.noEntry {next : Nat} {r : Text} (h : EndsNode column rest)
    (hplace : settle (.margin 0) rest = .fresh next r) :
    ¬(next = column && !endsDocument next r) = true := by
  cases h with
  | done =>
    cases hplace
    simp [endsDocument]
  | line hk hc =>
    rw [settle_margin hc, Nat.zero_add, Place.fresh.injEq] at hplace
    simp [← hplace.1, Nat.ne_of_lt hk]

/-- A value on the line of its key. -/
theorem blockValue?_inline {c : Char} (hc : beginsText c = true) (r : Text) :
    blockValue? fuel column (' ' :: c :: r) = inlineNode? fuel (column + 1) (c :: r) := by
  rw [blockValue?, settle_blank, settle_line hc]

/-- Nothing is written after a key. -/
theorem blockValue?_nothing (hrest : EndsValue column rest) (fuel : Nat) :
    blockValue? fuel column ('\n' :: rest) = some (.empty, settle (.margin 0) rest) := by
  rw [blockValue?, settle_line_break]
  cases hrest with
  | mk ends noItem noScalar =>
    cases ends with
    | done => simp [settle, belongs, endsDocument, beginsItem]
    | @line k c r hk hc =>
      have hplace := settle_margin (c := c) (r := r) hc k 0
      rw [Nat.zero_add] at hplace
      have hle : ¬column < k := Nat.not_lt.2 (Nat.le_of_lt_succ hk)
      have hitem : k = column → beginsItem (c :: r) = false := fun hkc => noItem _ (by rw [hplace, hkc])
      have hscalar : k = column → beginsBlockScalar (c :: r) = false := fun hkc => noScalar _ (by rw [hplace, hkc])
      rw [hplace]
      dsimp only
      by_cases hkc : k = column
      · simp [belongs, hkc, hitem hkc, hscalar hkc]
      · simp [belongs, hle, hkc]

/-- Nothing but a pair of braces is written after a key. -/
theorem blockValue?_braces (fuel column : Nat) (rest : Text) :
    blockValue? (fuel + 2) column (.of " \x7b\x7d\n" ++ rest) = some (.map [], settle (.margin 0) rest) :=
  rfl

end Values

/-! ## Characters -/

/-- A character that a file may hold, and that stays as it is when line ends are made alike. -/
def isSteady (c : Char) : Bool := isAllowed c && c != '\r' && c != '\u0085'

theorem isSteady_of_isPrintable {c : Char} (h : isPrintable c = true) : isSteady c = true := by
  have hreturn : c ≠ '\r' := by
    rintro rfl
    cases h
  have hnext : c ≠ '\u0085' := by
    rintro rfl
    cases h
  have hallowed : isAllowed c = true := by
    simp only [isPrintable, isAllowed, Bool.or_eq_true, Bool.and_eq_true, decide_eq_true_eq] at h ⊢
    omega
  rw [isSteady, hallowed]
  simp [hreturn, hnext]

theorem isAllowed_of_isSteady {c : Char} (h : isSteady c = true) : isAllowed c = true :=
  (Bool.and_eq_true_iff.1 (Bool.and_eq_true_iff.1 h).1).1

/-- No line ends are changed in a text without carriage returns and their like. -/
theorem normalizeBreaks_of_isSteady : ∀ {t : Text}, (∀ c ∈ t, isSteady c = true) → normalizeBreaks t = t
  | [], _ => rfl
  | c :: t, h => by
    obtain ⟨hc, ht⟩ := List.forall_mem_cons.1 h
    simp only [isSteady, Bool.and_eq_true, bne_iff_ne] at hc
    rw [normalizeBreaks, normalizeBreaks_of_isSteady ht, if_neg (by simp [hc.1.2, hc.2])]
    intro r he
    exact absurd he hc.1.2

/-! ## Entries -/

/-- **An entry** of a mapping whose keys stand at `column`. What is written of it is read as its key and its node, whatever
follows that ends the value of a key. -/
structure Entry (column : Nat) where
  key : Text
  node : Node
  /-- What is written up to the colon, which belongs to it. -/
  head : Text
  /-- What is written after the colon, up to the end of the last line. -/
  body : Text
  begins : ∃ c r, head = c :: r ∧ beginsText c = true
  noMarker : ∀ rest, isMarker (head ++ rest) = false
  readsKey : ∀ least rest, key? least (head ++ (body ++ rest)) = some (key, body ++ rest)
  readsValue : ∀ {fuel rest}, body.length ≤ fuel → EndsValue column rest →
    blockValue? fuel column (body ++ rest) = some (node, settle (.margin 0) rest)
  steady : ∀ c ∈ head ++ body, isSteady c = true

namespace Entry

variable {column : Nat}

/-- What the entry is read as. -/
def pair (e : Entry column) : Text × Node := (e.key, e.node)

/-- An entry whose key is written plainly. -/
def ofKey {key : Text} (h : IsKey key) (node : Node) (body : Text) (gap : ∀ rest, atGap (body ++ rest) = true)
    (readsValue : ∀ {fuel rest}, body.length ≤ fuel → EndsValue column rest →
      blockValue? fuel column (body ++ rest) = some (node, settle (.margin 0) rest))
    (steady : ∀ c ∈ body, isSteady c = true) : Entry column where
  key
  node
  head := key ++ [':']
  body
  begins := h.begins [':']
  noMarker rest := by
    rw [List.append_assoc]
    exact h.noMarker rest
  readsKey least rest := by
    rw [List.append_assoc]
    exact key?_append h.fits h.ne_nil h.short (gap rest) least
  readsValue
  steady := by
    intro c hc
    rw [List.append_assoc, List.mem_append] at hc
    rcases hc with hc | hc
    · exact isSteady_of_isPrintable (printable_of_fitsPlain h.fits c hc)
    · rcases List.mem_cons.1 hc with rfl | hc
      · rfl
      · exact steady c hc

end Entry

/-! ## Mappings -/

section Mappings

variable {column fuel : Nat} {rest : Text} {l : List (Entry column)}

/-- The lines of entries. -/
def entryLines (l : List (Entry column)) : Text := l.flatMap fun e => blanks column ++ (e.head ++ e.body)

theorem entryLines_cons (e : Entry column) (l : List (Entry column)) (rest : Text) :
    entryLines (e :: l) ++ rest = blanks column ++ (e.head ++ (e.body ++ (entryLines l ++ rest))) := by
  simp [entryLines]

theorem length_entryLines (e : Entry column) (l : List (Entry column)) :
    e.body.length + (entryLines l).length + 1 ≤ (entryLines (e :: l)).length := by
  obtain ⟨c, r, he, _⟩ := e.begins
  simp only [entryLines, List.flatMap_cons, List.length_append, he, List.length_cons]
  omega

theorem isSteady_entryLines (l : List (Entry column)) : ∀ c ∈ entryLines l, isSteady c = true := by
  intro c hc
  obtain ⟨e, -, hc⟩ := List.mem_flatMap.1 hc
  rcases List.mem_append.1 hc with hc | hc
  · exact isSteady_of_isPrintable (isPrintable_of_mem_blanks hc)
  · exact e.steady c hc

theorem drop_blanks (column : Nat) (s : Text) : (blanks column ++ s).drop column = s :=
  List.drop_left' List.length_replicate

/-- The text that entries begin with, after the blanks of their first line. -/
structure BeginsMap (column : Nat) (s : Text) : Prop where
  settles : settle (.margin 0) s = .fresh column (s.drop column)
  noEnd : ∀ next, endsDocument next (s.drop column) = false
  noItem : beginsItem (s.drop column) = false
  isKey : ∀ least, (key? least (s.drop column)).isSome = true

theorem beginsMap_entryLines (hl : l ≠ []) (rest : Text) : BeginsMap column (entryLines l ++ rest) := by
  obtain ⟨e, l, rfl⟩ := List.exists_cons_of_ne_nil hl
  obtain ⟨c, r, he, hc⟩ := e.begins
  have hkey := fun least => e.readsKey least (entryLines l ++ rest)
  rw [entryLines_cons]
  refine ⟨?_, fun next => ?_, ?_, fun least => ?_⟩ <;> rw [drop_blanks]
  · rw [he, List.cons_append, settle_margin hc, Nat.zero_add]
  · rw [endsDocument, e.noMarker, he]
    simp
  · exact beginsItem_of_key? (hkey 0)
  · rw [hkey]
    rfl

/-- The next entry, or what follows the last one, ends a value. -/
theorem endsValue_entryLines (l : List (Entry column)) (hrest : EndsNode column rest) :
    EndsValue column (entryLines l ++ rest) := by
  cases l with
  | nil => exact .of_endsNode hrest
  | cons e l =>
    obtain ⟨c, r, he, hc⟩ := e.begins
    have hkey := e.readsKey 0 (entryLines l ++ rest)
    rw [he] at hkey
    rw [entryLines_cons, he]
    exact .of_key? hc hkey

/-- **A mapping** is read back, from its first key on. -/
theorem blockMap?_entryLines : ∀ (l : List (Entry column)) {fuel : Nat}, l ≠ [] → (entryLines l).length ≤ fuel →
    EndsNode column rest → blockMap? fuel column ((entryLines l ++ rest).drop column) =
      some (l.map Entry.pair, settle (.margin 0) rest)
  | e :: l, fuel, _, hfuel, hrest => by
    -- the colon pays for the entry, so that the fuel left is enough for its value and for the other entries
    have hlength := length_entryLines e l
    obtain ⟨fuel, rfl⟩ := Nat.exists_eq_succ_of_ne_zero (show fuel ≠ 0 by omega)
    have hread := e.readsValue (show e.body.length ≤ fuel by omega) (endsValue_entryLines l hrest)
    have hkey := e.readsKey (column + 1) (entryLines l ++ rest)
    rw [entryLines_cons, drop_blanks]
    by_cases hl : l = []
    · subst hl
      obtain ⟨next, r, hplace⟩ := settle_of_endsNode hrest
      have hnil : entryLines ([] : List (Entry column)) ++ rest = rest := rfl
      rw [hnil] at hread hkey ⊢
      rw [hplace] at hread ⊢
      rw [blockMap?_entry hkey hread, if_neg (hrest.noEntry hplace)]
      rfl
    · have hbegins := beginsMap_entryLines hl rest
      rw [hbegins.settles] at hread
      rw [blockMap?_entry hkey hread, if_pos (by simp [hbegins.noEnd]),
        blockMap?_entryLines l hl (show (entryLines l).length ≤ fuel by omega) hrest]
      rfl

/-- A mapping is read back after a key, on lines of its own. -/
theorem blockValue?_entryLines {l : List (Entry (column + 2))} (hl : l ≠ []) (hfuel : (entryLines l).length + 1 ≤ fuel)
    (hrest : EndsValue column rest) :
    blockValue? fuel column ('\n' :: (entryLines l ++ rest)) =
      some (.map (l.map Entry.pair), settle (.margin 0) rest) := by
  -- the line break before the entries pays for the node in which they are read
  obtain ⟨fuel, rfl⟩ := Nat.exists_eq_succ_of_ne_zero (show fuel ≠ 0 by omega)
  have hbegins := beginsMap_entryLines hl rest
  have hbelongs : belongs column (column + 2) ((entryLines l ++ rest).drop (column + 2)) = true := by
    rw [belongs, hbegins.noEnd]
    simp
  have hmap := blockMap?_entryLines l hl (Nat.le_of_succ_le_succ hfuel) (hrest.ends.mono (Nat.le_succ (column + 1)))
  rw [blockValue?, settle_line_break, hbegins.settles]
  simp only [hbelongs, if_true]
  rw [blockNode?, hbegins.noItem, hbegins.isKey, hmap]
  rfl

end Mappings

/-! ### Empty mappings -/

section Nested

variable {column fuel : Nat} {rest : Text}

/-- What a mapping is read as that is written as nothing, or as a pair of braces, if it is empty. -/
def mappingNode (braces : Bool) (l : List (Entry column)) : Node :=
  match l, braces with
  | [], false => .empty
  | l, _ => .map (l.map Entry.pair)

/-- What is written of such a mapping after its key. -/
def mappingBody (braces : Bool) (l : List (Entry (column + 2))) : Text :=
  match l, braces with
  | [], false => ['\n']
  | [], true => .of " \x7b\x7d\n"
  | l, _ => '\n' :: entryLines l

theorem mappingBody_cases (braces : Bool) (l : List (Entry (column + 2))) :
    (∃ s, mappingBody braces l = '\n' :: s) ∨ mappingBody braces l = .of " \x7b\x7d\n" := by
  match l, braces with
  | [], false => exact .inl ⟨_, rfl⟩
  | [], true => exact .inr rfl
  | _ :: _, _ => exact .inl ⟨_, rfl⟩

theorem atGap_mappingBody (braces : Bool) (l : List (Entry (column + 2))) (rest : Text) :
    atGap (mappingBody braces l ++ rest) = true := by
  rcases mappingBody_cases braces l with ⟨s, hs⟩ | hs <;> rw [hs] <;> rfl

theorem isSteady_mappingBody (braces : Bool) (l : List (Entry (column + 2))) :
    ∀ c ∈ mappingBody braces l, isSteady c = true := by
  match l, braces with
  | [], false => exact List.all_eq_true.1 (show ['\n'].all isSteady = true by decide)
  | [], true => exact List.all_eq_true.1 (show (Text.of " \x7b\x7d\n").all isSteady = true by decide)
  | e :: l, _ => exact List.forall_mem_cons.2 ⟨rfl, isSteady_entryLines (e :: l)⟩

/-- A mapping is read back after its key, empty or not. -/
theorem blockValue?_mappingBody (braces : Bool) (l : List (Entry (column + 2)))
    (hfuel : (mappingBody braces l).length ≤ fuel) (hrest : EndsValue column rest) :
    blockValue? fuel column (mappingBody braces l ++ rest) = some (mappingNode braces l, settle (.margin 0) rest) := by
  match l, braces, fuel, hfuel with
  | [], false, _, _ => exact blockValue?_nothing hrest _
  | [], true, fuel + 2, _ => exact blockValue?_braces fuel column rest
  | e :: l, _, _, hfuel => exact blockValue?_entryLines (List.cons_ne_nil e l) hfuel hrest

/-- An entry that holds a mapping. -/
def Entry.mapping {key : Text} (h : IsKey key) (braces : Bool) (l : List (Entry (column + 2))) : Entry column :=
  .ofKey h (mappingNode braces l) (mappingBody braces l) (atGap_mappingBody braces l)
    (fun hfuel hrest => blockValue?_mappingBody braces l hfuel hrest) (isSteady_mappingBody braces l)

end Nested

/-! ## Documents -/

/-- **A document** is read back. -/
theorem read?_entryLines {l : List (Entry 0)} (hl : l ≠ []) : read? (entryLines l) = some (.map (l.map Entry.pair)) := by
  have hsteady := isSteady_entryLines l
  have hallowed : (entryLines l).all isAllowed = true :=
    List.all_eq_true.2 fun c hc => isAllowed_of_isSteady (hsteady c hc)
  have hnode : documentNode? (4 * (entryLines l).length + 8) (entryLines l) =
      some (.map (l.map Entry.pair), .fresh 0 []) := by
    obtain ⟨hsettles, hends, hitem, hkey⟩ := beginsMap_entryLines hl []
    have hfuel : (entryLines l).length ≤ 4 * (entryLines l).length + 7 := by omega
    have hmap := blockMap?_entryLines l hl hfuel .done
    rw [List.append_nil, List.drop_zero] at hsettles hends hitem hkey hmap
    have hend := hends 0
    simp only [endsDocument, decide_true, Bool.true_and, Bool.or_eq_false_iff, decide_eq_false_iff_not] at hend
    rw [documentNode?, hsettles]
    simp only [hend.1, hend.2, if_false, decide_true, Bool.and_false, Bool.false_eq_true]
    rw [blockNode?, hitem, hkey 0, hmap]
    rfl
  rw [read?, if_pos hallowed, normalizeBreaks_of_isSteady hsteady]
  simp only [hnode, isDone, if_true]

/-- The text of a document, which can be written as nothing, or as a pair of braces, if it has no entries. -/
def document (braces : Bool) (l : List (Entry 0)) : Text :=
  match l, braces with
  | [], true => ['\x7b', '\x7d', '\n']
  | l, _ => entryLines l

/-- A pair of braces is an empty mapping. -/
theorem read?_braces : read? ['\x7b', '\x7d', '\n'] = some (.map []) := by
  have hnode : documentNode? 20 ['\x7b', '\x7d', '\n'] = some (.map [], .fresh 0 []) := by
    show blockNode? 20 0 0 ['\x7b', '\x7d', '\n'] = _
    rw [blockNode?]
    rfl
  have hsteady : ∀ c ∈ ['\x7b', '\x7d', '\n'], isSteady c = true := List.all_eq_true.1 (by decide)
  rw [read?, if_pos (by decide), normalizeBreaks_of_isSteady hsteady]
  simp only [List.length_cons, List.length_nil, hnode, isDone, if_true]

theorem read?_document (braces : Bool) (l : List (Entry 0)) : read? (document braces l) = some (mappingNode braces l) := by
  match l, braces with
  | [], false => rfl
  | [], true => exact read?_braces
  | e :: l, _ => exact read?_entryLines (List.cons_ne_nil e l)

end BatchMigrate.Yaml
