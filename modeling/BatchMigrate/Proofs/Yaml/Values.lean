import BatchMigrate.Proofs.Yaml.Entries

/-!
# Reading documents back

Each value is read back after its key (`blockValue?_writeValue`), so that what is written of entries is read as these entries
(`exists_entryLines`), and a document is read back as a whole (`read?_writeEntries`): it holds nothing but characters that are
written as they are.
-/

namespace BatchMigrate.Yaml

/-! ## Nodes -/

mutual

/-- The node that a value is read as. -/
def Value.node : Value → Node
  | .null => .scalar true (.of "null")
  | .bool b => .scalar true (.of (if b then "true" else "false"))
  | .text t => textNode t
  | .texts items => .seq (items.map textNode)
  | .entries l => .map (entryNodes l)

/-- The nodes that entries of a mapping are read as, with their keys. -/
def entryNodes : List (Text × Value) → List (Text × Node)
  | [] => []
  | (key, value) :: rest => (key, value.node) :: entryNodes rest

end

mutual

/-- All keys in the value can be written as keys, and no mapping in it is empty. -/
def Value.Readable : Value → Prop
  | .entries l => l ≠ [] ∧ AllReadable l
  | _ => True

/-- All keys in the entries can be written as keys, and no mapping in them is empty. -/
def AllReadable : List (Text × Value) → Prop
  | [] => True
  | (key, value) :: rest => IsKey key ∧ value.Readable ∧ AllReadable rest

end

/-! ## Values -/

section Values

variable {t rest : Text} {column fuel : Nat}

theorem blockValue?_plain {c : Char} {r : Text} (hfits : fitsPlain (c :: r) = true) (hrest : EndsValue column rest) :
    blockValue? fuel column (' ' :: (c :: r ++ '\n' :: rest)) =
      some (.scalar true (c :: r), settle (.margin 0) rest) := by
  obtain ⟨spans, after, hscalar, hafter⟩ := scalar?_plainText hfits (List.cons_ne_nil c r) hrest.ends
  rw [List.cons_append, blockValue?_inline (beginsText_of_fitsPlain hfits), ← List.cons_append,
    inlineNode?_of_scalar? hscalar, hafter]

theorem blockValue?_text (hrest : EndsValue column rest) (t : Text) :
    blockValue? fuel column (' ' :: (writeText (column + 2) t ++ rest)) =
      some (textNode t, settle (.margin 0) rest) := by
  obtain ⟨⟨c, r, he, hc⟩, -⟩ := writeText_begins (column + 2) t rest
  rw [he, blockValue?_inline hc, ← he]
  exact inlineNode?_writeText (Nat.succ_pos column) hrest.ends fuel t

/-- The lines of items. -/
def itemLines (column : Nat) (items : List Text) : Text :=
  items.flatMap fun t => blanks column ++ '-' :: ' ' :: writeText (column + 2) t

theorem itemLines_cons (column : Nat) (t : Text) (items : List Text) (rest : Text) :
    itemLines column (t :: items) ++ rest =
      blanks column ++ '-' :: ' ' :: (writeText (column + 2) t ++ (itemLines column items ++ rest)) := by
  simp [itemLines]

theorem length_itemLines (column : Nat) : ∀ items : List Text, 2 * items.length ≤ (itemLines column items).length
  | [] => Nat.le_refl 0
  | t :: items => by
    have ih := length_itemLines column items
    rw [← List.append_nil (itemLines column (t :: items)), itemLines_cons]
    simp only [List.length_append, List.length_cons, List.append_nil]
    omega

/-- A dash before a blank is no mark between documents. -/
theorem endsDocument_dash (column : Nat) (r : Text) : endsDocument column ('-' :: ' ' :: r) = false := by
  simp [endsDocument, isMarker, List.isPrefixOf_cons_cons]

/-- An item of a sequence is a text in its style, after which other items may follow. -/
theorem blockSeq?_item {after : Text} {next : Nat} (hends : EndsNode (column + 1) after)
    (hplace : settle (.margin 0) after = .fresh next rest) (fuel : Nat) (t : Text) :
    blockSeq? (fuel + 2) column ('-' :: ' ' :: (writeText (column + 2) t ++ after)) =
      if next = column && beginsItem rest && !endsDocument next rest then
        (blockSeq? (fuel + 1) column rest).map fun (items, place) => (textNode t :: items, place)
      else some ([textNode t], .fresh next rest) := by
  obtain ⟨⟨c, r, he, hc⟩, -⟩ := writeText_begins (column + 2) t after
  have hitem := fun next => blockNode?_writeText (Nat.succ_pos column) hends fuel next t
  have htab : '\t' ∉ (' ' :: c :: r).takeWhile isBlank := by
    obtain ⟨hblank, -⟩ := beginsText_iff.1 hc
    rw [List.takeWhile_cons_of_pos (by decide), List.takeWhile_cons_of_neg (by simp [hblank])]
    decide
  rw [he] at hitem
  rw [blockSeq?, he]
  simp only [List.tail_cons, htab, if_false, settle_blank, settle_line hc, hitem, hplace, Option.bind_eq_bind,
    Option.bind_some]

/-- **The items** of a sequence are read back, from the first dash on. -/
theorem blockSeq?_itemLines (hrest : EndsValue column rest) : ∀ (items : List Text) (t : Text) {fuel : Nat},
    items.length + 2 ≤ fuel →
    blockSeq? fuel column ('-' :: ' ' :: (writeText (column + 2) t ++ (itemLines column items ++ rest))) =
      some ((t :: items).map textNode, settle (.margin 0) rest)
  | [], t, fuel + 2, _ => by
    obtain ⟨next, r, hplace⟩ := settle_of_endsNode hrest.ends
    have hitem : ¬(next = column && beginsItem r && !endsDocument next r) = true := by
      simp only [Bool.and_eq_true, decide_eq_true_eq]
      rintro ⟨⟨rfl, hitem⟩, -⟩
      rw [hrest.noItem r hplace] at hitem
      cases hitem
    rw [show itemLines column [] ++ rest = rest from rfl, blockSeq?_item hrest.ends hplace, if_neg hitem, hplace]
    rfl
  | u :: items, t, fuel + 2, hfuel => by
    have hfuel : items.length + 2 ≤ fuel + 1 := by
      rw [List.length_cons] at hfuel
      omega
    have hplace : settle (.margin 0) (itemLines column (u :: items) ++ rest) =
        .fresh column ('-' :: ' ' :: (writeText (column + 2) u ++ (itemLines column items ++ rest))) := by
      rw [itemLines_cons, settle_margin rfl, Nat.zero_add]
    have hends : EndsNode (column + 1) (itemLines column (u :: items) ++ rest) := by
      rw [itemLines_cons]
      exact .line (Nat.lt_succ_self column) rfl
    rw [blockSeq?_item hends hplace, endsDocument_dash, blockSeq?_itemLines hrest items u hfuel,
      if_pos (by simp [beginsItem, atGap, isBlank])]
    rfl

end Values

/-! ## Entries -/

section Mappings

variable {l : List (Text × Value)} {column : Nat}

theorem atGap_writeValue (column : Nat) (s : Text) : ∀ value : Value, atGap (writeValue column value ++ s) = true
  | .null => rfl
  | .bool true => rfl
  | .bool false => rfl
  | .text _ => rfl
  | .texts [] => rfl
  | .texts (_ :: _) => rfl
  | .entries _ => rfl

mutual

theorem isPrintable_writeValue : ∀ (value : Value) (column : Nat), value.Readable →
    ∀ c ∈ writeValue column value, isPrintable c = true
  | .null, _, _ => List.all_eq_true.1 (show (Text.of " null\n").all isPrintable = true by decide)
  | .bool true, _, _ => List.all_eq_true.1 (show (Text.of " true\n").all isPrintable = true by decide)
  | .bool false, _, _ => List.all_eq_true.1 (show (Text.of " false\n").all isPrintable = true by decide)
  | .text t, column, _ => List.forall_mem_cons.2 ⟨rfl, isPrintable_writeText (column + 2) t⟩
  | .texts [], _, _ => List.all_eq_true.1 (show (Text.of " []\n").all isPrintable = true by decide)
  | .texts (t :: items), column, _ => by
    refine List.forall_mem_cons.2 ⟨rfl, fun c hc => ?_⟩
    obtain ⟨u, -, hc⟩ := List.mem_flatMap.1 hc
    simp only [List.mem_append, List.mem_cons] at hc
    rcases hc with hc | rfl | rfl | hc
    · exact isPrintable_of_mem_blanks hc
    · rfl
    · rfl
    · exact isPrintable_writeText (column + 2) u c hc
  | .entries l, column, h => List.forall_mem_cons.2 ⟨rfl, isPrintable_writeEntries l (column + 2) h.2⟩

theorem isPrintable_writeEntries : ∀ (l : List (Text × Value)) (column : Nat), AllReadable l →
    ∀ c ∈ writeEntries column l, isPrintable c = true
  | [], _, _, _, hc => by cases hc
  | (key, value) :: l, column, ⟨hkey, hvalue, hl⟩, c, hc => by
    simp only [writeEntries, List.mem_append, List.mem_cons] at hc
    rcases hc with ((hc | hc) | rfl | hc) | hc
    · exact isPrintable_of_mem_blanks hc
    · exact printable_of_fitsPlain hkey.fits c hc
    · rfl
    · exact isPrintable_writeValue value column hvalue c hc
    · exact isPrintable_writeEntries l column hl c hc

end

/-- What is written of a value is an entry, if it is read back after its key. -/
def Entry.ofRead {key : Text} (h : IsKey key) (value : Value) (hvalue : value.Readable)
    (hread : ∀ {fuel rest}, (writeValue column value).length ≤ fuel → EndsValue column rest →
      blockValue? fuel column (writeValue column value ++ rest) = some (value.node, settle (.margin 0) rest)) :
    Entry column :=
  .ofKey h value.node (writeValue column value) (fun rest => atGap_writeValue column rest value) hread
    fun c hc => isSteady_of_isPrintable (isPrintable_writeValue value column hvalue c hc)

/-- The lines of such an entry and of others are written in a row. -/
theorem entryLines_ofRead {key : Text} (h : IsKey key) (value : Value) (hvalue : value.Readable)
    (hread : ∀ {fuel rest}, (writeValue column value).length ≤ fuel → EndsValue column rest →
      blockValue? fuel column (writeValue column value ++ rest) = some (value.node, settle (.margin 0) rest))
    {es : List (Entry column)} (hes : entryLines es = writeEntries column l) :
    entryLines (.ofRead h value hvalue hread :: es) = writeEntries column ((key, value) :: l) := by
  rw [entryLines, List.flatMap_cons, ← entryLines, hes, writeEntries]
  simp [Entry.ofRead, Entry.ofKey]

theorem ne_nil_of_pairs {es : List (Entry column)} (h : es.map Entry.pair = entryNodes l) (hl : l ≠ []) : es ≠ [] := by
  rintro rfl
  match l, hl with
  | (key, value) :: l, _ => cases h

mutual

/-- **A value** is read back after its key. -/
theorem blockValue?_writeValue : ∀ (value : Value) {column fuel : Nat} {rest : Text}, value.Readable →
    (writeValue column value).length ≤ fuel → EndsValue column rest →
    blockValue? fuel column (writeValue column value ++ rest) = some (value.node, settle (.margin 0) rest)
  | .null, _, _, _, _, _, hrest => blockValue?_plain (c := 'n') (r := .of "ull") (by decide) hrest
  | .bool true, _, _, _, _, _, hrest => blockValue?_plain (c := 't') (r := .of "rue") (by decide) hrest
  | .bool false, _, _, _, _, _, hrest => blockValue?_plain (c := 'f') (r := .of "alse") (by decide) hrest
  | .text t, _, _, _, _, _, hrest => blockValue?_text hrest t
  | .texts [], column, fuel + 2, rest, _, _, _ => by
    show blockValue? (fuel + 2) column (' ' :: '[' :: ']' :: '\n' :: rest) = _
    rw [blockValue?_inline rfl]
    rfl
  | .texts (t :: items), column, fuel, rest, _, hfuel, hrest => by
    have hlength : items.length + 2 ≤ fuel := by
      have hlines := length_itemLines column (t :: items)
      have hwritten : (writeValue column (.texts (t :: items))).length = (itemLines column (t :: items)).length + 1 :=
        rfl
      rw [List.length_cons] at hlines
      omega
    have hbelongs (s : Text) : belongs column column ('-' :: s) = false := by
      simp [belongs, beginsBlockScalar]
    show blockValue? fuel column ('\n' :: (itemLines column (t :: items) ++ rest)) = _
    rw [blockValue?, settle_line_break, itemLines_cons, settle_margin rfl, Nat.zero_add]
    simp only [hbelongs, endsDocument_dash, blockSeq?_itemLines hrest items t hlength]
    rfl
  | .entries l, column, fuel, rest, ⟨hl, hreadable⟩, hfuel, hrest => by
    obtain ⟨es, hlines, hpairs⟩ := exists_entryLines l (column + 2) hreadable
    have hwritten : writeValue column (.entries l) = '\n' :: entryLines es := by rw [writeValue, hlines]
    rw [hwritten, List.length_cons] at hfuel
    rw [hwritten, List.cons_append, blockValue?_entryLines (ne_nil_of_pairs hpairs hl) hfuel hrest, hpairs]
    rfl

/-- **What is written of entries** are the lines of entries that are read back. -/
theorem exists_entryLines : ∀ (l : List (Text × Value)) (column : Nat), AllReadable l →
    ∃ es : List (Entry column), entryLines es = writeEntries column l ∧ es.map Entry.pair = entryNodes l
  | [], _, _ => ⟨[], rfl, rfl⟩
  | (key, value) :: l, column, ⟨hkey, hvalue, hl⟩ => by
    obtain ⟨es, hlines, hpairs⟩ := exists_entryLines l column hl
    refine ⟨.ofRead hkey value hvalue (fun hfuel hrest => blockValue?_writeValue value hvalue hfuel hrest) :: es,
      entryLines_ofRead hkey value hvalue _ hlines, ?_⟩
    rw [List.map_cons, hpairs, entryNodes]
    rfl

end

/-- An entry as it is written. -/
def Entry.ofValue {key : Text} (h : IsKey key) (value : Value) (hvalue : value.Readable) : Entry column :=
  .ofRead h value hvalue fun hfuel hrest => blockValue?_writeValue value hvalue hfuel hrest

theorem entryLines_ofValue {key : Text} (h : IsKey key) (value : Value) (hvalue : value.Readable)
    {es : List (Entry column)} (hes : entryLines es = writeEntries column l) :
    entryLines (.ofValue h value hvalue :: es) = writeEntries column ((key, value) :: l) :=
  entryLines_ofRead h value hvalue _ hes

/-- An entry whose value is written plainly, whatever it may spell. -/
def Entry.ofPlain {key : Text} (h : IsKey key) (c : Char) (r : Text) (hfits : fitsPlain (c :: r) = true) : Entry column :=
  .ofKey h (.scalar true (c :: r)) (' ' :: (c :: r ++ ['\n'])) (fun _ => rfl)
    (fun _ hrest => by
      rw [List.cons_append, List.append_assoc]
      exact blockValue?_plain hfits hrest)
    (by
      refine List.forall_mem_cons.2 ⟨rfl, fun d hd => ?_⟩
      rcases List.mem_append.1 hd with hd | hd
      · exact isSteady_of_isPrintable (printable_of_fitsPlain hfits d hd)
      · rw [List.mem_singleton.1 hd]
        rfl)

/-- A mapping that is not empty is written like its entries, below its key. -/
theorem entryLines_mapping {key : Text} (h : IsKey key) (braces : Bool) {part : List (Entry (column + 2))} (hpart : part ≠ [])
    {inner : List (Text × Value)} (hinner : entryLines part = writeEntries (column + 2) inner)
    {es : List (Entry column)} (hes : entryLines es = writeEntries column l) :
    entryLines (.mapping h braces part :: es) = writeEntries column ((key, .entries inner) :: l) := by
  obtain ⟨e, part, rfl⟩ := List.exists_cons_of_ne_nil hpart
  rw [entryLines, List.flatMap_cons, ← entryLines, hes, writeEntries, writeValue, ← hinner]
  simp [Entry.mapping, Entry.ofKey, mappingBody]

/-- **A document** is read back. -/
theorem read?_writeEntries (hl : l ≠ []) (hreadable : AllReadable l) :
    read? (writeEntries 0 l) = some (.map (entryNodes l)) := by
  obtain ⟨es, hlines, hpairs⟩ := exists_entryLines l 0 hreadable
  rw [← hlines, read?_entryLines (ne_nil_of_pairs hpairs hl), hpairs]

end Mappings

end BatchMigrate.Yaml
