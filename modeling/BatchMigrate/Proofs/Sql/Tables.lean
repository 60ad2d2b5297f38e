import BatchMigrate.Proofs.Text.Fold
import BatchMigrate.Sql.Database

/-!
# Tables and their names

What is found under a name after tables were made, dropped or changed: names are compared without regard to case, and a
table is left alone by what happens to tables of other names.
-/

namespace BatchMigrate

namespace Text

theorem eqIgnoringAsciiCase_self (s : Text) : s.eqIgnoringAsciiCase s = true := eqIgnoringAsciiCase_iff.2 rfl

theorem eqIgnoringAsciiCase_comm (s t : Text) : s.eqIgnoringAsciiCase t = t.eqIgnoringAsciiCase s := by
  rw [Bool.eq_iff_iff, eqIgnoringAsciiCase_iff, eqIgnoringAsciiCase_iff, eq_comm]

/-- Names that are alike are alike to the same names. -/
theorem eqIgnoringAsciiCase_congr {s t : Text} (h : s.eqIgnoringAsciiCase t = true) (n : Text) :
    s.eqIgnoringAsciiCase n = t.eqIgnoringAsciiCase n := by
  rw [Bool.eq_iff_iff, eqIgnoringAsciiCase_iff, eqIgnoringAsciiCase_iff, eqIgnoringAsciiCase_iff.1 h]

end Text

namespace Sql.Tables

variable {name other : Text} {table found : Table} {tables : Tables}

theorem get?_cons (name n : Text) (t : Table) (tables : Tables) :
    Tables.get? name ((n, t) :: tables) = if n.eqIgnoringAsciiCase name then some t else Tables.get? name tables := by
  unfold get?
  rw [List.find?_cons]
  split <;> simp_all

/-- Names that are alike are names of the same table. -/
theorem get?_alike (h : name.eqIgnoringAsciiCase other = true) (tables : Tables) :
    tables.get? name = tables.get? other := by
  simp only [get?, Text.eqIgnoringAsciiCase_comm _ name, Text.eqIgnoringAsciiCase_congr h,
    Text.eqIgnoringAsciiCase_comm other]

/-! ## Changing a table -/

theorem modify_cons (name n : Text) (f : Table → Table) (t : Table) (tables : Tables) :
    Tables.modify name f ((n, t) :: tables) =
      (n, if n.eqIgnoringAsciiCase name then f t else t) :: tables.modify name f := rfl

/-- The table that was there is found, changed if it has the name. -/
theorem get?_modify (name : Text) (f : Table → Table) (other : Text) : ∀ tables : Tables,
    (tables.modify name f).get? other = (tables.get? other).map fun t => if other.eqIgnoringAsciiCase name then f t else t
  | [] => rfl
  | (n, t) :: tables => by
    rw [modify_cons, get?_cons, get?_cons, get?_modify name f other tables]
    by_cases hn : n.eqIgnoringAsciiCase other = true
    · rw [if_pos hn, if_pos hn, Option.map_some, Text.eqIgnoringAsciiCase_congr hn]
    · rw [if_neg hn, if_neg hn]

theorem get?_modify_self (name : Text) (f : Table → Table) (tables : Tables) :
    (tables.modify name f).get? name = (tables.get? name).map f := by
  simp only [get?_modify, Text.eqIgnoringAsciiCase_self, if_true]

/-- Changing a table leaves those of other names. -/
theorem get?_modify_of_ne (h : name.eqIgnoringAsciiCase other = false) (f : Table → Table) (tables : Tables) :
    (tables.modify name f).get? other = tables.get? other := by
  rw [Text.eqIgnoringAsciiCase_comm] at h
  simp only [get?_modify, h, Bool.false_eq_true, if_false, Option.map_id']

/-- A table that is found after one was changed was there before, or comes from the one that was there. -/
theorem get?_modify_cases {f : Table → Table} (h : (tables.modify name f).get? other = some found) :
    tables.get? other = some found ∨ other.eqIgnoringAsciiCase name = true ∧
      ∃ old, tables.get? other = some old ∧ found = f old := by
  rw [get?_modify] at h
  obtain ⟨old, hold, hfound⟩ := Option.map_eq_some_iff.1 h
  split at hfound
  · rename_i hname
    exact Or.inr ⟨hname, old, hold, hfound.symm⟩
  · exact Or.inl (hfound ▸ hold)

theorem declared_modify (name : Text) (f : Table → Table) (other : Text) (tables : Tables) :
    (tables.modify name f).declared other = tables.declared other := by
  rw [declared, declared, modify, List.find?_map, Option.map_map]
  rfl

/-- Changes of tables of different names do not depend on their order. -/
theorem modify_modify_of_ne (h : name.eqIgnoringAsciiCase other = false) (f g : Table → Table) (tables : Tables) :
    (tables.modify other g).modify name f = (tables.modify name f).modify other g := by
  rw [modify, modify, modify, modify, List.map_map, List.map_map]
  refine List.map_congr_left fun (n, t) _ => ?_
  by_cases hn : n.eqIgnoringAsciiCase name = true
  · have ho : n.eqIgnoringAsciiCase other = false := (Text.eqIgnoringAsciiCase_congr hn other).trans h
    simp only [Function.comp_apply, if_pos hn, ho, Bool.false_eq_true, if_false]
  · simp only [Function.comp_apply, if_neg hn]

/-! ## Replacing a table -/

/-- Putting a table in place of another leaves those of other names. -/
theorem get?_set_of_ne (h : name.eqIgnoringAsciiCase other = false) (table : Table) (tables : Tables) :
    (tables.set name table).get? other = tables.get? other := get?_modify_of_ne h _ tables

/-- A table that is put in place of another is found under its name. -/
theorem get?_set_self (table : Table) {old : Table} (h : tables.get? name = some old) :
    (tables.set name table).get? name = some table := by
  rw [set, get?_modify_self, h, Option.map_some]

/-- A change of a table that is being replaced is a change of the new one. -/
theorem modify_set (name : Text) (f : Table → Table) (table : Table) (tables : Tables) :
    (tables.set name table).modify name f = (tables.modify name f).set name (f table) := by
  rw [set, set, modify, modify, modify, modify, List.map_map, List.map_map]
  refine List.map_congr_left fun (n, t) _ => ?_
  by_cases hn : n.eqIgnoringAsciiCase name = true
  · simp only [Function.comp_apply, if_pos hn]
  · simp only [Function.comp_apply, if_neg hn]

/-! ## Making a table -/

/-- A new table is found under its name, if no other was there, and the others are where they were. -/
theorem get?_add (name : Text) (table : Table) (other : Text) : ∀ tables : Tables,
    (tables.add name table).get? other =
      (tables.get? other).or (if name.eqIgnoringAsciiCase other then some table else none)
  | [] => by
    rw [add, List.nil_append, get?_cons]
    rfl
  | (n, t) :: tables => by
    have ih := get?_add name table other tables
    simp only [add, List.cons_append] at ih ⊢
    rw [get?_cons, get?_cons, ih]
    split <;> rfl

/-- A new table leaves those of other names. -/
theorem get?_add_of_ne (h : name.eqIgnoringAsciiCase other = false) (table : Table) (tables : Tables) :
    (tables.add name table).get? other = tables.get? other := by
  rw [get?_add, h]
  exact Option.or_none

/-- A new table is found under its name. -/
theorem get?_add_self (table : Table) (h : tables.get? name = none) : (tables.add name table).get? name = some table := by
  rw [get?_add, h, Text.eqIgnoringAsciiCase_self]
  rfl

/-- A table that is found after another was made was there before, or is the new one. -/
theorem get?_add_cases (h : (tables.add name table).get? other = some found) :
    tables.get? other = some found ∨ found = table := by
  rw [get?_add] at h
  rcases Option.or_eq_some_iff.1 h with h | ⟨_, h⟩
  · exact Or.inl h
  · split at h
    · exact Or.inr (Option.some.inj h).symm
    · cases h

theorem modify_add_of_ne (h : name.eqIgnoringAsciiCase other = false) (f : Table → Table) (table : Table)
    (tables : Tables) : (tables.add other table).modify name f = (tables.modify name f).add other table := by
  rw [Text.eqIgnoringAsciiCase_comm] at h
  rw [add, modify, List.map_append, add, modify]
  simp only [List.map_cons, List.map_nil, h, Bool.false_eq_true, if_false]

/-! ## Dropping a table -/

theorem get?_erase (name other : Text) : ∀ tables : Tables, (tables.erase name).get? other =
    if name.eqIgnoringAsciiCase other then none else tables.get? other
  | [] => (ite_self none).symm
  | (n, t) :: tables => by
    have ih := get?_erase name other tables
    rw [erase, List.filter_cons, ← erase, get?_cons]
    by_cases hn : n.eqIgnoringAsciiCase name = true
    · rw [if_neg (by simp [hn]), ih, Text.eqIgnoringAsciiCase_congr hn]
      split <;> rfl
    · rw [if_pos (by simp [hn]), get?_cons, ih]
      by_cases ho : n.eqIgnoringAsciiCase other = true
      · have hne : ¬name.eqIgnoringAsciiCase other = true := by
          rwa [Text.eqIgnoringAsciiCase_comm, ← Text.eqIgnoringAsciiCase_congr ho]
        rw [if_pos ho, if_neg hne, if_pos ho]
      · rw [if_neg ho, if_neg ho]

/-- Dropping a table leaves those of other names. -/
theorem get?_erase_of_ne (h : name.eqIgnoringAsciiCase other = false) (tables : Tables) :
    (tables.erase name).get? other = tables.get? other := by
  rw [get?_erase, h]
  rfl

theorem get?_of_get?_erase (h : (tables.erase name).get? other = some found) : tables.get? other = some found := by
  rw [get?_erase] at h
  split at h
  · cases h
  · exact h

theorem modify_erase (name other : Text) (f : Table → Table) (tables : Tables) :
    (tables.erase other).modify name f = (tables.modify name f).erase other := by
  rw [erase, modify, erase, modify, List.filter_map]
  rfl

end Sql.Tables

end BatchMigrate
