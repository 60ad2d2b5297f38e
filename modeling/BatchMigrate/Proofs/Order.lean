import Mathlib.Data.List.Sort
import BatchMigrate.Order

/-!
# Lists in order

Adding an item is the library's insertion into an ordered list (`insertBy_eq_orderedInsert`), with the keys compared. So
it adds the item and nothing else (`perm_insertBy`), and a list in the strict order of its keys stays in that order
(`pairwise_insertBy`).
-/

namespace BatchMigrate

variable {α : Type} {key : α → Int}

theorem insertBy_eq_orderedInsert (key : α → Int) (a : α) : ∀ l : List α,
    insertBy key a l = l.orderedInsert (key · ≤ key ·) a
  | [] => rfl
  | b :: rest => by rw [insertBy, List.orderedInsert_cons, insertBy_eq_orderedInsert key a rest]

theorem mem_insertBy {a b : α} {l : List α} : b ∈ insertBy key a l ↔ b = a ∨ b ∈ l := by
  rw [insertBy_eq_orderedInsert, List.mem_orderedInsert]

theorem perm_insertBy (key : α → Int) (a : α) (l : List α) : (insertBy key a l).Perm (a :: l) := by
  rw [insertBy_eq_orderedInsert]
  exact List.perm_orderedInsert _ a l

/-- A function that keeps the keys may be applied before an item is added, or after it. -/
theorem map_insertBy {f : α → α} (hf : ∀ a, key (f a) = key a) (a : α) (l : List α) :
    (insertBy key a l).map f = insertBy key (f a) (l.map f) := by
  rw [insertBy_eq_orderedInsert, insertBy_eq_orderedInsert]
  exact List.map_orderedInsert _ _ f l a (fun b _ => by rw [hf, hf]) fun b _ => by rw [hf, hf]

/-- An item with a new key leaves the keys different. -/
theorem nodup_insertBy {a : α} {l : List α} (h : (l.map key).Nodup) (hne : ∀ b ∈ l, key b ≠ key a) :
    ((insertBy key a l).map key).Nodup := by
  rw [((perm_insertBy key a l).map key).nodup_iff, List.map_cons, List.nodup_cons]
  refine ⟨fun hmem => ?_, h⟩
  obtain ⟨b, hb, heq⟩ := List.mem_map.1 hmem
  exact hne b hb heq

/-- An item with a new key keeps the order. -/
theorem pairwise_insertBy {a : α} {l : List α} (h : l.Pairwise (key · < key ·)) (hne : ∀ b ∈ l, key b ≠ key a) :
    (insertBy key a l).Pairwise (key · < key ·) := by
  have hle : (insertBy key a l).Pairwise (key · ≤ key ·) := by
    have : Std.Total fun b c : α => key b ≤ key c := ⟨fun b c => Int.le_total (key b) (key c)⟩
    have : IsTrans α fun b c => key b ≤ key c := ⟨fun _ _ _ => Int.le_trans⟩
    rw [insertBy_eq_orderedInsert]
    exact (h.imp Int.le_of_lt).orderedInsert a l
  have hkeys := nodup_insertBy (List.pairwise_map.2 (h.imp Int.ne_of_lt)) hne
  exact (hle.and (List.pairwise_map.1 hkeys)).imp fun ⟨hle, hne⟩ => Int.lt_iff_le_and_ne.2 ⟨hle, hne⟩

end BatchMigrate
