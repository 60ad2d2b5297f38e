import BatchMigrate.Proofs.Files.Tree

/-!
# Reading what was written

A file that is put into a tree is found there (`FileTree.get?_put`), and all folders of the tree stay folders
(`FileTree.folder_put`). Therefore a path leads to the same names before and after a write, and the bytes that were
written are found at it (`Disk.find_write`).
-/

namespace BatchMigrate

namespace FileTree

/-! ## Putting things into a tree -/

theorem lookup_setEntry (name : Text) (node : FileTree) : ∀ entries : List (Text × FileTree),
    (setEntry name node entries).lookup name = some node
  | [] => List.lookup_cons_self
  | (n, old) :: rest => by
    rw [setEntry]
    split
    · exact List.lookup_cons_self
    · rename_i hne
      rw [List.lookup_cons, beq_eq_false_iff_ne.2 (Ne.symm hne), lookup_setEntry name node rest]

/-- What is put into a tree is found there. -/
theorem get?_put (new : FileTree) : ∀ (names : List Text) (node : FileTree), (node.put names new).get? names = some new
  | [], _ => by rw [put, get?]
  | name :: names, file _ => by
    rw [put, get?, List.lookup_cons_self]
    exact get?_put new names empty
  | name :: names, folder entries => by
    rw [put, get?, lookup_setEntry]
    exact get?_put new names _

/-- A folder stays a folder when something is put where no folder is. -/
theorem folder_put {new : FileTree} : ∀ {names here : List Text} {node : FileTree} {entries : List (Text × FileTree)},
    (∀ entries, node.get? names ≠ some (folder entries)) → node.get? here = some (folder entries) →
    ∃ entries', (node.put names new).get? here = some (folder entries')
  | [], here, node, entries, hnames, hhere => by
    cases node with
    | folder entries => exact absurd rfl (hnames entries)
    | file bytes => cases here <;> cases hhere
  | _ :: _, here, file bytes, _, _, hhere => by cases here <;> cases hhere
  | name :: names, [], folder _, _, _, _ => by
    rw [put]
    exact ⟨_, rfl⟩
  | name :: names, first :: here, folder entries, _, hnames, hhere => by
    obtain ⟨sub, hsub, hhere⟩ := Option.bind_eq_some_iff.1 hhere
    rw [put, get?]
    by_cases hfirst : first = name
    · -- both ways go on in the same thing, and there, too, the new one takes the place of no folder
      subst hfirst
      have hnames : ∀ entries, sub.get? names ≠ some (folder entries) := fun inner hinner => by
        refine hnames inner ?_
        rw [get?, hsub]
        exact hinner
      rw [lookup_setEntry, hsub]
      exact folder_put hnames hhere
    · rw [lookup_setEntry_of_ne _ hfirst, hsub]
      exact ⟨_, hhere⟩

end FileTree

namespace Disk

/-! ## Writing files -/

/-- A path leads to the same names in another tree, if all folders are folders there. -/
theorem locateFrom_of_folders {root root' : FileTree}
    (h : ∀ here entries, root.get? here = some (.folder entries) →
      ∃ entries', root'.get? here = some (.folder entries')) :
    ∀ {pieces here names : List Text}, locateFrom root here pieces = .ok names →
      locateFrom root' here pieces = .ok names
  | [], _, _, hl => hl
  | piece :: rest, here, names, hl => by
    rw [locateFrom] at hl
    split at hl
    · cases hl
    · cases hl
    · rename_i entries hhere
      obtain ⟨entries', hhere'⟩ := h here entries hhere
      rw [locateFrom, hhere']
      split at hl
      · rename_i hidle
        rw [if_pos hidle]
        exact locateFrom_of_folders h hl
      · rename_i hidle
        rw [if_neg hidle]
        split at hl
        · rename_i hdots
          rw [if_pos hdots]
          exact locateFrom_of_folders h hl
        · rename_i hdots
          rw [if_neg hdots]
          exact locateFrom_of_folders h hl

/-- **What was written is found** at the path to which it was written. -/
theorem find_write {d d' : Disk} {p : Path} {bytes : List UInt8} (h : d.write p bytes = .ok d') :
    d'.find p = .ok (.file bytes) := by
  obtain ⟨names, hl, h⟩ := exists_of_bind_eq_ok h
  split at h
  · cases h
  · rename_i hbare
    have hbare := Decidable.not_not.1 hbare
    split at h
    · cases h
    · rename_i hfile
      cases h
      have hfolders : ∀ here entries, d.root.get? here = some (.folder entries) →
          ∃ entries', (d.root.put names (.file bytes)).get? here = some (.folder entries') := fun _ _ =>
        FileTree.folder_put hfile
      have hlocate : locate { d with root := d.root.put names (.file bytes) } p = .ok names := by
        rw [hbare, locate] at hl
        rw [locate]
        split at hl
        · cases hl
        · rename_i hne
          rw [if_neg hne]
          exact locateFrom_of_folders hfolders hl
      rw [find, hlocate]
      simp only [bind, Except.bind, FileTree.get?_put]

end Disk

end BatchMigrate
