import BatchMigrate.Proofs.Files.Tree
import BatchMigrate.Proofs.Text.Utf8

/-!
# The order of a walk

A walk of a legal tree gives every file of the tree (`FileTree.mem_files_of_get?`) once, in the order of the names that
lead to it: name by name from the root, each by its bytes (`FileTree.pairwise_files`).
-/

namespace BatchMigrate

theorem Text.eq_of_utf8_eq {s t : Text} (h : s.utf8 = t.utf8) : s = t :=
  Except.ok.inj ((ofUtf8_eq_ok.2 h).symm.trans (ofUtf8_eq_ok.2 rfl))

namespace FileTree

/-! ## Names in order -/

/-- One file comes before another: where the names that lead to them part for the first time, its name has the smaller
bytes. -/
def Before : List Text → List Text → Prop := List.Lex fun a b => a.utf8 < b.utf8

theorem Before.ne {a b : List Text} (h : Before a b) : a ≠ b := by
  induction h with
  | nil => simp
  | cons _ ih => simpa using ih
  | rel hlt =>
    rintro heq
    cases heq
    exact List.lt_irrefl _ hlt

theorem nameLe_iff {a b : Text} : nameLe a b = true ↔ a.utf8 ≤ b.utf8 := by
  rw [nameLe, Bool.not_eq_true', decide_eq_false_iff_not, List.not_lt]

theorem nameLe_trans {a b c : Text} (hab : nameLe a b = true) (hbc : nameLe b c = true) : nameLe a c = true :=
  nameLe_iff.2 (List.le_trans (nameLe_iff.1 hab) (nameLe_iff.1 hbc))

theorem nameLe_total (a b : Text) : (nameLe a b || nameLe b a) = true := by
  rw [Bool.or_eq_true, nameLe_iff, nameLe_iff]
  exact List.le_total _ _

theorem lt_of_nameLe {a b : Text} (h : nameLe a b = true) (hne : a ≠ b) : a.utf8 < b.utf8 := by
  by_cases hlt : a.utf8 < b.utf8
  · exact hlt
  · exact absurd (Text.eq_of_utf8_eq (List.le_antisymm (nameLe_iff.1 h) (List.not_lt.1 hlt))) hne

/-- Things of distinct names, once they are sorted, are in the strict order of their names. -/
theorem pairwise_sorted {α : Type} {found : List (Text × α)} (h : (found.map Prod.fst).Nodup) :
    (found.mergeSort fun a b => nameLe a.1 b.1).Pairwise fun a b => a.1.utf8 < b.1.utf8 := by
  have hsorted : (found.mergeSort fun a b => nameLe a.1 b.1).Pairwise fun a b => nameLe a.1 b.1 = true :=
    List.pairwise_mergeSort (fun a b c : Text × α => @nameLe_trans a.1 b.1 c.1)
      (fun a b : Text × α => nameLe_total a.1 b.1) found
  have hdistinct : ((found.mergeSort fun a b => nameLe a.1 b.1).map Prod.fst).Nodup :=
    ((List.mergeSort_perm found _).map Prod.fst).nodup_iff.2 h
  exact (hsorted.and (List.pairwise_map.1 hdistinct)).imp fun ⟨hle, hne⟩ => lt_of_nameLe hle hne

/-- What is found in sorted things is in order, if it is in order in each of them. -/
theorem pairwise_flatMap_files {found : List (Text × List (List Text × List UInt8))}
    (hsorted : found.Pairwise fun a b => a.1.utf8 < b.1.utf8)
    (hfound : ∀ entry ∈ found, entry.2.Pairwise fun a b => Before a.1 b.1) :
    (found.flatMap fun (name, files) => files.map fun (names, bytes) => (name :: names, bytes)).Pairwise
      fun a b => Before a.1 b.1 := by
  refine List.pairwise_flatMap.2 ⟨fun entry hentry => ?_, hsorted.imp fun {a b} hlt x hx y hy => ?_⟩
  · exact List.pairwise_map.2 ((hfound entry hentry).imp fun h => .cons h)
  · obtain ⟨x, _, rfl⟩ := List.mem_map.1 hx
    obtain ⟨y, _, rfl⟩ := List.mem_map.1 hy
    exact .rel hlt

/-! ## The files of a tree -/

theorem map_fst_entryFiles : ∀ entries : List (Text × FileTree),
    (entryFiles entries).map Prod.fst = entries.map Prod.fst
  | [] => by rw [entryFiles, List.map_nil, List.map_nil]
  | (name, node) :: rest => by rw [entryFiles, List.map_cons, List.map_cons, map_fst_entryFiles rest]

theorem nodup_names : ∀ {entries : List (Text × FileTree)}, legalEntries entries = true →
    (entries.map Prod.fst).Nodup
  | [], _ => List.nodup_nil
  | (name, node) :: rest, h => by
    obtain ⟨_, hother, _, hrest⟩ := legalEntries_cons.1 h
    refine List.nodup_cons.2 ⟨fun hmem => ?_, nodup_names hrest⟩
    obtain ⟨entry, hentry, hname⟩ := List.mem_map.1 hmem
    simpa [hname] using List.lookup_eq_none_iff.1 hother entry hentry

mutual

/-- **A walk of a legal tree** gives its files in order. -/
theorem pairwise_files : ∀ {node : FileTree}, node.legal = true → node.files.Pairwise fun a b => Before a.1 b.1
  | file _, _ => by
    rw [files]
    exact List.pairwise_singleton _ _
  | folder entries, h => by
    rw [legal] at h
    rw [files]
    refine pairwise_flatMap_files (pairwise_sorted ?_) fun entry hentry => ?_
    · rw [map_fst_entryFiles]
      exact nodup_names h
    · exact pairwise_of_mem_entryFiles h (List.mem_mergeSort.1 hentry)

/-- The files of each thing in a legal folder are in order. -/
theorem pairwise_of_mem_entryFiles {entry : Text × List (List Text × List UInt8)} :
    ∀ {entries : List (Text × FileTree)}, legalEntries entries = true → entry ∈ entryFiles entries →
      entry.2.Pairwise fun a b => Before a.1 b.1
  | [], _, hentry => by
    rw [entryFiles] at hentry
    cases hentry
  | (name, node) :: rest, h, hentry => by
    obtain ⟨_, _, hnode, hrest⟩ := legalEntries_cons.1 h
    rw [entryFiles] at hentry
    rcases List.mem_cons.1 hentry with rfl | hentry
    · exact pairwise_files hnode
    · exact pairwise_of_mem_entryFiles hrest hentry

end

theorem mem_entryFiles_of_lookup {name : Text} {node : FileTree} : ∀ {entries : List (Text × FileTree)},
    entries.lookup name = some node → (name, node.files) ∈ entryFiles entries
  | [], h => by cases h
  | (n, first) :: rest, h => by
    rw [entryFiles]
    rw [List.lookup_cons] at h
    split at h
    · rename_i hn
      cases h
      rw [eq_of_beq hn]
      exact List.mem_cons_self
    · exact List.mem_cons_of_mem _ (mem_entryFiles_of_lookup h)

/-- A walk misses no file. -/
theorem mem_files_of_get? {bytes : List UInt8} : ∀ {names : List Text} {node : FileTree},
    node.get? names = some (file bytes) → (names, bytes) ∈ node.files
  | [], file _, h => by
    cases h
    rw [files]
    exact List.mem_cons_self
  | [], folder _, h => by cases h
  | _ :: _, file _, h => by cases h
  | name :: names, folder entries, h => by
    rw [get?, Option.bind_eq_some_iff] at h
    obtain ⟨node, hlookup, h⟩ := h
    rw [files]
    refine List.mem_flatMap.2 ⟨(name, node.files), List.mem_mergeSort.2 (mem_entryFiles_of_lookup hlookup), ?_⟩
    exact List.mem_map.2 ⟨(names, bytes), mem_files_of_get? h, rfl⟩

/-- The files that a walk of a legal tree gives are those that names lead to. -/
theorem mem_files_iff {node : FileTree} (h : node.legal = true) {names : List Text} {bytes : List UInt8} :
    (names, bytes) ∈ node.files ↔ node.get? names = some (file bytes) :=
  ⟨fun hmem => (get?_of_mem_files h hmem).1, mem_files_of_get?⟩

end FileTree

end BatchMigrate
