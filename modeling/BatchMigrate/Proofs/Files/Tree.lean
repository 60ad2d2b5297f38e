import BatchMigrate.Files.Tree
import BatchMigrate.Proofs.Faults
import BatchMigrate.Proofs.Text.Pieces

/-!
# Reading what a walk finds

In a tree whose folders hold things under distinct names that paths can spell (`FileTree.legal`), a walk gives each file
with the names that lead to it (`FileTree.get?_of_mem_files`), and joining these names to the path of the folder gives a
path at which the file is read (`Disk.read_of_mem_filesUnder`).
-/

namespace BatchMigrate

/-! ## Spelling -/

namespace Path

/-- A name that a thing in a folder can have. -/
def isName (name : Text) : Bool := name ≠ [] && name ≠ ['.'] && name ≠ ['.', '.'] && !name.contains '/'

theorem isName_iff {name : Text} :
    isName name = true ↔ name ≠ [] ∧ name ≠ ['.'] ∧ name ≠ ['.', '.'] ∧ '/' ∉ name := by
  simp [isName, and_assoc]

theorem not_isAbsolute_of_isName {name : Text} (h : isName name = true) : isAbsolute name = false := by
  obtain ⟨_, _, _, hs⟩ := isName_iff.1 h
  cases name with
  | nil => rfl
  | cons c name =>
    have hc : c ≠ '/' := fun he => hs (he ▸ List.mem_cons_self)
    simpa [isAbsolute] using hc

end Path

namespace FileTree

/-! ## Trees that a disk can hold -/

mutual

/-- Every folder of the tree holds its things under distinct names. -/
def legal : FileTree → Bool
  | file _ => true
  | folder entries => legalEntries entries

/-- The things of a folder have distinct names, and the folders among them are legal. -/
def legalEntries : List (Text × FileTree) → Bool
  | [] => true
  | (name, node) :: rest => Path.isName name && (rest.lookup name).isNone && legal node && legalEntries rest

end

theorem legalEntries_cons {name : Text} {node : FileTree} {rest : List (Text × FileTree)} :
    legalEntries ((name, node) :: rest) = true ↔
      Path.isName name = true ∧ rest.lookup name = none ∧ legal node = true ∧ legalEntries rest = true := by
  rw [legalEntries]
  simp [and_assoc]

theorem legal_of_lookup {name : Text} {node : FileTree} : ∀ {entries : List (Text × FileTree)},
    legalEntries entries = true → entries.lookup name = some node → node.legal = true
  | [], _, h => by cases h
  | (n, first) :: rest, hl, h => by
    obtain ⟨_, _, hfirst, hrest⟩ := legalEntries_cons.1 hl
    rw [List.lookup_cons] at h
    split at h
    · cases h
      exact hfirst
    · exact legal_of_lookup hrest h

/-- What is found in a legal tree is legal. -/
theorem legal_get? : ∀ {names : List Text} {node sub : FileTree},
    node.legal = true → node.get? names = some sub → sub.legal = true
  | [], _, _, hl, h => by
    cases h
    exact hl
  | _ :: _, file _, _, _, h => by cases h
  | name :: names, folder entries, sub, hl, h => by
    rw [get?, Option.bind_eq_some_iff] at h
    obtain ⟨node, hnode, hsub⟩ := h
    rw [legal] at hl
    exact legal_get? (legal_of_lookup hl hnode) hsub

theorem lookup_setEntry_of_ne {name other : Text} (node : FileTree) (h : other ≠ name) :
    ∀ entries : List (Text × FileTree), (setEntry name node entries).lookup other = entries.lookup other
  | [] => by
    rw [setEntry, List.lookup_cons, beq_eq_false_iff_ne.2 h]
  | (n, old) :: rest => by
    rw [setEntry]
    split
    · rename_i hn
      rw [List.lookup_cons, List.lookup_cons, hn, beq_eq_false_iff_ne.2 h]
    · rw [List.lookup_cons, List.lookup_cons, lookup_setEntry_of_ne node h rest]

theorem legalEntries_setEntry {name : Text} {node : FileTree} (hname : Path.isName name = true)
    (hnode : node.legal = true) : ∀ {entries : List (Text × FileTree)}, legalEntries entries = true →
      legalEntries (setEntry name node entries) = true
  | [], _ => legalEntries_cons.2 ⟨hname, rfl, hnode, rfl⟩
  | (n, old) :: rest, h => by
    obtain ⟨hn, hother, hold, hrest⟩ := legalEntries_cons.1 h
    rw [setEntry]
    split
    · rename_i he
      exact legalEntries_cons.2 ⟨hname, he ▸ hother, hnode, hrest⟩
    · rename_i hne
      have hlookup := (lookup_setEntry_of_ne node hne rest).trans hother
      exact legalEntries_cons.2 ⟨hn, hlookup, hold, legalEntries_setEntry hname hnode hrest⟩

/-- Putting a legal thing into a legal tree, under names that paths can spell, keeps the tree legal. -/
theorem legal_put {new : FileTree} (hnew : new.legal = true) : ∀ {names : List Text} {node : FileTree},
    node.legal = true → (∀ name ∈ names, Path.isName name = true) → (node.put names new).legal = true
  | [], _, _, _ => by
    rw [put]
    exact hnew
  | name :: names, file _, _, hn => by
    obtain ⟨hname, hnames⟩ := List.forall_mem_cons.1 hn
    have hempty : empty.legal = true := rfl
    rw [put, legal]
    exact legalEntries_cons.2 ⟨hname, rfl, legal_put hnew hempty hnames, rfl⟩
  | name :: names, folder entries, hl, hn => by
    obtain ⟨hname, hnames⟩ := List.forall_mem_cons.1 hn
    rw [legal] at hl
    have hold : ((entries.lookup name).getD empty).legal = true := by
      cases he : entries.lookup name with
      | none => rfl
      | some old => exact legal_of_lookup hl he
    rw [put, legal]
    exact legalEntries_setEntry hname (legal_put hnew hold hnames) hl

theorem get?_append : ∀ (names rest : List Text) (node : FileTree),
    node.get? (names ++ rest) = (node.get? names).bind (·.get? rest)
  | [], _, _ => rfl
  | _ :: _, _, file _ => rfl
  | name :: names, rest, folder entries => by
    rw [List.cons_append, get?, get?]
    cases entries.lookup name with
    | none => rfl
    | some node => exact get?_append names rest node

/-! ## Walks -/

mutual

/-- A walk of a legal tree gives each file with the names that lead to it. -/
theorem get?_of_mem_files {names : List Text} {bytes : List UInt8} : ∀ {node : FileTree}, node.legal = true →
    (names, bytes) ∈ node.files → node.get? names = some (file bytes) ∧ ∀ name ∈ names, Path.isName name = true
  | file _, _, h => by
    rw [files, List.mem_singleton] at h
    cases h
    exact ⟨rfl, fun _ h => by cases h⟩
  | folder entries, hl, h => by
    rw [files, List.mem_flatMap] at h
    obtain ⟨⟨name, found⟩, hentry, h⟩ := h
    obtain ⟨⟨inner, _⟩, hinner, he⟩ := List.mem_map.1 h
    cases he
    rw [legal] at hl
    exact get?_of_mem_entryFiles hl (List.mem_mergeSort.1 hentry) hinner

/-- The files that are found below an entry of a legal folder. -/
theorem get?_of_mem_entryFiles {name : Text} {names : List Text} {bytes : List UInt8}
    {found : List (List Text × List UInt8)} : ∀ {entries : List (Text × FileTree)}, legalEntries entries = true →
      (name, found) ∈ entryFiles entries → (names, bytes) ∈ found →
        (folder entries).get? (name :: names) = some (file bytes) ∧ ∀ n ∈ name :: names, Path.isName n = true
  | [], _, h, _ => by
    rw [entryFiles] at h
    cases h
  | (n, node) :: rest, hl, h, hm => by
    obtain ⟨hn, hother, hnode, hrest⟩ := legalEntries_cons.1 hl
    rw [entryFiles] at h
    rcases List.mem_cons.1 h with he | h
    · cases he
      obtain ⟨hget, hnames⟩ := get?_of_mem_files hnode hm
      rw [get?, List.lookup_cons_self, Option.bind_some]
      exact ⟨hget, List.forall_mem_cons.2 ⟨hn, hnames⟩⟩
    · obtain ⟨hget, hnames⟩ := get?_of_mem_entryFiles hrest h hm
      refine ⟨?_, hnames⟩
      -- the same name cannot stand before: a legal folder has it once
      have hne : (name == n) = false := by
        rw [beq_eq_false_iff_ne]
        rintro rfl
        rw [get?, hother] at hget
        cases hget
      rw [get?, List.lookup_cons, hne]
      exact hget

end

end FileTree

/-! ## Paths -/

namespace Disk

theorem locateFrom_append (root : FileTree) : ∀ (a b here : List Text),
    locateFrom root here (a ++ b) = locateFrom root here a >>= fun here => locateFrom root here b
  | [], _, _ => rfl
  | piece :: a, b, here => by
    rw [List.cons_append, locateFrom, locateFrom]
    cases root.get? here with
    | none => rfl
    | some node =>
      cases node with
      | file _ => rfl
      | folder entries =>
        by_cases h : (piece = [] || piece = ['.']) = true
        · simp only [if_pos h]
          exact locateFrom_append root a b here
        · simp only [if_neg h]
          by_cases hp : piece = ['.', '.']
          · simp only [if_pos hp]
            exact locateFrom_append root a b here.dropLast
          · simp only [if_neg hp]
            exact locateFrom_append root a b (here ++ [piece])

/-- Pieces of a path lead to names that paths can spell. -/
theorem isName_of_locateFrom {root : FileTree} : ∀ {pieces here names : List Text},
    locateFrom root here pieces = .ok names → (∀ piece ∈ pieces, '/' ∉ piece) →
      (∀ name ∈ here, Path.isName name = true) → ∀ name ∈ names, Path.isName name = true
  | [], here, names, h, _, hhere => by
    cases h
    exact hhere
  | piece :: rest, here, names, h, hpieces, hhere => by
    obtain ⟨hpiece, hrest⟩ := List.forall_mem_cons.1 hpieces
    rw [locateFrom] at h
    split at h
    · cases h
    · cases h
    · split at h
      · exact isName_of_locateFrom h hrest hhere
      · rename_i hidle
        split at h
        · exact isName_of_locateFrom h hrest fun name hname => hhere name (List.dropLast_subset _ hname)
        · rename_i hdots
          refine isName_of_locateFrom h hrest fun name hname => ?_
          rcases List.mem_append.1 hname with hname | hname
          · exact hhere name hname
          · cases List.mem_singleton.1 hname
            obtain ⟨hempty, hdot⟩ : piece ≠ [] ∧ piece ≠ ['.'] := by simpa using hidle
            exact Path.isName_iff.2 ⟨hempty, hdot, hdots, hpiece⟩

/-- Writing a file keeps a disk legal. -/
theorem legal_write {d d' : Disk} {p : Path} {bytes : List UInt8} (hd : d.root.legal = true)
    (hw : ∀ name ∈ d.working, Path.isName name = true) (h : d.write p bytes = .ok d') : d'.root.legal = true := by
  obtain ⟨names, hl, h⟩ := exists_of_bind_eq_ok h
  have hnames : ∀ name ∈ names, Path.isName name = true := by
    unfold locate at hl
    split at hl
    · cases hl
    · refine isName_of_locateFrom hl (fun piece => Text.not_mem_of_mem_splitOn) fun name hname => ?_
      split at hname
      · cases hname
      · exact hw name hname
  split at h
  · cases h
  · split at h
    · cases h
    · cases h
      exact FileTree.legal_put rfl hd hnames

/-- A piece that is a name leads into a folder, whether there is a thing of that name or not. -/
theorem locateFrom_name {root : FileTree} {here : List Text} {entries : List (Text × FileTree)} {name : Text}
    (hf : root.get? here = some (.folder entries)) (hn : Path.isName name = true) :
    locateFrom root here [name] = .ok (here ++ [name]) := by
  obtain ⟨hempty, hdot, hdots, _⟩ := Path.isName_iff.1 hn
  have hidle : ¬(name = [] || name = ['.']) = true := by simp [hempty, hdot]
  rw [locateFrom, hf]
  simp only [if_neg hidle, if_neg hdots]
  rfl

/-- An empty piece stays in the folder. -/
theorem eq_of_locateFrom_nil {root : FileTree} {here there : List Text} (h : locateFrom root here [[]] = .ok there) :
    here = there := by
  rw [locateFrom] at h
  split at h
  · cases h
  · cases h
  · cases h
    rfl

/-- A name is looked up in the folder to whose path it is joined. -/
theorem locate_join {d : Disk} {p : Path} {name : Text} {here : List Text} {entries : List (Text × FileTree)}
    (hp : d.locate p = .ok here) (hf : d.root.get? here = some (.folder entries)) (hn : Path.isName name = true) :
    d.locate (p.join name) = .ok (here ++ [name]) := by
  have hname := List.splitOn_eq_singleton (Path.isName_iff.1 hn).2.2.2
  have hne : p ≠ [] := by
    rintro rfl
    cases hp
  rw [locate, if_neg hne] at hp
  unfold Path.join
  rw [Path.not_isAbsolute_of_isName hn, if_neg Bool.false_ne_true]
  by_cases hs : p.getLast? = some '/'
  · -- a slash at the end of the path is an empty last piece
    obtain ⟨q, rfl⟩ := List.getLast?_eq_some_iff.1 hs
    rw [if_pos (by simp), List.append_assoc, List.singleton_append, locate, if_neg (by simp),
      List.splitOn_append_cons_self, hname, locateFrom_append]
    rw [List.splitOn_append_cons_self, locateFrom_append] at hp
    have habs : Path.isAbsolute (q ++ '/' :: name) = Path.isAbsolute (q ++ ['/']) := by
      cases q <;> rfl
    rw [habs]
    cases hq : locateFrom d.root (if Path.isAbsolute (q ++ ['/']) then [] else d.working) (Text.splitOn '/' q) with
    | error fault =>
      rw [hq] at hp
      cases hp
    | ok there =>
      rw [hq] at hp
      cases eq_of_locateFrom_nil hp
      exact locateFrom_name hf hn
  · have habs : Path.isAbsolute (p ++ '/' :: name) = p.isAbsolute := by
      cases p with
      | nil => exact absurd rfl hne
      | cons c p => rfl
    rw [if_neg (by simp [hne, hs]), locate, if_neg (by simp), List.splitOn_append_cons_self, hname, locateFrom_append,
      habs, hp]
    exact locateFrom_name hf hn

theorem find_eq_ok {d : Disk} {p : Path} {node : FileTree} (h : d.find p = .ok node) :
    ∃ names, d.locate p = .ok names ∧ d.root.get? names = some node := by
  obtain ⟨names, hl, h⟩ := exists_of_bind_eq_ok h
  split at h
  · rename_i hg
    cases h
    exact ⟨names, hl, hg⟩
  · cases h

theorem find_join {d : Disk} {p : Path} {name : Text} {entries : List (Text × FileTree)} {node : FileTree}
    (hp : d.find p = .ok (.folder entries)) (hn : Path.isName name = true) (he : entries.lookup name = some node) :
    d.find (p.join name) = .ok node := by
  obtain ⟨here, hl, hg⟩ := find_eq_ok hp
  have hnode : d.root.get? (here ++ [name]) = some node := by
    rw [FileTree.get?_append, hg, Option.bind_some, FileTree.get?, he]
    rfl
  rw [find, locate_join hl hg hn]
  simp only [bind, Except.bind, hnode]

/-- Names joined one by one to the path of a tree lead to what they lead to in the tree. -/
theorem find_foldl_join {d : Disk} : ∀ {names : List Text} {p : Path} {node sub : FileTree}, d.find p = .ok node →
    (∀ name ∈ names, Path.isName name = true) → node.get? names = some sub → d.find (names.foldl Path.join p) = .ok sub
  | [], _, _, _, hp, _, hg => by
    cases hg
    exact hp
  | _ :: _, _, .file _, _, _, _, hg => by cases hg
  | name :: names, p, .folder entries, sub, hp, hn, hg => by
    rw [FileTree.get?, Option.bind_eq_some_iff] at hg
    obtain ⟨node, he, hg⟩ := hg
    obtain ⟨hname, hnames⟩ := List.forall_mem_cons.1 hn
    rw [List.foldl_cons]
    exact find_foldl_join (find_join hp hname he) hnames hg

/-- What a walk finds under a folder stands there under names that paths can spell. -/
theorem get?_of_mem_filesUnder {d : Disk} {p : Path} {found : List (List Text × List UInt8)} {names : List Text}
    {bytes : List UInt8} (hd : d.root.legal = true) (hf : d.filesUnder p = .ok found) (hm : (names, bytes) ∈ found) :
    ∃ entries, d.find p = .ok (.folder entries) ∧ (FileTree.folder entries).get? names = some (.file bytes) ∧
      ∀ name ∈ names, Path.isName name = true := by
  obtain ⟨node, hp, hf⟩ := exists_of_bind_eq_ok hf
  cases node with
  | file _ => cases hf
  | folder entries =>
    cases hf
    obtain ⟨here, _, hg⟩ := find_eq_ok hp
    exact ⟨_, hp, FileTree.get?_of_mem_files (FileTree.legal_get? hd hg) hm⟩

/-- **What a walk finds is read back** at the path of the folder with the names joined to it. -/
theorem read_of_mem_filesUnder {d : Disk} {p : Path} {found : List (List Text × List UInt8)} {names : List Text}
    {bytes : List UInt8} (hd : d.root.legal = true) (hf : d.filesUnder p = .ok found) (hm : (names, bytes) ∈ found) :
    d.read (names.foldl Path.join p) = .ok bytes := by
  obtain ⟨_, hp, hget, hnames⟩ := get?_of_mem_filesUnder hd hf hm
  rw [read, find_foldl_join hp hnames hget]
  rfl

end Disk

end BatchMigrate
