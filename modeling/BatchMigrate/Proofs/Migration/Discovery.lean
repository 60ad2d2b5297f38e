import Mathlib.Algebra.Ring.Nat
import BatchMigrate.Proofs.Files.Walk
import BatchMigrate.Proofs.Migration.Load
import BatchMigrate.Proofs.Text.Decimal

/-!
# What discovery finds

Discovery finds the files whose names spell a version and a title (`Migration.Spells`), each once and in the order of
the names that lead to it, or stops because one of them does not hold text (`Migration.discover_found`).
-/

namespace BatchMigrate

namespace Migration

variable {name title : Text} {names : List Text} {version : Nat} {root : Path} {m : Migration}

/-! ## Names of scripts -/

/-- The name is a run of ASCII digits that writes the version, an underscore, the title and `.sql`. The version fits into
63 bits, and the title is not empty and has no line feed. -/
def Spells (name : Text) (version : Nat) (title : Text) : Prop :=
  ∃ digits, name = digits ++ '_' :: (title ++ Text.of ".sql") ∧
    digits ≠ [] ∧ (∀ c ∈ digits, Text.isDigit c = true) ∧
    Text.decimalValue digits = version ∧ version ≤ 2 ^ 63 - 1 ∧ title ≠ [] ∧ '\n' ∉ title

theorem stem?_eq_some {stem : Text} : stem? name = some stem ↔ name = stem ++ Text.of ".sql" := by
  have hsuffix : stem? name = (Text.of ".sql").isSuffixOf? name := rfl
  rw [hsuffix, List.isSuffixOf?_eq_some_iff_append_eq, eq_comm]

/-- A run of digits that an underscore ends is what is cut off in front of the underscore. -/
theorem cut_digits {digits rest : Text} (h : ∀ c ∈ digits, Text.isDigit c = true) :
    (digits ++ '_' :: rest).takeWhile Text.isDigit = digits ∧
    (digits ++ '_' :: rest).dropWhile Text.isDigit = '_' :: rest := by
  have hend : ¬Text.isDigit '_' = true := by decide
  rw [List.takeWhile_append_of_pos h, List.dropWhile_append_of_pos h, List.takeWhile_cons_of_neg hend,
    List.dropWhile_cons_of_neg hend, List.append_nil]
  exact ⟨rfl, rfl⟩

/-- The name of a script is read as what it spells. -/
theorem ofName?_eq_some : ofName? name = some (version, title) ↔ Spells name version title := by
  constructor
  · intro h
    unfold ofName? at h
    split at h
    · rename_i rest hrest
      split at h
      · rename_i description hstem
        obtain ⟨htitle, h⟩ := Option.ite_none_left_eq_some.1 h
        obtain ⟨value, hvalue, heq⟩ := Option.map_eq_some_iff.1 h
        cases heq
        obtain ⟨hne, hdigits, hvalue, hle⟩ := Text.decimal?_eq_some.1 hvalue
        obtain ⟨hempty, hline⟩ : title ≠ [] ∧ '\n' ∉ title := by simpa using htitle
        refine ⟨name.takeWhile Text.isDigit, ?_, hne, hdigits, hvalue, hle, hempty, hline⟩
        rw [← stem?_eq_some.1 hstem, ← hrest, List.takeWhile_append_dropWhile]
      · cases h
    · cases h
  · rintro ⟨digits, rfl, hne, hdigits, hvalue, hle, hempty, hline⟩
    obtain ⟨htake, hdrop⟩ := @cut_digits digits (title ++ Text.of ".sql") hdigits
    have hversion : Text.decimal? maxVersion digits = some version :=
      Text.decimal?_eq_some.2 ⟨hne, hdigits, hvalue, hle⟩
    have htitle : ¬(title = [] || '\n' ∈ title) = true := by simp [hempty, hline]
    rw [ofName?, htake, hdrop]
    simp only [stem?_eq_some.2 rfl, if_neg htitle, hversion, Option.map_some]

/-! ## Files that are scripts -/

/-- The script below the root that a name in some folders, what the name spells, and a text make. -/
def scriptAt (root : Path) (folders : List Text) (name : Text) (version : Nat) (title script : Text) : Migration where
  version := version
  description := title.map fun c => if c = '_' then ' ' else c
  path := (folders ++ [name]).foldl Path.join root
  namespacePath := Text.intercalate ['/'] folders
  tags := Tags.ofScript script

/-- The names lead to a file that is the script `m`: the last name spells the version and the title, and the names before
it are those of the folders that the script lies in. -/
def IsScript (root : Path) (tree : FileTree) (names : List Text) (m : Migration) : Prop :=
  ∃ folders name version title script, names = folders ++ [name] ∧ Spells name version title ∧
    tree.get? names = some (.file (Text.utf8 script)) ∧ m = scriptAt root folders name version title script

/-- The names lead to a file that has the name of a script and does not hold text. -/
def IsBadScript (tree : FileTree) (names : List Text) : Prop :=
  ∃ folders name version title bytes, names = folders ++ [name] ∧ Spells name version title ∧
    tree.get? names = some (.file bytes) ∧ ∀ script : Text, script.utf8 ≠ bytes

section

variable {folders : List Text} {bytes : List UInt8}

/-- A file with such a name is a script if it holds text, and is refused if it does not. -/
theorem ofFile?_of_spells (h : Spells name version title) : ofFile? root (folders ++ [name]) bytes =
    ((Text.ofUtf8 bytes).mapError fun _ => .notText).map fun script =>
      some (scriptAt root folders name version title script) := by
  rw [ofFile?, List.getLastD_concat, List.dropLast_concat]
  simp only [ofName?_eq_some.2 h]
  cases Text.ofUtf8 bytes <;> rfl

/-- A file without such a name is no script, whatever it holds. -/
theorem ofFile?_of_not_spells (h : ∀ version title, ¬Spells name version title) :
    ofFile? root (folders ++ [name]) bytes = .ok none := by
  have hname : ofName? name = none := by
    cases hname : ofName? name with
    | none => rfl
    | some read => exact absurd (ofName?_eq_some.1 hname) (h _ _)
  rw [ofFile?, List.getLastD_concat]
  simp only [hname]

theorem exists_spells_of_ofFile? {result : Except ReadFault (Option Migration)} (hresult : result ≠ .ok none)
    (h : ofFile? root (folders ++ [name]) bytes = result) : ∃ version title, Spells name version title := by
  by_cases hspells : ∃ version title, Spells name version title
  · exact hspells
  · simp only [not_exists] at hspells
    exact absurd (h.symm.trans (ofFile?_of_not_spells hspells)) hresult

variable {tree : FileTree}

theorem ofFile?_eq_some_iff (hne : names ≠ []) (hfile : tree.get? names = some (.file bytes)) :
    ofFile? root names bytes = .ok (some m) ↔ IsScript root tree names m := by
  constructor
  · intro h
    obtain rfl | ⟨folders, name, rfl⟩ := List.eq_nil_or_concat' names
    · exact absurd rfl hne
    obtain ⟨version, title, hspells⟩ := exists_spells_of_ofFile? (by simp) h
    rw [ofFile?_of_spells hspells] at h
    cases hread : Text.ofUtf8 bytes with
    | error fault =>
      rw [hread] at h
      cases h
    | ok script =>
      rw [hread] at h
      cases h
      rw [← Text.ofUtf8_eq_ok.1 hread] at hfile
      exact ⟨folders, name, version, title, script, rfl, hspells, hfile, rfl⟩
  · rintro ⟨folders, name, version, title, script, rfl, hspells, hscript, rfl⟩
    cases hfile.symm.trans hscript
    rw [ofFile?_of_spells hspells, Text.ofUtf8_eq_ok.2 rfl]
    rfl

theorem ofFile?_eq_error_iff (hne : names ≠ []) (hfile : tree.get? names = some (.file bytes)) :
    ofFile? root names bytes = .error .notText ↔ IsBadScript tree names := by
  constructor
  · intro h
    obtain rfl | ⟨folders, name, rfl⟩ := List.eq_nil_or_concat' names
    · exact absurd rfl hne
    obtain ⟨version, title, hspells⟩ := exists_spells_of_ofFile? (by simp) h
    refine ⟨folders, name, version, title, bytes, rfl, hspells, hfile, fun script hscript => ?_⟩
    rw [ofFile?_of_spells hspells, Text.ofUtf8_eq_ok.2 hscript] at h
    cases h
  · rintro ⟨folders, name, version, title, bytes', rfl, hspells, hbytes, hbad⟩
    cases hfile.symm.trans hbytes
    rw [ofFile?_of_spells hspells]
    cases hread : Text.ofUtf8 bytes with
    | error fault => rfl
    | ok script => exact absurd (Text.ofUtf8_eq_ok.1 hread) (hbad script)

end

/-- A file is refused only because it does not hold text. -/
theorem eq_notText_of_ofFile? {bytes : List UInt8} {fault : ReadFault} (h : ofFile? root names bytes = .error fault) :
    fault = .notText := by
  unfold ofFile? at h
  split at h
  · cases h
  · split at h
    · cases h
      rfl
    · cases h

/-! ## The scripts among files -/

/-- One file that is refused ends the search. -/
theorem ofFiles_eq_error {bytes : List UInt8} (h : ofFile? root names bytes = .error .notText) :
    ∀ {files : List (List Text × List UInt8)}, (names, bytes) ∈ files → ofFiles root files = .error .notText
  | (names', bytes') :: rest, hmem => by
    rw [ofFiles]
    cases hfirst : ofFile? root names' bytes' with
    | error fault =>
      rw [eq_notText_of_ofFile? hfirst]
      rfl
    | ok first =>
      have hrest : (names, bytes) ∈ rest := by
        rcases List.mem_cons.1 hmem with heq | hrest
        · cases heq
          rw [h] at hfirst
          cases hfirst
        · exact hrest
      cases first with
      | none => exact ofFiles_eq_error h hrest
      | some m =>
        have := ofFiles_eq_error h hrest
        simp only [bind, Except.bind, this]
        rfl

/-- If no file is refused, the scripts among files are found in the order of the files. -/
theorem exists_ofFiles_eq_ok : ∀ {files : List (List Text × List UInt8)},
    (∀ names bytes, (names, bytes) ∈ files → ofFile? root names bytes ≠ .error .notText) →
      ∃ found : List (List Text × Migration), ofFiles root files = .ok (found.map Prod.snd) ∧
        (found.map Prod.fst).Sublist (files.map Prod.fst) ∧
        ∀ names m, (names, m) ∈ found ↔ ∃ bytes, (names, bytes) ∈ files ∧ ofFile? root names bytes = .ok (some m)
  | [], _ => ⟨[], rfl, List.Sublist.refl _, by simp⟩
  | (names, bytes) :: rest, h => by
    obtain ⟨found, hfound, hsub, hmem⟩ := exists_ofFiles_eq_ok fun names' bytes' hin => h names' bytes' (.tail _ hin)
    cases hfirst : ofFile? root names bytes with
    | error fault =>
      cases eq_notText_of_ofFile? hfirst
      exact absurd hfirst (h names bytes List.mem_cons_self)
    | ok first =>
      cases first with
      | none =>
        refine ⟨found, ?_, hsub.cons names, fun names' m => (hmem names' m).trans ⟨?_, ?_⟩⟩
        · rw [ofFiles, hfirst]
          exact hfound
        · rintro ⟨bytes', hin, hm⟩
          exact ⟨bytes', .tail _ hin, hm⟩
        · rintro ⟨bytes', hin, hm⟩
          rcases List.mem_cons.1 hin with heq | hin
          · cases heq
            rw [hfirst] at hm
            cases hm
          · exact ⟨bytes', hin, hm⟩
      | some first =>
        refine ⟨(names, first) :: found, ?_, hsub.cons_cons names, fun names' m => ⟨fun hin => ?_, ?_⟩⟩
        · rw [ofFiles, hfirst]
          simp only [bind, Except.bind, hfound]
          rfl
        · rcases List.mem_cons.1 hin with heq | hin
          · cases heq
            exact ⟨bytes, List.mem_cons_self, hfirst⟩
          · obtain ⟨bytes', hin, hm⟩ := (hmem names' m).1 hin
            exact ⟨bytes', .tail _ hin, hm⟩
        · rintro ⟨bytes', hin, hm⟩
          rcases List.mem_cons.1 hin with heq | hin
          · cases heq
            rw [hfirst] at hm
            cases hm
            exact List.mem_cons_self
          · exact .tail _ ((hmem names' m).2 ⟨bytes', hin, hm⟩)

/-! ## Discovery -/

/-- It takes a name to lead from a folder to a file. -/
theorem ne_nil_of_mem_files {entries : List (Text × FileTree)} {bytes : List UInt8}
    (h : (FileTree.folder entries).get? names = some (.file bytes)) : names ≠ [] := by
  rintro rfl
  cases h

/-- **What discovery finds** under a folder, however its path is spelled. If every file with the name of a script holds
text, it finds each script once, in the order of the names that lead to the scripts, and nothing else. If one of them does
not, there is no result but the fault. -/
theorem discover_found {d : Disk} {root : Path} {entries : List (Text × FileTree)} (hd : d.root.legal = true)
    (hroot : d.find root = .ok (.folder entries)) :
    ((∀ names, ¬IsBadScript (.folder entries) names) →
      ∃ found : List (List Text × Migration), discover d root = .ok (found.map Prod.snd) ∧
        found.Pairwise (fun a b => FileTree.Before a.1 b.1) ∧ (found.map Prod.fst).Nodup ∧
        (∀ names m, (names, m) ∈ found ↔ IsScript root (.folder entries) names m)) ∧
    ((∃ names, IsBadScript (.folder entries) names) → discover d root = .error .notText) := by
  have hlegal : (FileTree.folder entries).legal = true := by
    obtain ⟨here, _, hget⟩ := Disk.find_eq_ok hroot
    exact FileTree.legal_get? hd hget
  have hdiscover := discover_of_find hroot
  constructor
  · intro hgood
    have hread : ∀ names bytes, (names, bytes) ∈ (FileTree.folder entries).files →
        ofFile? root names bytes ≠ .error .notText := fun names bytes hin hbad => by
      have hget := (FileTree.mem_files_iff hlegal).1 hin
      exact hgood names ((ofFile?_eq_error_iff (ne_nil_of_mem_files hget) hget).1 hbad)
    obtain ⟨found, hfound, hsub, hmem⟩ := exists_ofFiles_eq_ok hread
    have hbefore : (found.map Prod.fst).Pairwise FileTree.Before :=
      (List.pairwise_map.2 (FileTree.pairwise_files hlegal)).sublist hsub
    refine ⟨found, hdiscover.trans hfound, List.pairwise_map.1 hbefore,
      hbefore.imp FileTree.Before.ne, fun names m => (hmem names m).trans ⟨?_, ?_⟩⟩
    · rintro ⟨bytes, hin, hm⟩
      have hget := (FileTree.mem_files_iff hlegal).1 hin
      exact (ofFile?_eq_some_iff (ne_nil_of_mem_files hget) hget).1 hm
    · intro hscript
      obtain ⟨_, _, _, _, _, _, _, hget, _⟩ := id hscript
      exact ⟨_, (FileTree.mem_files_iff hlegal).2 hget, (ofFile?_eq_some_iff (ne_nil_of_mem_files hget) hget).2 hscript⟩
  · rintro ⟨names, hbad⟩
    obtain ⟨_, _, _, _, _, _, _, hget, _⟩ := id hbad
    rw [hdiscover]
    exact ofFiles_eq_error ((ofFile?_eq_error_iff (ne_nil_of_mem_files hget) hget).2 hbad)
      ((FileTree.mem_files_iff hlegal).2 hget)

/-- Where all files hold text, no script is bad. -/
theorem not_isBadScript_of_all {tree : FileTree} (h : ∀ file ∈ tree.files, (Text.ofUtf8 file.2).isOk = true)
    (names : List Text) : ¬IsBadScript tree names := by
  rintro ⟨_, _, _, _, bytes, _, _, hget, hbad⟩
  have hok := h _ (FileTree.mem_files_of_get? hget)
  cases hread : Text.ofUtf8 bytes with
  | error fault => simp [hread, Except.isOk, Except.toBool] at hok
  | ok script => exact hbad script (Text.ofUtf8_eq_ok.1 hread)

/-- A folder with three scripts, one of them in a folder that has the name of a script; a version of 64 bits and notes are
no scripts. -/
def mixedFolder : List (Text × FileTree) :=
  [(.of "9_z.sql", .file (Text.utf8 (.of "select 1"))),
    (.of "notes.md", .file (Text.utf8 (.of "select 2"))),
    (.of "1_old.sql", .folder [(.of "2_c.sql", .file (Text.utf8 (.of "select 3")))]),
    (.of "10_a_b.sql", .file (Text.utf8 (.of "-- tags: eu\nselect 4"))),
    (.of "9223372036854775808_x.sql", .file (Text.utf8 (.of "select 5")))]

/-- The folder beside one with a script that is not text. -/
def mixedDisk : Disk where
  root := .folder [(.of "migrations", .folder mixedFolder), (.of "drafts", .folder [(.of "3_d.sql", .file [0xFF])])]

/-- The script that does not hold text is in the way only where it is among the files. -/
theorem discover_found_mixedDisk :
    (∃ found : List (List Text × Migration),
      discover mixedDisk (.of "./migrations/") = .ok (found.map Prod.snd) ∧
      found.Pairwise (fun a b => FileTree.Before a.1 b.1) ∧
      ([.of "1_old.sql", .of "2_c.sql"],
        ⟨2, .of "c", .of "./migrations/1_old.sql/2_c.sql", .of "1_old.sql", []⟩) ∈ found) ∧
    discover mixedDisk (.of ".") = .error .notText := by
  have hlegal : mixedDisk.root.legal = true := by decide
  constructor
  · have hgood := @not_isBadScript_of_all (.folder mixedFolder) (by
      simp only [FileTree.files, List.forall_mem_flatMap, List.mem_mergeSort]
      decide +kernel)
    obtain ⟨found, hfound, hbefore, _, hmem⟩ :=
      (@discover_found mixedDisk (.of "./migrations/") mixedFolder hlegal rfl).1 hgood
    refine ⟨found, hfound, hbefore, (hmem _ _).2 ?_⟩
    exact ⟨[.of "1_old.sql"], .of "2_c.sql", 2, .of "c", .of "select 3", rfl, ofName?_eq_some.1 (by decide), rfl,
      by decide⟩
  · have hread : Text.ofUtf8 [0xFF] = .error ⟨0, some 1⟩ := by decide
    refine (@discover_found mixedDisk (.of ".") _ hlegal rfl).2 ⟨[.of "drafts", .of "3_d.sql"], [.of "drafts"],
      .of "3_d.sql", 3, .of "d", [0xFF], rfl, ofName?_eq_some.1 (by decide), rfl, fun script hscript => ?_⟩
    rw [Text.ofUtf8_eq_ok.2 hscript] at hread
    cases hread

end Migration

end BatchMigrate
