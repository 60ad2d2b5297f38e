import BatchMigrate.Migration.Load
import BatchMigrate.Proofs.Files.Tree
import BatchMigrate.Proofs.Order

/-!
# What loading gives

Loaded scripts stand in the strict order of their versions (`Migration.pairwise_load`), and each of them can be read from
the disk again (`Migration.readable_of_mem_load`).
-/

namespace BatchMigrate.Migration

/-! ## Order -/

/-- Adding scripts keeps the order, and drops and invents none. -/
theorem addAll_eq_ok : ∀ {ms loaded result : List Migration}, addAll loaded ms = .ok result →
    loaded.Pairwise (·.version < ·.version) →
      result.Pairwise (·.version < ·.version) ∧ ∀ m, m ∈ result ↔ m ∈ loaded ∨ m ∈ ms
  | [], loaded, result, h, hl => by
    cases h
    exact ⟨hl, fun m => by simp⟩
  | m :: ms, loaded, result, h, hl => by
    rw [addAll] at h
    split at h
    · cases h
    · rename_i hnew
      have hm : ∀ n ∈ loaded, n.version ≠ m.version := by simpa using hnew
      obtain ⟨hp, hmem⟩ := addAll_eq_ok h (pairwise_insertBy hl hm)
      refine ⟨hp, fun n => ?_⟩
      rw [hmem, mem_insertBy, List.mem_cons, or_assoc, or_left_comm]

/-! ## Files -/

/-- The script is on the disk, and it is text. -/
def Readable (d : Disk) (m : Migration) : Prop :=
  ∃ bytes script, d.read m.path = .ok bytes ∧ Text.ofUtf8 bytes = .ok script

theorem ofFile?_eq_some {root : Path} {names : List Text} {bytes : List UInt8} {m : Migration}
    (h : ofFile? root names bytes = .ok (some m)) :
    m.path = names.foldl Path.join root ∧ ∃ script, Text.ofUtf8 bytes = .ok script := by
  unfold ofFile? at h
  split at h
  · cases h
  · split at h
    · cases h
    · rename_i script hs
      cases h
      exact ⟨rfl, script, hs⟩

/-- Each script that is found is one of the files. -/
theorem mem_of_mem_ofFiles {root : Path} {m : Migration} : ∀ {files : List (List Text × List UInt8)}
    {ms : List Migration}, ofFiles root files = .ok ms → m ∈ ms →
      ∃ names bytes, (names, bytes) ∈ files ∧ ofFile? root names bytes = .ok (some m)
  | [], ms, h, hm => by
    cases h
    cases hm
  | (names, bytes) :: rest, ms, h, hm => by
    have later : ∀ {others : List Migration}, ofFiles root rest = .ok others → m ∈ others →
        ∃ names' bytes', (names', bytes') ∈ (names, bytes) :: rest ∧ ofFile? root names' bytes' = .ok (some m) := by
      intro others hr hm
      obtain ⟨names', bytes', hmem, ho⟩ := mem_of_mem_ofFiles hr hm
      exact ⟨names', bytes', List.mem_cons_of_mem _ hmem, ho⟩
    obtain ⟨first, hf, h⟩ := exists_of_bind_eq_ok h
    cases first with
    | none => exact later h hm
    | some first =>
      cases hr : ofFiles root rest with
      | error fault =>
        rw [hr] at h
        cases h
      | ok others =>
        rw [hr] at h
        cases h
        rcases List.mem_cons.1 hm with rfl | hm
        · exact ⟨names, bytes, List.mem_cons_self, hf⟩
        · exact later hr hm

/-- The scripts of a folder are those of the files that a walk of it gives. -/
theorem discover_of_find {d : Disk} {root : Path} {entries : List (Text × FileTree)}
    (h : d.find root = .ok (.folder entries)) : discover d root = ofFiles root (FileTree.folder entries).files := by
  rw [discover, Disk.filesUnder, h]
  rfl

/-- Scripts that are found on a disk with legal trees can be read. -/
theorem readable_of_mem_discover {d : Disk} {root : Path} {ms : List Migration} {m : Migration}
    (hd : d.root.legal = true) (h : discover d root = .ok ms) (hm : m ∈ ms) : m.Readable d := by
  obtain ⟨files, hf, h⟩ := exists_of_bind_eq_ok h
  obtain ⟨names, bytes, hmem, ho⟩ := mem_of_mem_ofFiles h hm
  obtain ⟨hpath, script, hs⟩ := ofFile?_eq_some ho
  exact ⟨bytes, script, hpath ▸ Disk.read_of_mem_filesUnder hd hf hmem, hs⟩

/-! ## Loading -/

/-- Loaded scripts are the found ones that the filter selects, in the strict order of their versions. -/
theorem load_eq_ok {d : Disk} {root : Path} {f : Filter} {ms : List Migration} (h : load d root f = .ok ms) :
    ∃ found, discover d root = .ok found ∧ ms.Pairwise (·.version < ·.version) ∧
      ∀ m, m ∈ ms ↔ m ∈ found ∧ f.selects m = true := by
  obtain ⟨found, hf, h⟩ := exists_of_bind_eq_ok h
  split at h
  · cases h
  · obtain ⟨loaded, ha, h⟩ := exists_of_bind_eq_ok h
    obtain ⟨hp, hmem⟩ := addAll_eq_ok ha List.Pairwise.nil
    split at h
    · cases h
    · cases h
      exact ⟨found, eq_ok_of_mapError_eq_ok hf, hp, fun m => by simpa using hmem m⟩

theorem pairwise_load {d : Disk} {root : Path} {f : Filter} {ms : List Migration} (h : load d root f = .ok ms) :
    ms.Pairwise (·.version < ·.version) := by
  obtain ⟨_, _, hp, _⟩ := load_eq_ok h
  exact hp

theorem readable_of_mem_load {d : Disk} {root : Path} {f : Filter} {ms : List Migration} {m : Migration}
    (hd : d.root.legal = true) (h : load d root f = .ok ms) (hm : m ∈ ms) : m.Readable d := by
  obtain ⟨found, hf, _, hmem⟩ := load_eq_ok h
  exact readable_of_mem_discover hd hf ((hmem m).1 hm).1

/-! ## Reading again -/

/-- The script, its checksum, and both together are read from the same bytes. -/
theorem Readable.exists_script {d : Disk} {m : Migration} (h : m.Readable d) :
    ∃ script sum, m.read d = .ok script ∧ m.checksum d = .ok sum ∧ m.readWithChecksum d = .ok (script, sum) := by
  obtain ⟨bytes, script, hb, hs⟩ := h
  refine ⟨script, Sha256.hexDigest bytes, ?_, ?_, ?_⟩
  · rw [Migration.read, Disk.readText, hb]
    simp only [bind, Except.bind, hs]
  · rw [checksum, hb]
    rfl
  · rw [readWithChecksum, hb]
    simp only [bind, Except.bind, hs]

theorem readable_of_readWithChecksum {d : Disk} {m : Migration} {read : Text × Text}
    (h : m.readWithChecksum d = .ok read) : m.Readable d := by
  obtain ⟨bytes, hb, h⟩ := exists_of_bind_eq_ok h
  split at h
  · rename_i script hs
    exact ⟨bytes, script, hb, hs⟩
  · cases h

/-- What is read together can be read apart. -/
theorem readWithChecksum_eq_ok {d : Disk} {m : Migration} {script sum : Text}
    (h : m.readWithChecksum d = .ok (script, sum)) : m.read d = .ok script ∧ m.checksum d = .ok sum := by
  obtain ⟨script', sum', hread, hsum, hboth⟩ := (readable_of_readWithChecksum h).exists_script
  rw [h] at hboth
  cases hboth
  exact ⟨hread, hsum⟩

end BatchMigrate.Migration
