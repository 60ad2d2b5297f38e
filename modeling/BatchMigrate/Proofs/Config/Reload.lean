import BatchMigrate.Proofs.Config.RoundTrip
import BatchMigrate.Proofs.Text.Trim

/-!
# Saving settings where they were loaded

Settings that were loaded from a file can always be saved in its place, and loaded again (`Config.exists_save_of_load`).
But a relative folder of scripts is seen from the file at each loading, while a save writes it as it is. So the folder of
the file is put in front of it once more, and the settings stay the same only if the folder of scripts is absolute, or the
path of the file names no folder (`Config.reload_saved`).
-/

namespace BatchMigrate

/-! ## Spellings of one path -/

namespace Path

variable {folder s : Path}

/-- The names in a path: its pieces, without empty ones and single dots. -/
def names (p : Path) : List Text := (Text.splitOn '/' p).filter fun piece => piece ≠ [] && piece ≠ ['.']

/-- Two spellings of one path: both start at the root or neither does, both start with a single dot or neither does, and
they go through the same names. -/
structure Alike (p q : Path) : Prop where
  root : p.isAbsolute = q.isAbsolute
  dot : (Text.splitOn '/' p).head? = some ['.'] ↔ (Text.splitOn '/' q).head? = some ['.']
  names : p.names = q.names

theorem Alike.refl (p : Path) : Alike p p := ⟨rfl, Iff.rfl, rfl⟩

theorem join_nil (s : Path) : join [] s = s := by
  rw [join]
  split
  · rfl
  · rfl

/-- A relative path that is joined to a folder comes after the pieces of the folder, but for an empty one at its end. -/
theorem exists_splitOn_join (h : folder ≠ []) : ∃ pieces, pieces ≠ [] ∧
    (Text.splitOn '/' folder = pieces ∨ Text.splitOn '/' folder = pieces ++ [[]]) ∧
    ∀ s, isAbsolute s = false → Text.splitOn '/' (join folder s) = pieces ++ Text.splitOn '/' s := by
  by_cases hslash : folder.getLast? = some '/'
  · obtain ⟨q, rfl⟩ := List.getLast?_eq_some_iff.1 hslash
    refine ⟨Text.splitOn '/' q, List.splitOn_ne_nil '/' q, .inr (List.splitOn_append_cons_self q []), fun s hs => ?_⟩
    rw [join, if_neg (by simp [hs]), if_pos (by simp), List.append_assoc, List.singleton_append,
      List.splitOn_append_cons_self]
  · refine ⟨Text.splitOn '/' folder, List.splitOn_ne_nil '/' folder, .inl rfl, fun s hs => ?_⟩
    rw [join, if_neg (by simp [hs]), if_neg (by simp [h, hslash]), List.splitOn_append_cons_self]

/-- The names of a relative path come after those of the folder that it is joined to. -/
theorem names_join (h : isAbsolute s = false) : (join folder s).names = folder.names ++ s.names := by
  by_cases hf : folder = []
  · subst hf
    rw [join_nil]
    rfl
  · obtain ⟨pieces, _, hpieces, hjoin⟩ := exists_splitOn_join hf
    rw [names, hjoin s h, List.filter_append, names, names]
    rcases hpieces with hpieces | hpieces <;> simp [hpieces]

theorem head?_splitOn_join (hf : folder ≠ []) (h : isAbsolute s = false) :
    (Text.splitOn '/' (join folder s)).head? = (Text.splitOn '/' folder).head? := by
  obtain ⟨pieces, hne, hpieces, hjoin⟩ := exists_splitOn_join hf
  obtain ⟨first, rest, rfl⟩ := List.exists_cons_of_ne_nil hne
  rw [hjoin s h]
  rcases hpieces with hpieces | hpieces <;> rw [hpieces] <;> rfl

theorem isAbsolute_join (hf : folder ≠ []) (h : isAbsolute s = false) : isAbsolute (join folder s) = isAbsolute folder := by
  obtain ⟨c, rest, rfl⟩ := List.exists_cons_of_ne_nil hf
  rw [join, if_neg (by simp [h])]
  split <;> rfl

/-- Joining a relative path to a folder twice spells the same as joining it once exactly if the folder has no names. -/
theorem alike_join_join (hs : isAbsolute s = false) (h : isAbsolute (join folder s) = false) :
    Alike (join folder (join folder s)) (join folder s) ↔ folder.names = [] := by
  constructor
  · intro halike
    have hnames := halike.names
    rw [names_join h] at hnames
    exact List.append_left_eq_self.1 hnames
  · intro hnames
    by_cases hf : folder = []
    · subst hf
      rw [join_nil]
      exact .refl _
    · refine ⟨?_, ?_, ?_⟩
      · rw [isAbsolute_join hf h, isAbsolute_join hf hs]
      · rw [head?_splitOn_join hf h, head?_splitOn_join hf hs]
      · rw [names_join h, hnames, List.nil_append]

/-- Joining a relative path to a folder leaves the path as it is only if there is no folder. -/
theorem join_eq_self (hs : isAbsolute s = false) : join folder s = s ↔ folder = [] := by
  constructor
  · intro h
    rw [join, if_neg (by simp [hs])] at h
    split at h
    · exact List.append_left_eq_self.1 h
    · have hlength := congrArg List.length h
      rw [List.length_append, List.length_cons] at hlength
      omega
  · rintro rfl
    exact join_nil s

end Path

/-! ## Files in the place of others -/

namespace Disk

variable {d : Disk} {p : Path} {bytes : List UInt8}

/-- A path that ends with a slash leads to no file. -/
theorem getLast?_ne_of_find_file (h : d.find p = .ok (.file bytes)) : p.getLast? ≠ some '/' := by
  intro hslash
  obtain ⟨q, rfl⟩ := List.getLast?_eq_some_iff.1 hslash
  obtain ⟨names, hlocate, hget⟩ := find_eq_ok h
  rw [locate, if_neg (by simp), List.splitOn_append_cons_self, locateFrom_append] at hlocate
  obtain ⟨there, _, hlast⟩ := exists_of_bind_eq_ok hlocate
  -- the empty piece after the slash asks for a folder
  cases eq_of_locateFrom_nil hlast
  rw [show Text.splitOn '/' [] = [[]] from rfl, locateFrom, hget] at hlast
  cases hlast

/-- Where there is a file, another can be written. -/
theorem exists_write (h : d.find p = .ok (.file bytes)) (bytes' : List UInt8) : ∃ d', d.write p bytes' = .ok d' := by
  have hslash := getLast?_ne_of_find_file h
  obtain ⟨names, hlocate, hget⟩ := find_eq_ok h
  have hkept : ∀ c, p.reverse.head? = some c → (c == '/') = false := fun c hc => by
    rw [List.head?_reverse] at hc
    refine beq_eq_false_iff_ne.2 ?_
    rintro rfl
    exact hslash hc
  have hbare : (p.reverse.dropWhile (· == '/')).reverse = p := by
    rw [Text.dropWhile_eq_self hkept, List.reverse_reverse]
  refine ⟨{ d with root := d.root.put names (.file bytes') }, ?_⟩
  rw [write]
  simp only [hbare, hlocate, bind, Except.bind, ne_eq, not_true, if_false, hget]

end Disk

/-! ## Settings -/

namespace Config

variable {c : Config} {d : Disk} {p : Path}

theorem validate_resolve (p : Path) (c : Config) : (c.resolve p).validate = c.validate := by
  rw [resolve]
  split
  · rfl
  · split <;> rfl

/-- What is loaded from a file are settings seen from the file, and they can be used. -/
theorem exists_of_load_eq_ok (h : load d p = .ok c) :
    ∃ bytes written, d.find p = .ok (.file bytes) ∧ c = resolve p written ∧ c.validate = .ok () := by
  unfold load at h
  dsimp only at h
  split at h
  · cases h
  · cases h
  · rename_i bytes hfind
    split at h
    · rename_i written _
      obtain ⟨seen, hseen, h⟩ := exists_of_bind_eq_ok h
      obtain ⟨_, hvalid, h⟩ := exists_of_bind_eq_ok h
      cases hseen
      cases h
      exact ⟨bytes, written, hfind, rfl, hvalid⟩
    · cases h

/-- Settings that are found in a file, however they are written there, are seen from the file. -/
theorem load_of_read {t : Text} (hfind : d.find p = .ok (.file t.utf8)) (hread : ofYaml? t = some c)
    (hvalid : (c.resolve p).validate = .ok ()) : load d p = .ok (c.resolve p) := by
  have htext : Text.ofUtf8 t.utf8 = .ok t := Text.ofUtf8_eq_ok.2 rfl
  rw [load, hfind]
  simp only [htext, Except.toOption, Option.bind_some, hread]
  show ((c.resolve p).validate >>= fun _ => .ok (c.resolve p)) = .ok (c.resolve p)
  rw [hvalid]
  rfl

/-- Settings that are found in a file are seen from the file once more. -/
theorem load_of_find (hfind : d.find p = .ok (.file c.toYaml.utf8)) (hvalid : c.validate = .ok ()) :
    load d p = .ok (c.resolve p) :=
  load_of_read hfind (ofYaml?_toYaml c) (by rw [validate_resolve, hvalid])

/-- Settings that were loaded can be saved in the place of the file and loaded again. -/
theorem exists_save_of_load (h : load d p = .ok c) :
    ∃ d', c.save d p = .ok d' ∧ load d' p = .ok (c.resolve p) := by
  obtain ⟨bytes, _, hfind, _, hvalid⟩ := exists_of_load_eq_ok h
  obtain ⟨d', hwrite⟩ := Disk.exists_write hfind c.toYaml.utf8
  exact ⟨d', by rw [save, hwrite]; rfl, load_of_find (Disk.find_write hwrite) hvalid⟩

/-! ### The folder of scripts -/

theorem resolve_of_isAbsolute (h : Path.isAbsolute c.scriptsDir = true) : c.resolve p = c := by
  rw [resolve, if_pos h]

theorem resolve_of_not_isAbsolute (h : Path.isAbsolute c.scriptsDir = false) : c.resolve p =
    { c with scriptsDir := (Path.parent? p).elim c.scriptsDir (Path.join · c.scriptsDir) } := by
  rw [resolve, if_neg (by simp [h])]
  cases Path.parent? p <;> rfl

/-- Nothing but the folder of scripts depends on where the settings are seen from. -/
theorem resolve_eq (p : Path) (c : Config) : { c.resolve p with scriptsDir := c.scriptsDir } = c := by
  rw [resolve]
  split
  · rfl
  · split <;> rfl

/-- The settings are the same seen from a file, to the letter. -/
theorem resolve_eq_self : c.resolve p = c ↔
    Path.isAbsolute c.scriptsDir = true ∨ ∀ folder ∈ Path.parent? p, folder = [] := by
  cases habs : Path.isAbsolute c.scriptsDir with
  | true => simp [resolve_of_isAbsolute habs]
  | false =>
    rw [resolve_of_not_isAbsolute habs]
    cases hparent : Path.parent? p with
    | none => simp
    | some folder =>
      have hjoin : { c with scriptsDir := Path.join folder c.scriptsDir } = c ↔
          Path.join folder c.scriptsDir = c.scriptsDir :=
        ⟨congrArg Config.scriptsDir, fun h => by rw [h]⟩
      simpa [hjoin] using Path.join_eq_self habs

/-- The folder of scripts of loaded settings is the same folder seen from their file, however it is spelled. -/
theorem alike_resolve_of_load (h : load d p = .ok c) : Path.Alike (c.resolve p).scriptsDir c.scriptsDir ↔
    Path.isAbsolute c.scriptsDir = true ∨ ∀ folder ∈ Path.parent? p, folder.names = [] := by
  obtain ⟨_, written, _, hc, _⟩ := exists_of_load_eq_ok h
  cases habs : Path.isAbsolute c.scriptsDir with
  | true => simp [resolve_of_isAbsolute habs, Path.Alike.refl]
  | false =>
    -- a folder that is relative after the load was relative in the file
    have hwritten : Path.isAbsolute written.scriptsDir = false := by
      rw [← Bool.not_eq_true]
      intro hw
      rw [hc, resolve_of_isAbsolute hw, hw] at habs
      cases habs
    rw [resolve_of_not_isAbsolute hwritten] at hc
    rw [resolve_of_not_isAbsolute habs]
    cases hparent : Path.parent? p with
    | none => simp [Path.Alike.refl]
    | some folder =>
      rw [hparent] at hc
      have hdir : c.scriptsDir = Path.join folder written.scriptsDir := by rw [hc]; rfl
      rw [hdir] at habs
      simpa [hdir] using Path.alike_join_join hwritten habs

/-- **Settings saved where they were loaded.** They can be saved, and loaded again with nothing changed but the folder of
scripts. That is the same, in its spelling or as a path, exactly if it is absolute or the path of the file has no folder
part to be put in front of it: nothing at all, or nothing but single dots. -/
theorem reload_saved (h : load d p = .ok c) :
    ∃ d' c', c.save d p = .ok d' ∧ load d' p = .ok c' ∧ { c' with scriptsDir := c.scriptsDir } = c ∧
      (c' = c ↔ Path.isAbsolute c.scriptsDir = true ∨ ∀ folder ∈ Path.parent? p, folder = []) ∧
      (Path.Alike c'.scriptsDir c.scriptsDir ↔
        Path.isAbsolute c.scriptsDir = true ∨ ∀ folder ∈ Path.parent? p, folder.names = []) := by
  obtain ⟨d', hsave, hload⟩ := exists_save_of_load h
  exact ⟨d', c.resolve p, hsave, hload, resolve_eq p c, resolve_eq_self, alike_resolve_of_load h⟩

/-- A disk with a settings file in a folder. -/
def nestedDisk : Disk where
  root := .folder [(.of "conf", .folder [(.of "run.yml", .file (Text.utf8 (.of "scripts_dir: scripts\n")))])]

/-- Seen from the folder itself, the settings stay the same. -/
theorem reload_saved_nestedDisk :
    let d := { nestedDisk with working := [.of "conf"] }
    ∃ c d' c', load d (.of "./run.yml") = .ok c ∧ c.scriptsDir = .of "./scripts" ∧ c.save d (.of "./run.yml") = .ok d' ∧
      load d' (.of "./run.yml") = .ok c' ∧ Path.Alike c'.scriptsDir c.scriptsDir := by
  intro d
  have hload : load d (.of "./run.yml") = .ok { scriptsDir := .of "./scripts" } := by decide +kernel
  obtain ⟨d', c', hsave, hreload, _, _, halike⟩ := reload_saved hload
  exact ⟨_, d', c', hload, rfl, hsave, hreload, halike.2 (.inr (by decide))⟩

/-- **The folder of the file comes twice** when settings are saved where they were loaded, and loaded again. -/
theorem reload_not_stable :
    ∃ c d' c', load nestedDisk (.of "conf/run.yml") = .ok c ∧ c.scriptsDir = .of "conf/scripts" ∧
      c.save nestedDisk (.of "conf/run.yml") = .ok d' ∧ load d' (.of "conf/run.yml") = .ok c' ∧
      c'.scriptsDir = .of "conf/conf/scripts" ∧ ¬Path.Alike c'.scriptsDir c.scriptsDir := by
  have hload : load nestedDisk (.of "conf/run.yml") = .ok { scriptsDir := .of "conf/scripts" } := by decide +kernel
  obtain ⟨d', hsave, hreload⟩ := exists_save_of_load hload
  refine ⟨_, d', _, hload, rfl, hsave, hreload, by decide, fun halike => ?_⟩
  have hnames := halike.names
  revert hnames
  decide

end Config

end BatchMigrate
