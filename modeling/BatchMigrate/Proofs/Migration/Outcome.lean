import Mathlib.Data.List.Induction
import BatchMigrate.Proofs.Migration.Load
import BatchMigrate.Proofs.Text.Decimal

/-!
# The outcome of loading

Once the scripts of a folder are found, the selected ones alone decide how loading ends, in the order of the walk
(`Migration.load_outcome`). It stops at the first script whose version is taken, and reports it with the one that took
the version (`Migration.FirstClash`). Versions are numbers, so zeros in front of one make no difference
(`Migration.ofName?_zeros`).
-/

namespace BatchMigrate

/-- In a list whose items have different keys, an item is found by its key. -/
theorem find?_key_eq_some {α κ : Type} [DecidableEq κ] {key : α → κ} {items : List α} (h : (items.map key).Nodup) {a : α}
    {k : κ} : items.find? (key · = k) = some a ↔ a ∈ items ∧ key a = k := by
  constructor
  · intro hfind
    exact ⟨List.mem_of_find?_eq_some hfind, of_decide_eq_true (List.find?_some hfind :)⟩
  · rintro ⟨ha, hk⟩
    cases hfind : items.find? (key · = k) with
    | none => exact absurd (decide_eq_true hk) (List.find?_eq_none.1 hfind a ha)
    | some other =>
      have hother : key other = key a := by
        rw [hk]
        exact of_decide_eq_true (List.find?_some hfind :)
      rw [List.inj_on_of_nodup_map h (List.mem_of_find?_eq_some hfind) ha hother]

namespace Migration

variable {m first second : Migration} {ms loaded before after : List Migration}

/-! ## Adding scripts -/

/-- A script of a new version is added. -/
theorem addAll_cons_of_not_mem (hm : m.version ∉ loaded.map (·.version)) :
    addAll loaded (m :: ms) = addAll (insertBy version m loaded) ms := by
  have hfind : loaded.find? (·.version = m.version) = none := by
    refine List.find?_eq_none.2 fun n hn heq => hm ?_
    exact of_decide_eq_true heq ▸ List.mem_map_of_mem hn
  rw [addAll, hfind]

theorem perm_insertBy_append (m : Migration) (loaded ms : List Migration) :
    (insertBy version m loaded ++ ms).Perm (loaded ++ m :: ms) :=
  ((perm_insertBy version m loaded).append_right ms).trans List.perm_middle.symm

/-- The first of scripts with different versions has none of the others. -/
theorem version_not_mem_of_nodup (h : ((loaded ++ m :: ms).map (·.version)).Nodup) :
    m.version ∉ (loaded ++ ms).map (·.version) := by
  rw [List.map_append, List.map_cons, List.nodup_middle, List.nodup_cons, ← List.map_append] at h
  exact h.1

/-- Where the versions of scripts are different, the next script is added. -/
theorem addAll_cons_of_nodup (h : ((loaded ++ m :: ms).map (·.version)).Nodup) (rest : List Migration) :
    addAll loaded (m :: rest) = addAll (insertBy version m loaded) rest :=
  addAll_cons_of_not_mem fun hmem =>
    version_not_mem_of_nodup h (List.map_append ▸ List.mem_append_left _ hmem)

/-- Scripts of new and different versions are all added. -/
theorem addAll_of_nodup : ∀ {ms loaded : List Migration}, ((loaded ++ ms).map (·.version)).Nodup →
    ∃ result, addAll loaded ms = .ok result ∧ result.Perm (loaded ++ ms)
  | [], loaded, _ => ⟨loaded, rfl, by rw [List.append_nil]⟩
  | m :: ms, loaded, h => by
    have hperm := perm_insertBy_append m loaded ms
    obtain ⟨result, hresult, hp⟩ := addAll_of_nodup ((hperm.map _).nodup_iff.2 h)
    rw [addAll_cons_of_nodup h]
    exact ⟨result, hresult, hp.trans hperm⟩

/-- Adding stops at the first script whose version is taken. -/
theorem addAll_of_taken : ∀ {before loaded : List Migration}, ((loaded ++ before).map (·.version)).Nodup →
    first ∈ loaded ++ before → first.version = second.version →
      addAll loaded (before ++ second :: after) = .error (.duplicateVersion second.version first.path second.path)
  | [], loaded, h, hfirst, hv => by
    rw [List.append_nil] at h hfirst
    have hfind : loaded.find? (·.version = second.version) = some first := (find?_key_eq_some h).2 ⟨hfirst, hv⟩
    rw [List.nil_append, addAll, hfind]
  | m :: before, loaded, h, hfirst, hv => by
    have hperm := perm_insertBy_append m loaded before
    rw [List.cons_append, addAll_cons_of_nodup h]
    exact addAll_of_taken ((hperm.map _).nodup_iff.2 h) (hperm.mem_iff.2 hfirst) hv

/-! ## Clashes -/

/-- `second` is the first script of the list whose version an earlier one has, and `first` is that earlier one. -/
def FirstClash (ms : List Migration) (first second : Migration) : Prop :=
  ∃ before after, ms = before ++ second :: after ∧ (before.map (·.version)).Nodup ∧ first ∈ before ∧
    first.version = second.version

/-- The versions of scripts are different, or there is a first clash. -/
theorem nodup_or_firstClash (ms : List Migration) :
    (ms.map (·.version)).Nodup ∨ ∃ first second, FirstClash ms first second := by
  induction ms using List.reverseRec with
  | nil => exact .inl List.nodup_nil
  | append_singleton ms m ih =>
    rcases ih with hnodup | ⟨first, second, before, after, rfl, hbefore, hfirst, hv⟩
    · by_cases hm : m.version ∈ ms.map (·.version)
      · obtain ⟨first, hfirst, hv⟩ := List.mem_map.1 hm
        exact .inr ⟨first, m, ms, [], rfl, hnodup, hfirst, hv⟩
      · left
        rw [List.map_append, List.map_singleton]
        exact List.nodup_append.2 ⟨hnodup, List.nodup_singleton _, fun v hv w hw heq =>
          hm (List.mem_singleton.1 hw ▸ heq ▸ hv)⟩
    · exact .inr ⟨first, second, before, after ++ [m], by simp, hbefore, hfirst, hv⟩

theorem FirstClash.version_eq (h : FirstClash ms first second) : first.version = second.version := by
  obtain ⟨_, _, _, _, _, hv⟩ := h
  exact hv

/-! ## Names -/

/-- Two names that are the same but for zeros in front of the first digit. -/
def SameUpToZeros (name name' : Text) : Prop :=
  ∃ k l c rest, Text.isDigit c = true ∧ name = List.replicate k '0' ++ c :: rest ∧
    name' = List.replicate l '0' ++ c :: rest

/-- Zeros in front of the version do not change what a name says. -/
theorem ofName?_zeros {c : Char} (hc : Text.isDigit c = true) (k : Nat) (rest : Text) :
    ofName? (List.replicate k '0' ++ c :: rest) = ofName? (c :: rest) := by
  have hzero : Text.isDigit '0' = true := rfl
  have hdrop : (List.replicate k '0' ++ c :: rest).dropWhile Text.isDigit = (c :: rest).dropWhile Text.isDigit := by
    rw [List.dropWhile_append_of_pos fun d hd => List.eq_of_mem_replicate hd ▸ hzero]
  have htake : (List.replicate k '0' ++ c :: rest).takeWhile Text.isDigit =
      List.replicate k '0' ++ (c :: rest).takeWhile Text.isDigit := by
    rw [List.takeWhile_append_of_pos fun d hd => List.eq_of_mem_replicate hd ▸ hzero]
  have hvalue : Text.decimal? maxVersion ((List.replicate k '0' ++ c :: rest).takeWhile Text.isDigit) =
      Text.decimal? maxVersion ((c :: rest).takeWhile Text.isDigit) := by
    rw [htake, List.takeWhile_cons_of_pos hc]
    simp [Text.decimal?, Text.natural?, Text.decimalValue_zeros, hzero]
  rw [ofName?, ofName?, hdrop, hvalue]

theorem SameUpToZeros.ofName?_eq {name name' : Text} (h : SameUpToZeros name name') : ofName? name = ofName? name' := by
  obtain ⟨k, l, c, rest, hc, rfl, rfl⟩ := h
  rw [ofName?_zeros hc, ofName?_zeros hc]

/-- Scripts with such names have the same version. -/
theorem version_eq_of_sameUpToZeros {root : Path} {names names' : List Text} {bytes bytes' : List UInt8}
    {m m' : Migration} (h : SameUpToZeros (names.getLastD []) (names'.getLastD []))
    (hm : ofFile? root names bytes = .ok (some m)) (hm' : ofFile? root names' bytes' = .ok (some m')) :
    m.version = m'.version := by
  unfold ofFile? at hm hm'
  rw [h.ofName?_eq] at hm
  cases hname : ofName? (names'.getLastD []) with
  | none =>
    simp only [hname] at hm
    cases hm
  | some read =>
    simp only [hname] at hm hm'
    split at hm
    · cases hm
    · split at hm'
      · cases hm'
      · cases hm
        cases hm'
        rfl

/-- Scripts are found in the order of their files. -/
theorem sublist_of_ofFiles {root : Path} {files files' : List (List Text × List UInt8)} (hs : files'.Sublist files) :
    ∀ {ms ms' : List Migration}, ofFiles root files = .ok ms → ofFiles root files' = .ok ms' → ms'.Sublist ms := by
  induction hs with
  | slnil =>
    intro ms ms' h h'
    cases h
    cases h'
    exact List.Sublist.slnil
  | cons file hs ih =>
    intro ms ms' h h'
    obtain ⟨found, _, h⟩ := exists_of_bind_eq_ok h
    cases found with
    | none => exact ih h h'
    | some m =>
      obtain ⟨rest, hrest, rfl⟩ := exists_of_map_eq_ok h
      exact (ih hrest h').cons m
  | cons_cons file hs ih =>
    intro ms ms' h h'
    obtain ⟨found, hfound, h⟩ := exists_of_bind_eq_ok h
    obtain ⟨found', hfound', h'⟩ := exists_of_bind_eq_ok h'
    rw [hfound] at hfound'
    cases hfound'
    cases found with
    | none => exact ih h h'
    | some m =>
      obtain ⟨rest, hrest, rfl⟩ := exists_of_map_eq_ok h
      obtain ⟨rest', hrest', rfl⟩ := exists_of_map_eq_ok h'
      exact (ih hrest hrest').cons_cons m

/-! ## The four outcomes -/

section

variable {d : Disk} {root : Path} {found : List Migration} {f : Filter}

/-- What loading makes of scripts that are found. -/
theorem load_of_discover (h : discover d root = .ok found) :
    load d root f = if found = [] then .error (.noMigrations root)
      else addAll [] (found.filter f.selects) >>= fun all => if all = [] then .error .noneSelected else .ok all := by
  rw [load, h]
  rfl

theorem load_of_discover_nil (h : discover d root = .ok []) : load d root f = .error (.noMigrations root) := by
  rw [load_of_discover h, if_pos rfl]

theorem load_of_filter_eq_nil (h : discover d root = .ok found) (hf : found ≠ []) (hs : found.filter f.selects = []) :
    load d root f = .error .noneSelected := by
  rw [load_of_discover h, if_neg hf, hs]
  rfl

theorem load_of_firstClash (h : discover d root = .ok found) (hs : FirstClash (found.filter f.selects) first second) :
    load d root f = .error (.duplicateVersion second.version first.path second.path) := by
  obtain ⟨before, after, heq, hbefore, hfirst, hv⟩ := hs
  have hf : found ≠ [] := by
    rintro rfl
    simp at heq
  have htaken : addAll [] (before ++ second :: after) = _ := addAll_of_taken hbefore hfirst hv
  rw [load_of_discover h, if_neg hf, heq, htaken]
  rfl

theorem load_of_nodup (h : discover d root = .ok found) (hne : found.filter f.selects ≠ [])
    (hs : ((found.filter f.selects).map (·.version)).Nodup) :
    ∃ ms, load d root f = .ok ms ∧ ms.Perm (found.filter f.selects) := by
  have hf : found ≠ [] := by
    rintro rfl
    exact hne rfl
  obtain ⟨ms, hms, hp⟩ : ∃ ms, addAll [] (found.filter f.selects) = .ok ms ∧ ms.Perm (found.filter f.selects) :=
    addAll_of_nodup hs
  refine ⟨ms, ?_, hp⟩
  rw [load_of_discover h, if_neg hf, hms]
  have hms : ms ≠ [] := by
    rintro rfl
    exact hne (List.nil_perm.1 hp)
  exact if_neg hms

/-- Loading ends in one of four ways. -/
theorem load_cases (h : discover d root = .ok found) (f : Filter) :
    (found = [] ∧ load d root f = .error (.noMigrations root)) ∨
    (found ≠ [] ∧ found.filter f.selects = [] ∧ load d root f = .error .noneSelected) ∨
    (∃ first second, FirstClash (found.filter f.selects) first second ∧
      load d root f = .error (.duplicateVersion second.version first.path second.path)) ∨
    (found.filter f.selects ≠ [] ∧ ((found.filter f.selects).map (·.version)).Nodup ∧
      ∃ ms, load d root f = .ok ms ∧ ms.Perm (found.filter f.selects)) := by
  by_cases hf : found = []
  · subst hf
    exact .inl ⟨rfl, load_of_discover_nil h⟩
  · by_cases hs : found.filter f.selects = []
    · exact .inr (.inl ⟨hf, hs, load_of_filter_eq_nil h hf hs⟩)
    · rcases nodup_or_firstClash (found.filter f.selects) with hnodup | ⟨first, second, hclash⟩
      · exact .inr (.inr (.inr ⟨hs, hnodup, load_of_nodup h hs hnodup⟩))
      · exact .inr (.inr (.inl ⟨first, second, hclash, load_of_firstClash h hclash⟩))

theorem load_eq_noMigrations (h : discover d root = .ok found) :
    load d root f = .error (.noMigrations root) ↔ found = [] := by
  constructor
  · intro hload
    rcases load_cases h f with ⟨hf, _⟩ | ⟨_, _, hr⟩ | ⟨_, _, _, hr⟩ | ⟨_, _, _, hr, _⟩
    · exact hf
    all_goals
      rw [hr] at hload
      cases hload
  · rintro rfl
    exact load_of_discover_nil h

theorem load_eq_noneSelected (h : discover d root = .ok found) :
    load d root f = .error .noneSelected ↔ found ≠ [] ∧ found.filter f.selects = [] := by
  constructor
  · intro hload
    rcases load_cases h f with ⟨_, hr⟩ | ⟨hf, hs, _⟩ | ⟨_, _, _, hr⟩ | ⟨_, _, _, hr, _⟩
    · rw [hr] at hload
      cases hload
    · exact ⟨hf, hs⟩
    all_goals
      rw [hr] at hload
      cases hload
  · exact fun ⟨hf, hs⟩ => load_of_filter_eq_nil h hf hs

theorem load_eq_duplicateVersion (h : discover d root = .ok found) {v : Int} {p q : Path} :
    load d root f = .error (.duplicateVersion v p q) ↔
      ∃ first second, FirstClash (found.filter f.selects) first second ∧
        v = second.version ∧ p = first.path ∧ q = second.path := by
  constructor
  · intro hload
    rcases load_cases h f with ⟨_, hr⟩ | ⟨_, _, hr⟩ | ⟨first, second, hclash, hr⟩ | ⟨_, _, _, hr, _⟩
    all_goals rw [hr] at hload
    · cases hload
    · cases hload
    · cases hload
      exact ⟨first, second, hclash, rfl, rfl, rfl⟩
    · cases hload
  · rintro ⟨first, second, hclash, rfl, rfl, rfl⟩
    exact load_of_firstClash h hclash

/-- Scripts in the strict order of their versions are determined by what they are a permutation of. -/
theorem eq_of_perm_of_pairwise {ms ms' : List Migration} (hp : ms.Perm ms')
    (h : ms.Pairwise (·.version < ·.version)) (h' : ms'.Pairwise (·.version < ·.version)) : ms = ms' :=
  hp.eq_of_pairwise (fun _ _ _ _ hmn hnm => absurd hmn (Int.lt_asymm hnm)) h h'

theorem load_eq_ok_iff (h : discover d root = .ok found) {ms : List Migration} :
    load d root f = .ok ms ↔ found.filter f.selects ≠ [] ∧ ((found.filter f.selects).map (·.version)).Nodup ∧
      ms.Perm (found.filter f.selects) ∧ ms.Pairwise (·.version < ·.version) := by
  constructor
  · intro hload
    rcases load_cases h f with ⟨_, hr⟩ | ⟨_, _, hr⟩ | ⟨_, _, _, hr⟩ | ⟨hne, hnodup, _, hr, hp⟩
    all_goals rw [hr] at hload
    · cases hload
    · cases hload
    · cases hload
    · cases hload
      exact ⟨hne, hnodup, hp, pairwise_load hr⟩
  · rintro ⟨hne, hnodup, hp, hsorted⟩
    obtain ⟨ms', hms', hp'⟩ := load_of_nodup h hne hnodup
    rw [hms', eq_of_perm_of_pairwise (hp.trans hp'.symm) hsorted (pairwise_load hms')]

/-- Two selected scripts of one version are enough for a clash. -/
theorem exists_duplicateVersion (h : discover d root = .ok found) {m n : Migration}
    (hs : [m, n].Sublist (found.filter f.selects)) (hv : m.version = n.version) :
    ∃ v p q, load d root f = .error (.duplicateVersion v p q) := by
  rcases nodup_or_firstClash (found.filter f.selects) with hnodup | ⟨first, second, hclash⟩
  · have hpair := (hs.map (·.version)).nodup hnodup
    rw [List.map_cons, List.map_singleton, hv] at hpair
    simp at hpair
  · exact ⟨_, _, _, load_of_firstClash h hclash⟩

theorem FirstClash.exists_sublist (h : FirstClash ms first second) : [first, second].Sublist ms := by
  obtain ⟨before, after, rfl, _, hfirst, _⟩ := h
  exact (List.singleton_sublist.2 hfirst).append (List.singleton_sublist.2 List.mem_cons_self)

end

/-- **How loading ends.** If a folder cannot be searched, that is the fault, whatever the filter. If it holds no scripts,
that is the fault. Else, if versions of selected scripts clash, the first clash is the fault; if no script is selected,
that is; and if the versions are different, the selected scripts are loaded, in the order of their versions. Files whose
names differ in zeros in front of the version clash. -/
theorem load_outcome (d : Disk) (root : Path) :
    (∀ fault, discover d root = .error fault → ∀ f, load d root f = .error (.unreadable fault)) ∧
    ∀ files found, d.filesUnder root = .ok files → discover d root = .ok found → ∀ f : Filter,
      let selected := found.filter f.selects
      (load d root f = .error (.noMigrations root) ↔ found = []) ∧
      (∀ v p q, load d root f = .error (.duplicateVersion v p q) ↔
        ∃ first second, FirstClash selected first second ∧
          v = second.version ∧ p = first.path ∧ q = second.path) ∧
      ((∃ v p q, load d root f = .error (.duplicateVersion v p q)) ↔
        ∃ m n, [m, n].Sublist selected ∧ m.version = n.version) ∧
      (load d root f = .error .noneSelected ↔ found ≠ [] ∧ selected = []) ∧
      (∀ ms, load d root f = .ok ms ↔ selected ≠ [] ∧ (selected.map (·.version)).Nodup ∧
        ms.Perm selected ∧ ms.Pairwise (·.version < ·.version)) ∧
      (selected ≠ [] → (selected.map (·.version)).Nodup → ∃ ms, load d root f = .ok ms) ∧
      (∀ names names' bytes bytes' m n, [(names, bytes), (names', bytes')].Sublist files →
        SameUpToZeros (names.getLastD []) (names'.getLastD []) →
        ofFile? root names bytes = .ok (some m) → ofFile? root names' bytes' = .ok (some n) →
        f.selects m = true → f.selects n = true →
          ∃ v p q, load d root f = .error (.duplicateVersion v p q)) := by
  refine ⟨fun fault h f => by rw [load, h]; rfl, ?_⟩
  intro files found hfiles hfound f selected
  refine ⟨load_eq_noMigrations hfound, fun v p q => load_eq_duplicateVersion hfound, ⟨?_, ?_⟩,
    load_eq_noneSelected hfound, fun ms => load_eq_ok_iff hfound, ?_, ?_⟩
  · rintro ⟨v, p, q, hload⟩
    obtain ⟨first, second, hclash, _⟩ := (load_eq_duplicateVersion hfound).1 hload
    exact ⟨first, second, hclash.exists_sublist, hclash.version_eq⟩
  · rintro ⟨m, n, hs, hv⟩
    exact exists_duplicateVersion hfound hs hv
  · intro hne hnodup
    obtain ⟨ms, hms, _⟩ := load_of_nodup hfound hne hnodup
    exact ⟨ms, hms⟩
  · intro names names' bytes bytes' m n hfs hnames hm hn hsm hsn
    have hpair : ofFiles root [(names, bytes), (names', bytes')] = .ok [m, n] := by
      simp only [ofFiles, hm, hn, bind, Except.bind]
      rfl
    have hmn : [m, n].Sublist found := sublist_of_ofFiles hfs (by rwa [discover, hfiles] at hfound) hpair
    have hsel := hmn.filter f.selects
    rw [List.filter_cons_of_pos hsm, List.filter_cons_of_pos hsn, List.filter_nil] at hsel
    exact exists_duplicateVersion hfound hsel (version_eq_of_sameUpToZeros hnames hm hn)

/-- A disk with a script, and one of the same version, written with zeros, in a folder for old scripts. -/
def crowdedDisk : Disk where
  root := .folder [(.of "migrations", .folder [
    (.of "1_make.sql", .file (Text.utf8 (.of "create table t (x int)"))),
    (.of "old", .folder [(.of "001_make.sql", .file (Text.utf8 (.of "select 1")))])])]

/-- The clash is reported, unless the filter drops one of the two. -/
theorem load_crowdedDisk :
    load crowdedDisk (.of "migrations") {} =
      .error (.duplicateVersion 1 (.of "migrations/1_make.sql") (.of "migrations/old/001_make.sql")) ∧
    load crowdedDisk (.of "migrations") { namespacePath := some (.of "old") } =
      .ok [⟨1, .of "make", .of "migrations/old/001_make.sql", .of "old", []⟩] := by
  have hfiles : ∃ files, crowdedDisk.filesUnder (.of "migrations") = .ok files := ⟨_, rfl⟩
  obtain ⟨files, hfiles⟩ := hfiles
  have hfound : discover crowdedDisk (.of "migrations") =
      .ok [⟨1, .of "make", .of "migrations/1_make.sql", [], []⟩,
        ⟨1, .of "make", .of "migrations/old/001_make.sql", .of "old", []⟩] := by
    rw [discover_of_find rfl]
    simp (disch := decide) only [FileTree.files, FileTree.entryFiles, List.mergeSort_of_pairwise]
    decide +kernel
  have outcome := (load_outcome crowdedDisk (.of "migrations")).2 files _ hfiles hfound
  constructor
  · obtain ⟨_, hclash, _⟩ := outcome {}
    exact (hclash 1 _ _).2 ⟨_, _, ⟨[_], [], rfl, by decide, List.mem_singleton_self _, rfl⟩, rfl, rfl, rfl⟩
  · obtain ⟨_, _, _, _, hok, _⟩ := outcome { namespacePath := some (.of "old") }
    exact (hok _).2 ⟨by decide, by decide, List.Perm.refl _, List.pairwise_singleton _ _⟩

end Migration

end BatchMigrate
