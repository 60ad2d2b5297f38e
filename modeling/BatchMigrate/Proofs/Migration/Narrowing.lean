import BatchMigrate.Proofs.Migration.Folders
import BatchMigrate.Proofs.Migration.Outcome
import BatchMigrate.Proofs.Text.Fold

/-!
# Narrower filters

A filter is narrowed by requiring more tags, by naming a folder, by leaving out the folders below it, or by naming a folder
below it instead (`Filter.Narrows`). Each step selects only scripts that were selected before (`Filter.Narrows.selects`), and
so does any chain of them (`Filter.selects_of_narrowed`). As the narrower selection is a part of the wider one, it holds no
clash of versions if that has none: loading gives exactly those of the loaded scripts that the narrower filter selects, or
says that there are none (`Migration.load_narrowed`). Of the required tags only their set counts, in lower case.
-/

namespace BatchMigrate

/-! ## One step -/

namespace Filter

/-- The second filter is the first one, narrowed in one place. -/
inductive Narrows : Filter → Filter → Prop
  /-- More tags are required. -/
  | tags {f : Filter} {tags : List Text} (h : f.tags ⊆ tags) : Narrows f { f with tags }
  /-- A folder is named where none was. -/
  | folder {f : Filter} (h : f.namespacePath = none) (folder : Text) : Narrows f { f with namespacePath := some folder }
  /-- The folders below are left out. -/
  | flat (f : Filter) : Narrows f { f with nested := false }
  /-- With the folders below it, a folder below the named one is named instead. -/
  | below {f : Filter} {folder folder' : Text} (hnested : f.nested = true) (h : f.namespacePath = some folder)
      (hbelow : Text.folderNames folder <+: Text.folderNames folder') : Narrows f { f with namespacePath := some folder' }

end Filter

namespace Migration

variable {m : Migration} {folder folder' : Text} {nested : Bool} {tags tags' : List Text}

/-- A script in the folder itself is also found with the folders below. -/
theorem inNamespace_of_flat (nested : Bool) (h : m.inNamespace folder false = true) : m.inNamespace folder nested = true := by
  rcases inNamespace_iff.1 h with heq | ⟨hnested, _⟩
  · exact inNamespace_iff.2 (.inl heq)
  · cases hnested

/-- A script in a folder below is in one of the folders below. -/
theorem inNamespace_of_below (hbelow : Text.folderNames folder <+: Text.folderNames folder')
    (h : m.inNamespace folder' true = true) : m.inNamespace folder true = true := by
  rw [inNamespace_iff] at h ⊢
  rcases Text.slashNames_isPrefix.1 hbelow with hroot | heq | hstart
  · exact .inr ⟨rfl, .inl hroot⟩
  · rwa [heq] at h
  · rcases h with heq | ⟨_, hroot | hin⟩
    · exact .inr ⟨rfl, .inr (heq ▸ hstart)⟩
    · rw [hroot] at hstart
      exact absurd (List.prefix_nil.1 hstart) (List.append_ne_nil_of_right_ne_nil _ (List.cons_ne_nil _ _))
    · exact .inr ⟨rfl, .inr (hstart.trans ((List.prefix_append _ _).trans hin))⟩

theorem matchesTags_iff : m.matchesTags tags = true ↔
    m.tags = [] ∨ ∀ tag ∈ tags, ∃ own ∈ m.tags, Text.lowerAscii tag = Text.lowerAscii own := by
  simp only [matchesTags, Bool.or_eq_true, decide_eq_true_eq, List.all_eq_true, List.any_eq_true,
    Text.eqIgnoringAsciiCase_iff]

/-- A script that carries all of some tags carries those among them. -/
theorem matchesTags_of_subset (hsub : tags ⊆ tags') (h : m.matchesTags tags' = true) : m.matchesTags tags = true :=
  matchesTags_iff.2 ((matchesTags_iff.1 h).imp_right fun hall tag htag => hall tag (hsub htag))

end Migration

namespace Filter

variable {f g : Filter} {m : Migration}

theorem selects_iff : f.selects m = true ↔
    (∀ folder, f.namespacePath = some folder → m.inNamespace folder f.nested = true) ∧ m.matchesTags f.tags = true := by
  unfold selects
  cases f.namespacePath <;> simp

/-- **A step selects nothing new.** -/
theorem Narrows.selects (h : Narrows f g) (hm : g.selects m = true) : f.selects m = true := by
  obtain ⟨hfolder, htags⟩ := selects_iff.1 hm
  cases h with
  | tags hsub => exact selects_iff.2 ⟨hfolder, Migration.matchesTags_of_subset hsub htags⟩
  | folder hnone folder =>
    refine selects_iff.2 ⟨fun other hother => ?_, htags⟩
    rw [hnone] at hother
    cases hother
  | flat => exact selects_iff.2 ⟨fun folder hf => Migration.inNamespace_of_flat _ (hfolder folder hf), htags⟩
  | below hnested hf hbelow =>
    refine selects_iff.2 ⟨fun folder hother => ?_, htags⟩
    have hin := hfolder _ rfl
    rw [hf] at hother
    cases hother
    rw [hnested] at hin ⊢
    exact Migration.inNamespace_of_below hbelow hin

/-- **Nor do any number of steps.** -/
theorem selects_of_narrowed (h : Relation.ReflTransGen Narrows f g) (hm : g.selects m = true) : f.selects m = true := by
  induction h with
  | refl => exact hm
  | tail _ hstep ih => exact ih (hstep.selects hm)

end Filter

/-! ## Loading -/

namespace Migration

variable {d : Disk} {root : Path} {f g : Filter} {loaded : List Migration} {tags tags' : List Text}

/-- The script of a version. -/
def ofVersion? (v : Int) (ms : List Migration) : Option Migration := ms.find? (·.version = v)

/-- In the strict order of versions, a script is found by its version. -/
theorem ofVersion?_eq_some (h : loaded.Pairwise (·.version < ·.version)) {v : Int} {m : Migration} :
    ofVersion? v loaded = some m ↔ m ∈ loaded ∧ m.version = v :=
  find?_key_eq_some (List.pairwise_map.2 (h.imp Int.ne_of_lt))

/-- Loading with a filter that selects nothing new. -/
theorem load_of_selects (hload : load d root f = .ok loaded) (hsel : ∀ m, g.selects m = true → f.selects m = true) :
    load d root g = if loaded.filter g.selects = [] then .error .noneSelected else .ok (loaded.filter g.selects) := by
  obtain ⟨found, hfound, -⟩ := load_eq_ok hload
  obtain ⟨hne, hnodup, hperm, hsorted⟩ := (load_eq_ok_iff hfound).1 hload
  have hfilter : (found.filter f.selects).filter g.selects = found.filter g.selects := by
    rw [List.filter_filter]
    refine List.filter_congr fun m _ => ?_
    rw [Bool.and_eq_left_iff_imp]
    exact hsel m
  have hkept : (loaded.filter g.selects).Perm (found.filter g.selects) := hfilter ▸ hperm.filter g.selects
  split
  · rename_i hnone
    rw [hnone] at hkept
    refine load_of_filter_eq_nil hfound ?_ (List.nil_perm.1 hkept)
    rintro rfl
    exact hne rfl
  · rename_i hsome
    refine (load_eq_ok_iff hfound).2 ⟨fun hnil => hsome ?_, ?_, hkept, hsorted.filter _⟩
    · rw [hnil] at hkept
      exact List.perm_nil.1 hkept
    · rw [← hfilter]
      exact hnodup.sublist (List.filter_sublist.map _)

/-- Only the selection of a filter counts. -/
theorem load_congr (h : f.selects = g.selects) (d : Disk) (root : Path) : load d root f = load d root g := by
  simp only [load, h]

/-- The same tags are required, up to the case of ASCII letters, in any order and any number. -/
def SameTags (tags tags' : List Text) : Prop :=
  ∀ tag, tag ∈ tags.map Text.lowerAscii ↔ tag ∈ tags'.map Text.lowerAscii

theorem matchesTags_congr (h : SameTags tags tags') (m : Migration) : m.matchesTags tags = m.matchesTags tags' := by
  rw [Bool.eq_iff_iff, matchesTags_iff, matchesTags_iff]
  have hmap : ∀ tags : List Text, (∀ tag ∈ tags, ∃ own ∈ m.tags, Text.lowerAscii tag = Text.lowerAscii own) ↔
      ∀ lower ∈ tags.map Text.lowerAscii, ∃ own ∈ m.tags, lower = Text.lowerAscii own := by simp
  rw [hmap, hmap]
  simp only [h _]

/-- **Narrowing only takes away.** If scripts are loaded with a filter, a narrower one loads exactly those of them that it
selects, each version with the same script, or finds that it selects none; it meets no clash of versions and no folder
without scripts. The case, the order and the repetition of required tags make no difference. -/
theorem load_narrowed (d : Disk) (root : Path) (f : Filter) :
    (∀ loaded g, load d root f = .ok loaded → Relation.ReflTransGen Filter.Narrows f g →
      (load d root g = .error .noneSelected ∧ ∀ m ∈ loaded, g.selects m = false) ∨
      ∃ kept, load d root g = .ok kept ∧ (∀ m, m ∈ kept ↔ m ∈ loaded ∧ g.selects m = true) ∧
        ∀ v m, ofVersion? v kept = some m → ofVersion? v loaded = some m) ∧
    ∀ tags, SameTags f.tags tags → load d root { f with tags } = load d root f := by
  refine ⟨fun loaded g hload hnarrow => ?_, fun tags htags => ?_⟩
  · have hkept := load_of_selects hload fun m => Filter.selects_of_narrowed hnarrow
    split at hkept
    · rename_i hnone
      exact .inl ⟨hkept, fun m hm => by simpa using List.filter_eq_nil_iff.1 hnone m hm⟩
    · refine .inr ⟨_, hkept, fun m => List.mem_filter, fun v m hm => ?_⟩
      obtain ⟨hmem, hv⟩ := (ofVersion?_eq_some (pairwise_load hkept)).1 hm
      exact (ofVersion?_eq_some (pairwise_load hload)).2 ⟨List.mem_of_mem_filter hmem, hv⟩
  · refine load_congr (funext fun m => ?_) d root
    simp only [Filter.selects, matchesTags_congr htags m]

/-- A disk with scripts in a folder, in one below it, and in one whose name only begins like it. -/
def billingDisk : Disk where
  root := .folder [(.of "migrations", .folder [
    (.of "1_make.sql", .file (Text.utf8 (.of "select 1"))),
    (.of "billing", .folder [
      (.of "2_fill.sql", .file (Text.utf8 (.of "-- tags: EU, test\nselect 2"))),
      (.of "v2", .folder [
        (.of "3_drop.sql", .file (Text.utf8 (.of "-- tags: eu\nselect 3"))),
        (.of "4_drop.sql", .file (Text.utf8 (.of "-- tags: us\nselect 4")))])]),
    (.of "billing2", .folder [(.of "5_fill.sql", .file (Text.utf8 (.of "select 5")))])])]

/-- All the ways to narrow, one after the other. -/
theorem load_narrowed_billingDisk :
    let fill : Migration := ⟨2, .of "fill", .of "migrations/billing/2_fill.sql", .of "billing", [.of "EU", .of "test"]⟩
    let drop : Migration := ⟨3, .of "drop", .of "migrations/billing/v2/3_drop.sql", .of "billing/v2", [.of "eu"]⟩
    let wide : Filter := { namespacePath := some (.of "billing/"), tags := [.of "eu"] }
    let narrow : Filter := { namespacePath := some (.of "/billing/v2"), nested := false, tags := [.of "eu"] }
    load billingDisk (.of "migrations") wide = .ok [fill, drop] ∧ Relation.ReflTransGen Filter.Narrows {} narrow ∧
      Relation.ReflTransGen Filter.Narrows wide narrow ∧
      (∃ kept, load billingDisk (.of "migrations") narrow = .ok kept ∧ ∀ m, m ∈ kept ↔ m = drop) ∧
      load billingDisk (.of "migrations") { wide with tags := [.of "Eu", .of "eU"] } = .ok [fill, drop] := by
  intro fill drop wide narrow
  have hwide : load billingDisk (.of "migrations") wide = .ok [fill, drop] := by
    rw [load, discover_of_find rfl]
    simp (disch := decide) only [FileTree.files, FileTree.entryFiles, List.mergeSort_of_pairwise]
    decide +kernel
  have hfolder : Filter.Narrows {} { namespacePath := some (.of "billing/") } := .folder rfl _
  have htags : Filter.Narrows { namespacePath := some (.of "billing/") } wide := .tags (List.nil_subset _)
  have hbelow : Filter.Narrows wide { wide with namespacePath := some (.of "/billing/v2") } :=
    .below rfl rfl (by decide)
  have hchain : Relation.ReflTransGen Filter.Narrows wide narrow := .tail (.single hbelow) (.flat _)
  have hsame : SameTags wide.tags [.of "Eu", .of "eU"] := by
    have hlower : [Text.of "Eu", Text.of "eU"].map Text.lowerAscii = [Text.of "eu", Text.of "eu"] := by decide
    have hlower' : wide.tags.map Text.lowerAscii = [Text.of "eu"] := by decide
    intro tag
    rw [hlower, hlower']
    simp
  obtain ⟨hnarrowed, hcase⟩ := load_narrowed billingDisk (.of "migrations") wide
  refine ⟨hwide, .head hfolder (.head htags hchain), hchain, ?_, (hcase _ hsame).trans hwide⟩
  rcases hnarrowed _ narrow hwide hchain with ⟨_, hnone⟩ | ⟨kept, hkept, hmem, _⟩
  · exact absurd (hnone drop (by decide)) (by decide)
  · refine ⟨kept, hkept, fun m => (hmem m).trans ⟨?_, ?_⟩⟩
    · rintro ⟨hm, hselects⟩
      rcases List.mem_cons.1 hm with rfl | hm
      · exact absurd hselects (by decide)
      · exact List.mem_singleton.1 hm
    · rintro rfl
      exact ⟨by decide, by decide⟩

end Migration

end BatchMigrate
