import BatchMigrate.Proofs.Migration.Discovery
import BatchMigrate.Proofs.Text.Pieces

/-!
# Scripts in folders

A script lies in folders with names that hold no slash (`Migration.exists_folders_of_discover`), and a filter names folders
as well. The two are compared as texts, but it is their names that count (`Migration.inNamespace_folders`): a filter without
the folders below it selects the scripts that lie in just the folders that it names, and with them those whose folders begin
with these. So no folder is taken for one whose name only begins like its own.
-/

namespace BatchMigrate

/-! ## Names between slashes -/

namespace Text

/-- The names between the slashes of a text; the empty text has none. -/
def slashNames (t : Text) : List Text := if t = [] then [] else splitOn '/' t

/-- The names in the folder of a filter: what stands between its slashes, apart from those at its ends. -/
def folderNames (folder : Text) : List Text :=
  let inner := trimBy (· == '/') folder
  if inner = [] then [] else splitOn '/' inner

theorem folderNames_eq (folder : Text) : folderNames folder = slashNames (trimBy (· == '/') folder) := rfl

variable {s t : Text}

theorem slashNames_eq_nil : slashNames t = [] ↔ t = [] := by
  rw [slashNames]
  split
  · rename_i ht
    exact iff_of_true rfl ht
  · rename_i ht
    exact iff_of_false (List.splitOn_ne_nil '/' t) ht

/-- The names of a text are the first ones of another if it is empty, or the other, or the other goes on with a slash. -/
theorem slashNames_isPrefix : slashNames s <+: slashNames t ↔ s = [] ∨ t = s ∨ s ++ ['/'] <+: t := by
  by_cases hs : s = []
  · rw [slashNames_eq_nil.2 hs]
    exact iff_of_true (List.nil_prefix) (.inl hs)
  by_cases ht : t = []
  · rw [slashNames_eq_nil.2 ht, List.prefix_nil, slashNames_eq_nil, ht]
    simp [hs, Ne.symm hs]
  · rw [slashNames, slashNames, if_neg hs, if_neg ht, splitOn_isPrefix_splitOn, eq_comm (a := s)]
    simp only [hs, false_or]

theorem slashNames_inj : slashNames s = slashNames t ↔ s = t := by
  constructor
  · intro h
    by_cases hs : s = []
    · rw [slashNames_eq_nil.2 hs, eq_comm, slashNames_eq_nil] at h
      rw [hs, h]
    · have ht : t ≠ [] := fun ht => hs (slashNames_eq_nil.1 (h.trans (slashNames_eq_nil.2 ht)))
      rwa [slashNames, slashNames, if_neg hs, if_neg ht, splitOn_inj] at h
  · rintro rfl
    rfl

/-- Names without slashes, none of them empty, are found again in the text that they make with slashes. -/
theorem slashNames_intercalate {names : List Text} (h : ∀ name ∈ names, name ≠ [] ∧ '/' ∉ name) :
    slashNames (intercalate ['/'] names) = names := by
  cases names with
  | nil => rfl
  | cons first rest =>
    have hne : intercalate ['/'] (first :: rest) ≠ [] := by
      cases rest with
      | nil => exact List.intercalate_singleton ▸ (h first List.mem_cons_self).1
      | cons next rest => simp
    rw [slashNames, if_neg hne]
    exact List.splitOn_intercalate '/' (fun name hname => (h name hname).2) (List.cons_ne_nil first rest)

end Text

/-! ## Folders of scripts and of filters -/

namespace Migration

variable {d : Disk} {root : Path} {found : List Migration} {m : Migration} {folder : Text} {nested : Bool}

/-- Each script that is found lies in folders whose names make its namespace. -/
theorem exists_folders_of_discover (hd : d.root.legal = true) (h : discover d root = .ok found) (hm : m ∈ found) :
    ∃ folders : List Text, (∀ name ∈ folders, name ≠ [] ∧ '/' ∉ name) ∧
      m.namespacePath = Text.intercalate ['/'] folders := by
  obtain ⟨files, hfiles, h⟩ := exists_of_bind_eq_ok h
  obtain ⟨names, bytes, hmem, hfile⟩ := mem_of_mem_ofFiles h hm
  obtain ⟨_, _, hget, hnames⟩ := Disk.get?_of_mem_filesUnder hd hfiles hmem
  obtain ⟨folders, _, _, _, _, rfl, _, _, rfl⟩ := (ofFile?_eq_some_iff (ne_nil_of_mem_files hget) hget).1 hfile
  refine ⟨folders, fun name hname => ?_, rfl⟩
  obtain ⟨hne, _, _, hslash⟩ := Path.isName_iff.1 (hnames name (List.mem_append_left _ hname))
  exact ⟨hne, hslash⟩

theorem inNamespace_iff : m.inNamespace folder nested = true ↔
    m.namespacePath = Text.trimBy (· == '/') folder ∨ nested = true ∧
      (Text.trimBy (· == '/') folder = [] ∨ Text.trimBy (· == '/') folder ++ ['/'] <+: m.namespacePath) := by
  simp only [inNamespace, Bool.or_eq_true, Bool.and_eq_true, decide_eq_true_eq, List.isPrefixOf_iff_prefix]

/-- **The names of folders count.** A script in folders is in the folder of a filter if these are the ones that the filter
names, and in it or below it if the ones that the filter names come first among them. -/
theorem inNamespace_folders {folders : List Text} (hfolders : ∀ name ∈ folders, name ≠ [] ∧ '/' ∉ name)
    (hm : m.namespacePath = Text.intercalate ['/'] folders) (folder : Text) :
    (m.inNamespace folder false = true ↔ folders = Text.folderNames folder) ∧
      (m.inNamespace folder true = true ↔ Text.folderNames folder <+: folders) := by
  have hnames : folders = Text.slashNames m.namespacePath := by rw [hm, Text.slashNames_intercalate hfolders]
  rw [hnames, Text.folderNames_eq, Text.slashNames_inj, Text.slashNames_isPrefix, inNamespace_iff, inNamespace_iff]
  simp only [Bool.false_eq_true, false_and, or_false, true_and]
  exact or_left_comm

/-- Slashes at the ends of a filter mean nothing, while two slashes inside it have a name without characters between them,
and a name that only begins like another one is not the same. -/
theorem inNamespace_folders_billing :
    let m : Migration := ⟨3, .of "drop", .of "billing/v2/3_drop.sql", .of "billing/v2", []⟩
    m.inNamespace (.of "/billing/v2//") false = true ∧ m.inNamespace (.of "billing//v2") true = false ∧
      m.inNamespace (.of "//billing") true = true ∧ m.inNamespace (.of "bill") true = false ∧
      m.inNamespace (.of "/") true = true := by
  intro m
  have hfolders : ∀ name ∈ [Text.of "billing", Text.of "v2"], name ≠ [] ∧ '/' ∉ name := by decide
  have hin := fun folder => @inNamespace_folders m _ hfolders rfl folder
  have hnot : ∀ folder, ¬Text.folderNames folder <+: [Text.of "billing", Text.of "v2"] →
      m.inNamespace folder true = false := fun folder h => Bool.eq_false_iff.2 (h ∘ (hin folder).2.1)
  exact ⟨(hin _).1.2 (by decide), hnot _ (by decide), (hin _).2.2 (by decide), hnot _ (by decide), (hin _).2.2 (by decide)⟩

end Migration

end BatchMigrate
