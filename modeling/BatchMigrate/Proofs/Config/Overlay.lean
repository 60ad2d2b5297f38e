import Mathlib.Data.List.Perm.Subperm
import BatchMigrate.Proofs.Config.Reload
import BatchMigrate.Proofs.Config.Validate

/-!
# Settings files that leave settings out

A settings file may keep some of the settings only, in whatever order, and hold entries under unknown keys besides, written in
any way that is read as an entry (`Yaml.Excerpt`). What it keeps is read as it is, and what it leaves out has its default,
section by section (`Config.overlay`). Such settings can always be used if those can that the file was made from, because each
check looks at one setting (`Config.validate_overlay`). So they are loaded (`Config.load_excerpt`).
-/

namespace BatchMigrate

open Yaml

/-! ## Excerpts -/

namespace Yaml

variable {column : Nat} {all l : List (Entry column)} {e : Entry column}

/-- The keys of entries. -/
def keys (l : List (Entry column)) : List Text := l.map Entry.key

theorem mem_keys (he : e ∈ l) : e.key ∈ keys l := List.mem_map_of_mem he

/-- There is an entry with the key. -/
def keeps (l : List (Entry column)) (key : Text) : Bool := l.any fun e => e.key = key

theorem keeps_iff {key : Text} : keeps l key = true ↔ key ∈ keys l := by
  simp [keeps, keys]

/-- **An excerpt**: of the entries with known keys each stands at most once, as it is, and in any order, and entries with
other keys stand anywhere between them. -/
def Excerpt (all l : List (Entry column)) : Prop := (l.filter fun e => keeps all e.key).Subperm all

/-- Where no two entries have the same key, an entry is found by its key. -/
theorem filter_key : ∀ {all : List (Entry column)}, (keys all).Nodup → e ∈ all → (all.filter fun x => x.key = e.key) = [e]
  | x :: all, hall, he => by
    obtain ⟨hx, hall⟩ := List.nodup_cons.1 hall
    rcases List.mem_cons.1 he with rfl | he
    · have hnone : (all.filter fun x => x.key = e.key) = [] :=
        List.filter_eq_nil_iff.2 fun x hxmem hkey => hx (of_decide_eq_true hkey ▸ mem_keys hxmem)
      rw [List.filter_cons_of_pos (by simp), hnone]
    · have hkey : x.key ≠ e.key := fun hkey => hx (hkey ▸ mem_keys he)
      rw [List.filter_cons_of_neg (by simpa using hkey), filter_key hall he]

/-- The entries with a known key are the known entry, or none. -/
theorem Excerpt.filter_key (h : Excerpt all l) (hall : (keys all).Nodup) (he : e ∈ all) :
    (l.filter fun x => x.key = e.key) = if keeps l e.key then [e] else [] := by
  have hknown : ((l.filter fun x => keeps all x.key).filter fun x => x.key = e.key) = l.filter fun x => x.key = e.key := by
    rw [List.filter_filter]
    refine List.filter_congr fun x _ => ?_
    by_cases hkey : x.key = e.key
    · simp [hkey, keeps_iff.2 (mem_keys he)]
    · simp [hkey]
  have hsub := h.filter fun x => decide (x.key = e.key)
  rw [hknown, Yaml.filter_key hall he] at hsub
  by_cases hmem : keeps l e.key = true
  · obtain ⟨x, hx, hkey⟩ := List.mem_map.1 (keeps_iff.1 hmem)
    have hx : x ∈ l.filter fun x => x.key = e.key := List.mem_filter.2 ⟨hx, decide_eq_true hkey⟩
    obtain ⟨kept, hperm, hkept⟩ := hsub
    rcases List.sublist_singleton.1 hkept with rfl | rfl
    · rw [List.nil_perm.1 hperm] at hx
      cases hx
    · rw [if_pos hmem, List.singleton_perm.1 hperm]
  · rw [if_neg hmem, List.filter_eq_nil_iff]
    exact fun x hx hkey => hmem (keeps_iff.2 (of_decide_eq_true hkey ▸ mem_keys hx))

/-! ### Settings of an excerpt -/

section Settings

variable {α : Type} {entries : List (Text × Node)} {key : String} {read : Node → Option α} {value : α}

theorem setting_of_nil (h : (entries.filter fun p => p.1 = .of key) = []) (default : α) :
    setting entries key read default = some default := by
  unfold setting
  split
  · rfl
  · rename_i heq
    cases h.symm.trans heq
  · rename_i hnil _
    exact absurd h hnil

theorem setting_of_singleton {k : Text} {node : Node} (h : (entries.filter fun p => p.1 = .of key) = [(k, node)])
    (default : α) : setting entries key read default = read node := by
  unfold setting
  split
  · rename_i heq
    cases h.symm.trans heq
  · rename_i heq
    cases h.symm.trans heq
    rfl
  · rename_i hone
    exact absurd h (hone k node)

/-- **A setting** that an excerpt keeps is read as it is, and one that it leaves out has its default. -/
theorem Excerpt.setting_eq (h : Excerpt all l) (hall : (keys all).Nodup) (he : e ∈ all) (key : String)
    (hkey : e.key = .of key) (read : Node → Option α) (hread : read e.node = some value) (default : α) :
    setting (l.map Entry.pair) key read default = some (if keeps l (.of key) then value else default) := by
  have hfilter : ((l.map Entry.pair).filter fun p => p.1 = .of key) =
      (l.filter fun x => x.key = e.key).map Entry.pair := by
    rw [List.filter_map, hkey]
    rfl
  rw [h.filter_key hall he, hkey] at hfilter
  split_ifs at hfilter ⊢ with hmem
  · rw [setting_of_singleton hfilter, hread]
  · exact setting_of_nil hfilter default

theorem entries?_mappingNode (braces : Bool) (l : List (Entry column)) :
    (mappingNode braces l).entries? = some (l.map Entry.pair) := by
  match l, braces with
  | [], false => rfl
  | [], true => rfl
  | _ :: _, _ => rfl

end Settings

end Yaml

/-! ## Settings over their defaults -/

/-- The splitter settings under the keys that are kept, and the defaults of the others. -/
def SplitterConfig.overlay (c : SplitterConfig) (kept : Text → Bool) : SplitterConfig :=
  let d : SplitterConfig := {}
  { separator := if kept (.of "separator") then c.separator else d.separator
    terminator := if kept (.of "terminator") then c.terminator else d.terminator
    stripComments := if kept (.of "strip_comments") then c.stripComments else d.stripComments }

/-- The parts of a filter under the keys that are kept, and the defaults of the others. -/
def Filter.overlay (f : Filter) (kept : Text → Bool) : Filter :=
  let d : Filter := {}
  { namespacePath := if kept (.of "namespace") then f.namespacePath else d.namespacePath
    nested := if kept (.of "nested") then f.nested else d.nested
    tags := if kept (.of "tags") then f.tags else d.tags }

/-- **The settings under the keys that are kept**, and the defaults of the others. A section that is kept has defaults of its
own for the keys that it leaves out. -/
def Config.overlay (c : Config) (kept splitterKept filterKept : Text → Bool) : Config :=
  let d : Config := {}
  { version := if kept (.of "version") then c.version else d.version
    scriptsDir := if kept (.of "scripts_dir") then c.scriptsDir else d.scriptsDir
    tablePrefix := if kept (.of "table_prefix") then c.tablePrefix else d.tablePrefix
    splitter := if kept (.of "splitter") then c.splitter.overlay splitterKept else d.splitter
    filter := if kept (.of "filter") then c.filter.overlay filterKept else d.filter }

/-! ### Checks -/

namespace Config

variable {c : Config}

/-- Settings in place of which defaults are taken can still be used. -/
theorem validate_overlay (h : c.validate = .ok ()) (kept splitterKept filterKept : Text → Bool) :
    (c.overlay kept splitterKept filterKept).validate = .ok () := by
  obtain ⟨hterminator, hseparator, htable⟩ := validate_iff.1 h
  have hsplitter : (c.splitter.overlay splitterKept).terminator ≠ [] ∧
      ((c.splitter.overlay splitterKept).separator ≠ [] ∧
        (c.splitter.overlay splitterKept).separator.any Text.isSpace = false) := by
    constructor
    · rw [SplitterConfig.overlay]
      dsimp only
      split
      · exact hterminator
      · decide
    · rw [SplitterConfig.overlay]
      dsimp only
      split
      · exact hseparator
      · decide
  rw [validate_iff, ← and_assoc, overlay]
  dsimp only
  constructor
  · split
    · exact hsplitter
    · decide
  · split
    · exact htable
    · decide

end Config

/-! ## Entries -/

/-- The splitter settings as the entries of their section. -/
def SplitterConfig.parts (c : SplitterConfig) : List (Entry 2) :=
  [.ofValue (by decide : IsKey (.of "separator")) (.text c.separator) trivial,
   .ofValue (by decide : IsKey (.of "terminator")) (.text c.terminator) trivial,
   .ofValue (by decide : IsKey (.of "strip_comments")) (.bool c.stripComments) trivial]

/-- The filter as the entries of its section. -/
def Filter.parts (f : Filter) : List (Entry 2) :=
  [.ofValue (by decide : IsKey (.of "namespace")) (Config.namespaceValue f.namespacePath)
     (Config.readable_namespaceValue f.namespacePath),
   .ofValue (by decide : IsKey (.of "nested")) (.bool f.nested) trivial,
   .ofValue (by decide : IsKey (.of "tags")) (.texts f.tags) trivial]

/-- The settings as entries, with the entries that their sections hold; an empty section is written as nothing or as braces. -/
def Config.parts (c : Config) (splitterBraces : Bool) (splitterPart : List (Entry 2)) (filterBraces : Bool)
    (filterPart : List (Entry 2)) : List (Entry 0) :=
  [.ofValue (by decide : IsKey (.of "version")) (.text c.version) trivial,
   .ofValue (by decide : IsKey (.of "scripts_dir")) (.text c.scriptsDir) trivial,
   .ofValue (by decide : IsKey (.of "table_prefix")) (.text c.tablePrefix) trivial,
   .mapping (by decide : IsKey (.of "splitter")) splitterBraces splitterPart,
   .mapping (by decide : IsKey (.of "filter")) filterBraces filterPart]

/-- All settings as entries are written as a save writes them. -/
theorem Config.document_parts (c : Config) (braces splitterBraces filterBraces : Bool) :
    document braces (c.parts splitterBraces c.splitter.parts filterBraces c.filter.parts) = c.toYaml := by
  have hsplitter : entryLines c.splitter.parts = writeEntries 2 (splitterEntries c.splitter) :=
    entryLines_ofValue _ _ _ (entryLines_ofValue _ _ _ (entryLines_ofValue _ _ _ rfl))
  have hfilter : entryLines c.filter.parts = writeEntries 2 (filterEntries c.filter) :=
    entryLines_ofValue _ _ _ (entryLines_ofValue _ _ _ (entryLines_ofValue _ _ _ rfl))
  have hnil : entryLines ([] : List (Entry 0)) = writeEntries 0 [] := rfl
  have hsection := entryLines_mapping (by decide : IsKey (.of "filter")) filterBraces (List.cons_ne_nil _ _) hfilter hnil
  have hsections := entryLines_mapping (by decide : IsKey (.of "splitter")) splitterBraces (List.cons_ne_nil _ _)
    hsplitter hsection
  rw [toYaml, entries_eq]
  exact entryLines_ofValue _ _ _ (entryLines_ofValue _ _ _ (entryLines_ofValue _ _ _ hsections))

section Reading

variable {part : List (Entry 2)}

/-- **A splitter section** keeps what it holds and has defaults for the rest. -/
theorem SplitterConfig.ofNode?_excerpt {c : SplitterConfig} (h : Excerpt c.parts part) (braces : Bool) :
    ofNode? (mappingNode braces part) = some (c.overlay (keeps part)) := by
  have hkeys : (keys c.parts).Nodup :=
    show [Text.of "separator", .of "terminator", .of "strip_comments"].Nodup by decide
  have hseparator := h.setting_eq hkeys (.head _) "separator" rfl Node.text? rfl
  have hterminator := h.setting_eq hkeys (.tail _ (.head _)) "terminator" rfl Node.text? rfl
  have hstrip := h.setting_eq hkeys (.tail _ (.tail _ (.head _))) "strip_comments" rfl Node.bool?
    (bool?_node c.stripComments)
  rw [ofNode?, entries?_mappingNode, Option.bind_eq_bind, Option.bind_some]
  dsimp only
  rw [hseparator, hterminator, hstrip]
  rfl

/-- **A filter section** keeps what it holds and has defaults for the rest. -/
theorem Filter.ofNode?_excerpt {f : Filter} (h : Excerpt f.parts part) (braces : Bool) :
    ofNode? (mappingNode braces part) = some (f.overlay (keeps part)) := by
  have hkeys : (keys f.parts).Nodup := show [Text.of "namespace", .of "nested", .of "tags"].Nodup by decide
  have hnamespace := h.setting_eq hkeys (.head _) "namespace" rfl Node.optionalText?
    (Config.optionalText?_namespaceValue f.namespacePath)
  have hnested := h.setting_eq hkeys (.tail _ (.head _)) "nested" rfl Node.bool? (bool?_node f.nested)
  have htags := h.setting_eq hkeys (.tail _ (.tail _ (.head _))) "tags" rfl Node.texts? (texts?_node f.tags)
  rw [ofNode?, entries?_mappingNode, Option.bind_eq_bind, Option.bind_some]
  dsimp only
  rw [hnamespace, hnested, htags]
  rfl

end Reading

namespace Config

variable {c : Config} {splitterPart filterPart : List (Entry 2)} {part : List (Entry 0)} {splitterBraces filterBraces : Bool}
  {d : Disk} {p : Path}

/-- **A document** keeps what it holds, section by section, and has defaults for the rest. -/
theorem ofNode?_excerpt (hsplitter : Excerpt c.splitter.parts splitterPart) (hfilter : Excerpt c.filter.parts filterPart)
    (h : Excerpt (c.parts splitterBraces splitterPart filterBraces filterPart) part) (braces : Bool) :
    ofNode? (mappingNode braces part) = some (c.overlay (keeps part) (keeps splitterPart) (keeps filterPart)) := by
  have hkeys : (keys (c.parts splitterBraces splitterPart filterBraces filterPart)).Nodup :=
    show [Text.of "version", .of "scripts_dir", .of "table_prefix", .of "splitter", .of "filter"].Nodup by decide
  have hversion := h.setting_eq hkeys (.head _) "version" rfl Node.text? rfl
  have hscripts := h.setting_eq hkeys (.tail _ (.head _)) "scripts_dir" rfl Node.text? rfl
  have htable := h.setting_eq hkeys (.tail _ (.tail _ (.head _))) "table_prefix" rfl Node.text? rfl
  have hsplitter := h.setting_eq hkeys (.tail _ (.tail _ (.tail _ (.head _)))) "splitter" rfl SplitterConfig.ofNode?
    (SplitterConfig.ofNode?_excerpt hsplitter splitterBraces)
  have hfilter := h.setting_eq hkeys (.tail _ (.tail _ (.tail _ (.tail _ (.head _))))) "filter" rfl Filter.ofNode?
    (Filter.ofNode?_excerpt hfilter filterBraces)
  rw [ofNode?, entries?_mappingNode, Option.bind_eq_bind, Option.bind_some]
  dsimp only
  rw [hversion, hscripts, htable, hsplitter, hfilter]
  rfl

/-- **Partial settings overlay the defaults.** Let settings be made from which some are kept, at the top and in each section,
in any order and with unknown keys anywhere between them. From a path without folders, a document with just these entries is
loaded as the settings that were kept, with the defaults of all others. A section that is not kept has defaults only, whatever
was kept of it. -/
theorem load_excerpt (hvalid : c.validate = .ok ()) (hsplitter : Excerpt c.splitter.parts splitterPart)
    (hfilter : Excerpt c.filter.parts filterPart)
    (h : Excerpt (c.parts splitterBraces splitterPart filterBraces filterPart) part) (braces : Bool) (hp : '/' ∉ p)
    (hfind : d.find p = .ok (.file (document braces part).utf8)) :
    load d p = .ok (c.overlay (keeps part) (keeps splitterPart) (keeps filterPart)) := by
  have hread : ofYaml? (document braces part) = some (c.overlay (keeps part) (keeps splitterPart) (keeps filterPart)) := by
    rw [ofYaml?, read?_document, Option.bind_eq_bind, Option.bind_some, ofNode?_excerpt hsplitter hfilter h]
  have hresolve := resolve_of_not_mem hp (c.overlay (keeps part) (keeps splitterPart) (keeps filterPart))
  have hload := load_of_read hfind hread (by rw [hresolve, validate_overlay hvalid])
  rwa [hresolve] at hload

/-- One part of a filter, after a number under a key that no filter has. -/
def sparseFilter : List (Entry 2) :=
  [.ofPlain (by decide : IsKey (.of "limit")) '3' [] rfl,
   .ofValue (by decide : IsKey (.of "tags")) (.texts lookalikes.filter.tags) trivial]

/-- A few settings in another order, with nothing in the section of the splitter, and with a key of a filter outside of it. -/
def sparse : List (Entry 0) :=
  [.mapping (by decide : IsKey (.of "filter")) false sparseFilter,
   .ofPlain (by decide : IsKey (.of "nested")) 'n' ['o'] rfl,
   .mapping (by decide : IsKey (.of "splitter")) true [],
   .ofValue (by decide : IsKey (.of "version")) (.text lookalikes.version) trivial]

theorem load_excerpt_sparse :
    lookalikes.validate = .ok () ∧
      Excerpt lookalikes.filter.parts sparseFilter ∧ Excerpt (lookalikes.parts true [] false sparseFilter) sparse ∧
      load { root := .folder [(['r', 'u', 'n'], .file (document false sparse).utf8)] } ['r', 'u', 'n'] =
        .ok { version := .of "null", filter := { tags := lookalikes.filter.tags } } := by
  have hsplitter : Excerpt lookalikes.splitter.parts [] := List.nil_subperm
  have hfilter : Excerpt lookalikes.filter.parts sparseFilter :=
    List.singleton_subperm_iff.2 (.tail _ (.tail _ (.head _)))
  have h : Excerpt (lookalikes.parts true [] false sparseFilter) sparse :=
    ⟨_, List.reverse_perm _, .cons_cons _ (.cons _ (.cons _ (.cons_cons _ (.cons_cons _ .slnil))))⟩
  exact ⟨rfl, hfilter, h, load_excerpt rfl hsplitter hfilter h false (by decide) rfl⟩

end Config

end BatchMigrate
