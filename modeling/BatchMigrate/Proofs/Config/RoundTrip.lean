import BatchMigrate.Config.File
import BatchMigrate.Proofs.Files.Write
import BatchMigrate.Proofs.Text.Utf8
import BatchMigrate.Proofs.Yaml.Values

/-!
# Settings that were saved are loaded

Each setting is read back from the node of its value (`Config.ofNode?_entries`), an optional text as well, because a
text that spells null is not written plainly (`optionalText?_textNode`). Therefore settings are read back from the text
that they are written as (`Config.ofYaml?_toYaml`), and loaded from the file that they were saved in, if they can be
used at all and their folder of scripts is the same seen from that file (`Config.load_save`).
-/

namespace BatchMigrate

open Yaml

/-! ## Settings -/

namespace Yaml

/-- A text is not taken for nothing: if it spells null or is empty, it was not written plainly. -/
theorem optionalText?_textNode (t : Text) : (textNode t).optionalText? = some (some t) := by
  have hnull : ¬(decide (Style.of t = .plain) && (t = [] || isNull t)) = true := by
    simp only [Bool.and_eq_true, decide_eq_true_eq]
    rintro ⟨hplain, hnull⟩
    have htyped := (fits_of_plain hplain).2
    rw [looksTyped, hnull] at htyped
    cases htyped
  rw [textNode, Node.optionalText?, if_neg hnull]

theorem texts?_node : ∀ items : List Text, (Value.texts items).node.texts? = some items
  | [] => rfl
  | t :: items => by
    have ih := texts?_node items
    rw [Value.node, Node.texts?] at ih ⊢
    rw [List.map_cons, List.mapM_cons, ih]
    rfl

theorem bool?_node : ∀ b : Bool, (Value.bool b).node.bool? = some b
  | true => rfl
  | false => rfl

end Yaml

namespace Config

variable {c : Config} {d d' : Disk} {p : Path}

/-! ### Sections -/

/-- The namespace of a filter as a value. -/
def namespaceValue : Option Text → Value
  | some folder => .text folder
  | none => .null

/-- The splitter settings as entries of their section. -/
def splitterEntries (s : SplitterConfig) : List (Text × Value) :=
  [(.of "separator", .text s.separator), (.of "terminator", .text s.terminator),
   (.of "strip_comments", .bool s.stripComments)]

/-- The filter as entries of its section. -/
def filterEntries (f : Filter) : List (Text × Value) :=
  [(.of "namespace", namespaceValue f.namespacePath), (.of "nested", .bool f.nested), (.of "tags", .texts f.tags)]

theorem entries_eq (c : Config) : c.entries =
    [(.of "version", .text c.version), (.of "scripts_dir", .text c.scriptsDir),
     (.of "table_prefix", .text c.tablePrefix), (.of "splitter", .entries (splitterEntries c.splitter)),
     (.of "filter", .entries (filterEntries c.filter))] := rfl

theorem readable_namespaceValue : ∀ path : Option Text, (namespaceValue path).Readable
  | some _ => trivial
  | none => trivial

theorem allReadable_entries (c : Config) : AllReadable c.entries := by
  have hsplitter : AllReadable (splitterEntries c.splitter) :=
    ⟨by decide, trivial, by decide, trivial, by decide, trivial, trivial⟩
  have hfilter : AllReadable (filterEntries c.filter) :=
    ⟨by decide, readable_namespaceValue _, by decide, trivial, by decide, trivial, trivial⟩
  rw [entries_eq]
  exact ⟨by decide, trivial, by decide, trivial, by decide, trivial, by decide, ⟨List.cons_ne_nil _ _, hsplitter⟩,
    by decide, ⟨List.cons_ne_nil _ _, hfilter⟩, trivial⟩

theorem optionalText?_namespaceValue : ∀ path : Option Text, (namespaceValue path).node.optionalText? = some path
  | some folder => optionalText?_textNode folder
  | none => rfl

theorem ofNode?_splitterEntries (s : SplitterConfig) :
    SplitterConfig.ofNode? (.map (entryNodes (splitterEntries s))) = some s := by
  show ((Value.bool s.stripComments).node.bool?.bind fun stripComments =>
    some { separator := s.separator, terminator := s.terminator, stripComments }) = some s
  rw [bool?_node]
  rfl

theorem ofNode?_filterEntries (f : Filter) : Filter.ofNode? (.map (entryNodes (filterEntries f))) = some f := by
  show ((namespaceValue f.namespacePath).node.optionalText?.bind fun namespacePath =>
    (Value.bool f.nested).node.bool?.bind fun nested =>
      (Value.texts f.tags).node.texts?.bind fun tags => some { namespacePath, nested, tags }) = some f
  rw [optionalText?_namespaceValue, bool?_node, texts?_node]
  rfl

/-- Every setting is read back from the node of its value. -/
theorem ofNode?_entries (c : Config) : ofNode? (.map (entryNodes c.entries)) = some c := by
  show ((SplitterConfig.ofNode? (.map (entryNodes (splitterEntries c.splitter)))).bind fun splitter =>
    (Filter.ofNode? (.map (entryNodes (filterEntries c.filter)))).bind fun filter =>
      some { version := c.version, scriptsDir := c.scriptsDir, tablePrefix := c.tablePrefix, splitter, filter }) =
    some c
  rw [ofNode?_splitterEntries, ofNode?_filterEntries]
  rfl

/-- **Settings** are read back from the text that they are written as. -/
theorem ofYaml?_toYaml (c : Config) : ofYaml? c.toYaml = some c := by
  have hread := read?_writeEntries (l := c.entries) (List.cons_ne_nil _ _) (allReadable_entries c)
  rw [ofYaml?, toYaml, hread, Option.bind_eq_bind, Option.bind_some, ofNode?_entries]

/-! ## Files -/

/-- One piece has no pieces before its name. -/
theorem initPieces?_singleton (piece : Text) : ∀ init ∈ Path.initPieces? [piece], init = [] := by
  intro init hinit
  have hidle : Path.dropIdle [piece] = if (piece = [] || piece = ['.']) then [] else [piece] := by
    rw [Path.dropIdle, List.reverse_singleton, List.dropWhile_cons, List.dropWhile_nil, apply_ite List.reverse]
    rfl
  rw [Path.initPieces?, hidle] at hinit
  by_cases hpiece : (piece = [] || piece = ['.']) = true
  · rw [if_pos hpiece] at hinit
    cases hinit
  · rw [if_neg hpiece] at hinit
    cases hinit
    rfl

/-- A path without slashes names no folder from which other paths would be seen. -/
theorem parent?_of_not_mem (h : '/' ∉ p) : ∀ folder ∈ Path.parent? p, folder = [] := by
  intro folder hfolder
  rw [Path.parent?, List.splitOn_eq_singleton h] at hfolder
  split at hfolder
  · rename_i he
    obtain ⟨rfl, -⟩ := List.cons_eq_cons.1 he
    cases hfolder
  · rename_i he
    obtain ⟨-, rfl⟩ := List.cons_eq_cons.1 he
    cases hfolder
    rfl
  · obtain ⟨init, hinit, rfl⟩ := Option.map_eq_some_iff.1 hfolder
    rw [initPieces?_singleton p init hinit]
    rfl

theorem resolve_of_not_mem (h : '/' ∉ p) (c : Config) : c.resolve p = c := by
  rw [resolve]
  split
  · rfl
  · rename_i habs
    split
    · rename_i folder hfolder
      rw [parent?_of_not_mem h folder hfolder, Path.join, if_neg habs]
      rfl
    · rfl

/-- **Settings that were saved are loaded** from the same file, unchanged. -/
theorem load_save (hvalid : c.validate = .ok ()) (hpath : Path.isAbsolute c.scriptsDir = true ∨ '/' ∉ p)
    (hsave : c.save d p = .ok d') : load d' p = .ok c := by
  have hresolve : c.resolve p = c := by
    rcases hpath with habs | hp
    · rw [resolve, if_pos habs]
    · exact resolve_of_not_mem hp c
  have hfind := Disk.find_write (eq_ok_of_mapError_eq_ok hsave)
  have htext : Text.ofUtf8 c.toYaml.utf8 = .ok c.toYaml := Text.ofUtf8_eq_ok.2 rfl
  rw [load, hfind]
  simp only [htext, Except.toOption, Option.bind_some, ofYaml?_toYaml, hresolve]
  show (c.validate >>= fun _ => .ok c) = .ok c
  rw [hvalid]
  rfl

/-- Settings whose texts spell null, a truth value and numbers, are empty, begin or end with blanks, or hold quotes,
hash signs, colons, control characters and line breaks of every kind. -/
def lookalikes : Config where
  version := .of "null"
  scriptsDir := .of " it\x27s #1: \x22a\x22\\ "
  tablePrefix := .of "0x1F"
  splitter := { separator := .of "true", terminator := .of "\r\n\u0085\u2028", stripComments := true }
  filter :=
    { namespacePath := some [], nested := false
      tags :=
        [.of "~", .of "a\n b\n\n", .of "\n", .of "x\u2029y", .of "\x00\x7F\uFEFF", .of "- ---", .of "1e3", .of ": "] }

/-- Such settings are saved in a file that did not exist, and loaded as they are. -/
theorem load_save_lookalikes :
    lookalikes.save { root := .empty } ['r', 'u', 'n'] =
        .ok { root := .folder [(['r', 'u', 'n'], .file lookalikes.toYaml.utf8)] } ∧
      load { root := .folder [(['r', 'u', 'n'], .file lookalikes.toYaml.utf8)] } ['r', 'u', 'n'] = .ok lookalikes :=
  ⟨rfl, load_save rfl (.inr (by decide)) (d := { root := .empty }) rfl⟩

end Config

end BatchMigrate
