import BatchMigrate.Config.Basic
import BatchMigrate.Yaml.Read
import BatchMigrate.Yaml.Write

/-!
# Settings as YAML

`Config.toYaml` writes all settings, section by section. `Config.ofNode?` reads them back: settings that are missing
have their defaults, also inside a section that is there, and unknown ones are passed over.
-/

namespace BatchMigrate

open Yaml

/-! ## Writing -/

/-- The settings as entries of a mapping. -/
def Config.entries (c : Config) : List (Text × Value) :=
  [(.of "version", .text c.version), (.of "scripts_dir", .text c.scriptsDir), (.of "table_prefix", .text c.tablePrefix),
   (.of "splitter", .entries
     [(.of "separator", .text c.splitter.separator), (.of "terminator", .text c.splitter.terminator),
      (.of "strip_comments", .bool c.splitter.stripComments)]),
   (.of "filter", .entries
     [(.of "namespace", match c.filter.namespacePath with | some folder => .text folder | none => .null),
      (.of "nested", .bool c.filter.nested), (.of "tags", .texts c.filter.tags)])]

/-- The settings as text. -/
def Config.toYaml (c : Config) : Text := writeEntries 0 c.entries

/-! ## Reading -/

namespace Yaml.Node

/-- A scalar is read as its text, whatever it may spell. -/
def text? : Node → Option Text
  | scalar _ text => some text
  | _ => none

/-- A plain scalar that spells a truth value. -/
def bool? : Node → Option Bool
  | scalar true text => Yaml.bool? text
  | _ => none

/-- A scalar, or none if it is plain and spells null or nothing. -/
def optionalText? : Node → Option (Option Text)
  | scalar isPlain text => some (if isPlain && (text = [] || isNull text) then none else some text)
  | _ => none

/-- A sequence of scalars; nothing written is the empty sequence. -/
def texts? : Node → Option (List Text)
  | seq items => items.mapM text?
  | scalar true [] => some []
  | _ => none

/-- The entries of a mapping; nothing written is the empty mapping. -/
def entries? : Node → Option (List (Text × Node))
  | map entries => some entries
  | scalar true [] => some []
  | _ => none

end Yaml.Node

/-- The value of a setting among entries, or its default if it is missing. A setting may be there only once. -/
def setting {α : Type} (entries : List (Text × Node)) (key : String) (read : Node → Option α) (default : α) :
    Option α :=
  match entries.filter fun (k, _) => k = .of key with
  | [] => some default
  | [(_, node)] => read node
  | _ => none

/-- The splitter settings in a section. -/
def SplitterConfig.ofNode? (node : Node) : Option SplitterConfig := do
  let entries ← node.entries?
  let c : SplitterConfig := {}
  let separator ← setting entries "separator" Node.text? c.separator
  let terminator ← setting entries "terminator" Node.text? c.terminator
  let stripComments ← setting entries "strip_comments" Node.bool? c.stripComments
  return { separator, terminator, stripComments }

/-- The filter in a section. -/
def Filter.ofNode? (node : Node) : Option Filter := do
  let entries ← node.entries?
  let f : Filter := {}
  let namespacePath ← setting entries "namespace" Node.optionalText? f.namespacePath
  let nested ← setting entries "nested" Node.bool? f.nested
  let tags ← setting entries "tags" Node.texts? f.tags
  return { namespacePath, nested, tags }

/-- The settings in a document. -/
def Config.ofNode? (node : Node) : Option Config := do
  let entries ← node.entries?
  let c : Config := {}
  let version ← setting entries "version" Node.text? c.version
  let scriptsDir ← setting entries "scripts_dir" Node.text? c.scriptsDir
  let tablePrefix ← setting entries "table_prefix" Node.text? c.tablePrefix
  let splitter ← setting entries "splitter" SplitterConfig.ofNode? c.splitter
  let filter ← setting entries "filter" Filter.ofNode? c.filter
  return { version, scriptsDir, tablePrefix, splitter, filter }

/-- The settings in a text. -/
def Config.ofYaml? (t : Text) : Option Config := read? t >>= Config.ofNode?

end BatchMigrate
