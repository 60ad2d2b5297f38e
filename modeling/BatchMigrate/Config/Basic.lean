import BatchMigrate.Files.Path
import BatchMigrate.Script.Split

/-!
# Settings

What a run needs to know: where the scripts are, how they are cut into batches, which of them are selected, and how the
table of applied versions is called. Every setting has a default, which a settings file may leave in place.
-/

namespace BatchMigrate

/-- How scripts are cut into batches. -/
structure SplitterConfig where
  /-- The separator keyword. -/
  separator : Text := ['G', 'O']
  /-- What is put back after each line that is kept. -/
  terminator : Text := ['\n']
  /-- Comments are left out of the batches. -/
  stripComments : Bool := false
  deriving DecidableEq, Repr

/-- Which scripts are selected. -/
structure Filter where
  /-- The folder below the root whose scripts are selected, or none for all folders. -/
  namespacePath : Option Text := none
  /-- Folders below that one are selected too. -/
  nested : Bool := true
  /-- The tags that a tagged script has to carry. -/
  tags : List Text := []
  deriving DecidableEq, Repr

/-- The settings of a run. -/
structure Config where
  /-- The version of the format of the settings. -/
  version : Text := ['1', '.', '0']
  /-- The folder that is searched for scripts. -/
  scriptsDir : Path := .of "migrations"
  /-- The start of the name of the version table. -/
  tablePrefix : Text := .of "sqlbatch_"
  splitter : SplitterConfig := {}
  filter : Filter := {}
  deriving DecidableEq, Repr

/-! ## Faults -/

/-- Why settings or scripts cannot be loaded. -/
inductive LoadFault
  /-- A file or a folder cannot be read or written. -/
  | unreadable (fault : ReadFault)
  /-- The settings file does not hold settings. -/
  | badYaml
  /-- No splitter can have these settings. -/
  | badSplitter (fault : SplitFault)
  /-- The name of the version table may not begin like this. -/
  | badTablePrefix (tablePrefix : Text)
  /-- The folder holds no scripts. -/
  | noMigrations (root : Path)
  /-- The filter selects none of the scripts. -/
  | noneSelected
  /-- Two selected scripts have the same version. -/
  | duplicateVersion (version : Int) (first second : Path)
  deriving DecidableEq, Repr

/-- The fault in words. -/
def LoadFault.message : LoadFault → String
  | .unreadable fault => "I/O error: " ++ fault.message
  | .badYaml => "YAML error: the file does not hold settings"
  | .badSplitter fault => "invalid config: " ++ fault.message
  | .badTablePrefix start =>
    "invalid config: table prefix '" ++ start.str ++ "' must contain only alphanumeric characters and underscores"
  | .noMigrations root => "no migrations found in " ++ root.str
  | .noneSelected => "no migrations match the configured namespace and tags"
  | .duplicateVersion version first second =>
    "duplicate migration version " ++ (Text.ofInt version).str ++ ": " ++ first.str ++ " and " ++ second.str

/-! ## Validation -/

/-- The splitter that the settings describe. -/
def SplitterConfig.splitter (c : SplitterConfig) : Except LoadFault Splitter :=
  (Splitter.ofTexts c.terminator c.separator).mapError .badSplitter

/-- A text that the name of a version table may begin with: one or more ASCII letters, digits and underscores. -/
def isTablePrefix (t : Text) : Bool := t ≠ [] && t.all Text.isWordChar

/-- The first fault of the settings, if there is one. -/
def Config.validate (c : Config) : Except LoadFault Unit := do
  let _ ← c.splitter.splitter
  if isTablePrefix c.tablePrefix then .ok () else .error (.badTablePrefix c.tablePrefix)

end BatchMigrate
