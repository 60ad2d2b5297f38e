import BatchMigrate.Config.Yaml
import BatchMigrate.Files.Tree

/-!
# Settings files

A settings file that names a relative folder of scripts means the folder seen from the file itself. Settings are checked
when they are loaded; they are saved as they are.
-/

namespace BatchMigrate.Config

/-- The settings with the folder of scripts seen from the file at `path`. -/
def resolve (path : Path) (c : Config) : Config :=
  if Path.isAbsolute c.scriptsDir then c
  else match Path.parent? path with
    | some folder => { c with scriptsDir := Path.join folder c.scriptsDir }
    | none => c

/-- The settings in the file at `path`. A folder can be opened but holds no settings. -/
def load (d : Disk) (path : Path) : Except LoadFault Config := do
  let c ← match d.find path with
    | .error fault => .error (.unreadable fault)
    | .ok (.folder _) => .error .badYaml
    | .ok (.file bytes) =>
      match (Text.ofUtf8 bytes).toOption.bind ofYaml? with
      | some c => .ok (c.resolve path)
      | none => .error .badYaml
  c.validate
  return c

/-- Writes the settings into the file at `path`, in place of what it held. -/
def save (c : Config) (d : Disk) (path : Path) : Except LoadFault Disk :=
  (d.write path c.toYaml.utf8).mapError .unreadable

end BatchMigrate.Config
