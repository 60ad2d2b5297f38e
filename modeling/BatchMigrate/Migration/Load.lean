import BatchMigrate.Migration.Basic
import BatchMigrate.Order

/-!
# Discovery and loading

`discover` finds every script under a folder, in the order of a walk. `load` keeps those that a filter selects and
orders them by version; it refuses two selected scripts of one version, and a selection that holds nothing.
-/

namespace BatchMigrate.Migration

/-! ## Discovery -/

/-- The script that a file under the root is, if it is one. -/
def ofFile? (root : Path) (names : List Text) (bytes : List UInt8) : Except ReadFault (Option Migration) :=
  match ofName? (names.getLastD []) with
  | none => .ok none
  | some (version, description) =>
    match Text.ofUtf8 bytes with
    | .error _ => .error .notText
    | .ok script => .ok (some {
        version
        description := description.map fun c => if c = '_' then ' ' else c
        path := names.foldl Path.join root
        namespacePath := Text.intercalate ['/'] names.dropLast
        tags := Tags.ofScript script })

/-- The scripts among files, up to the first one that does not hold text. -/
def ofFiles (root : Path) : List (List Text × List UInt8) → Except ReadFault (List Migration)
  | [] => .ok []
  | (names, bytes) :: rest => do
    match ← ofFile? root names bytes with
    | none => ofFiles root rest
    | some m => (m :: ·) <$> ofFiles root rest

/-- The scripts under a folder. -/
def discover (d : Disk) (root : Path) : Except ReadFault (List Migration) := do
  ofFiles root (← d.filesUnder root)

/-! ## Loading -/

/-- Adds scripts one by one to those that are loaded already, in the order of their versions. -/
def addAll : List Migration → List Migration → Except LoadFault (List Migration)
  | loaded, [] => .ok loaded
  | loaded, m :: rest =>
    match loaded.find? (·.version = m.version) with
    | some first => .error (.duplicateVersion m.version first.path m.path)
    | none => addAll (insertBy version m loaded) rest

/-- The scripts under a folder that a filter selects, in the order of their versions. -/
def load (d : Disk) (root : Path) (filter : Filter) : Except LoadFault (List Migration) := do
  let found ← (discover d root).mapError .unreadable
  if found = [] then .error (.noMigrations root)
  else
    let loaded ← addAll [] (found.filter filter.selects)
    if loaded = [] then .error .noneSelected else .ok loaded

end BatchMigrate.Migration
