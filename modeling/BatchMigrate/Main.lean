import BatchMigrate.Cli.Run
import Std.Time.Format

/-!
# The program

`main` shows a command the part of the file system that it may look at, as a value, and carries out its effects: it
prints, writes the file of the database back, and exits with the code of the outcome.
-/

namespace BatchMigrate.Program

open BatchMigrate.Cli

/-! ## What a command looks at -/

/-- The files that a command reads as they are. -/
def readPaths : Command → List Path
  | .split input _ _ _ => input.toList
  | .list config => [config]
  | .up config _ _ => [config]
  | .status config _ _ => [config]

/-- The settings file of a command. -/
def configPath? : Command → Option Path
  | .split _ _ _ _ => none
  | .list config => some config
  | .up config _ _ => some config
  | .status config _ _ => some config

/-- The database of a command. -/
def databasePath? : Command → Option Path
  | .split _ _ _ _ => none
  | .list _ => none
  | .up _ db _ => some db
  | .status _ db _ => some db

/-- A command without a file to read reads the standard input. -/
def readsInput : Command → Bool
  | .split none _ _ _ => true
  | _ => false

/-- The file of a database, by the names that lead to it from the root. -/
def databaseNames? (d : Disk) (command : Command) : Option (List Text) :=
  match databasePath? command >>= Sql.Storage.ofPath? d with
  | some (.file names) => some names
  | _ => none

/-- The spelling of names that start at the root. -/
def absolute (names : List Text) : Path := '/' :: Text.intercalate ['/'] names

/-- The names that a path leads along from the working folder. -/
def simplified (d : Disk) (p : Path) : List Text :=
  Sql.Storage.simplify (if p.isAbsolute then [] else d.working) (Text.splitOn '/' p)

/-- The paths to the folders on the way of a path, and the path itself. -/
def stations (p : Path) : List Path :=
  let pieces := Text.splitOn '/' p
  (List.range pieces.length).map fun n => Text.intercalate ['/'] (pieces.take (n + 1))

/-! ## The file system -/

/-- The thing at a path, as an entry of the working folder. -/
def entry (p : Path) : IO IO.FS.DirEntry := return { root := ← IO.currentDir, fileName := p.str }

/-- The bytes of a file. -/
def bytesOf (e : IO.FS.DirEntry) : IO (List UInt8) := return (← IO.FS.readBinFile e.path).toList

/-- The disk with the thing at a path, if there is one. What a folder holds is not shown. -/
def revealOne (d : Disk) (p : Path) : IO Disk := do
  let e ← entry p
  match d.locate p with
  | .error _ => return d
  | .ok names =>
    if (d.root.get? names).isSome || !(← e.path.pathExists) then return d
    else if ← e.path.isDir then return { d with root := d.root.put names .empty }
    else return { d with root := d.root.put names (.file (← bytesOf e)) }

/-- The disk with the things on the way of a path. -/
def reveal (d : Disk) (p : Path) : IO Disk := (stations p).foldlM revealOne d

/-- A file or a folder with all that it holds. -/
partial def snapshot (e : IO.FS.DirEntry) : IO FileTree := do
  if ← e.path.isDir then
    let entries ← e.path.readDir
    return .folder (← entries.toList.mapM fun inner => return (.of inner.fileName, ← snapshot inner))
  else return .file (← bytesOf e)

/-- The disk with the folder at a path and all that it holds. -/
def revealAll (d : Disk) (p : Path) : IO Disk := do
  let d ← reveal d p
  match d.locate p with
  | .ok names =>
    if (d.root.get? names).isSome then return { d with root := d.root.put names (← snapshot (← entry p)) } else return d
  | .error _ => return d

/-- The disk as far as a command looks at it. -/
def diskFor (command : Command) : IO Disk := do
  let working := (Text.splitOn '/' (Text.of (← IO.currentDir).toString)).filter (· ≠ [])
  let d : Disk := { root := FileTree.empty.put working .empty, working }
  let d ← (readPaths command).foldlM reveal d
  let d ← match (configPath? command).map (Config.load d) with
    | some (.ok c) => revealAll d c.scriptsDir
    | _ => pure d
  match databasePath? command with
  | some db => reveal d (absolute (simplified d db))
  | none => return d

/-- Writes the file of the database, if the command has changed it. -/
def store (command : Command) (before after : Disk) : IO Unit := do
  match databaseNames? before command with
  | some names =>
    match before.root.get? names, after.root.get? names with
    | some (.file old), some (.file new) =>
      if old ≠ new then IO.FS.writeBinFile (← entry (absolute names)).path ⟨new.toArray⟩
    | none, some (.file new) => IO.FS.writeBinFile (← entry (absolute names)).path ⟨new.toArray⟩
    | _, _ => return
  | none => return

/-! ## The run -/

/-- All that a stream holds. -/
partial def readAll (s : IO.FS.Stream) (read : ByteArray) : IO ByteArray := do
  let more ← s.read 65536
  if more.isEmpty then return read else readAll s (read ++ more)

/-- The time now. -/
def clock : IO Text := do
  let t := Std.Time.DateTime.ofTimestamp (← Std.Time.Timestamp.now) Std.Time.TimeZone.ZoneRules.UTC
  return .of (t.format "uuuu-MM-dd'T'HH:mm:ss.SSSSSSSSSxxx")

/-- Carries out a command line: its outcome. -/
def carryOut (words : List Text) : IO Outcome := do
  match Request.ofWords? words with
  | some (.run command) =>
    let d ← diskFor command
    let stdin ← if readsInput command then readAll (← IO.getStdin) .empty else pure .empty
    let (outcome, after) := Cli.run d stdin.toList (← clock) words
    store command d after
    return outcome
  | _ => return (Cli.run { root := .empty } [] [] words).1

end BatchMigrate.Program

/-- Runs the program. -/
def main (args : List String) : IO UInt32 := do
  let outcome ← BatchMigrate.Program.carryOut (args.map BatchMigrate.Text.of)
  (← IO.getStdout).putStr outcome.stdout.str
  (← IO.getStdout).flush
  (← IO.getStderr).putStr outcome.stderr.str
  return outcome.code.toUInt32
