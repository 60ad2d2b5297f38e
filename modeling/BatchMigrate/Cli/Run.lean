import BatchMigrate.Cli.Arguments
import BatchMigrate.Cli.Json
import BatchMigrate.Config.File
import BatchMigrate.Runner.Status
import BatchMigrate.Sql.Interpreter
import BatchMigrate.Sql.Storage

/-!
# Commands

What each command prints, as a function of the disk, the standard input, the time and the words of the command line. A
command that fails prints one line that begins with `error: ` to the error stream, after what it has printed before.
-/

namespace BatchMigrate.Cli

/-- What a command leaves behind. -/
structure Outcome where
  /-- The exit code: zero after success, one after a fault, and two for words that make no sense. -/
  code : Nat := 0
  stdout : Text := []
  stderr : Text := []
  deriving DecidableEq, Repr

/-- The outcome of a command that fails after it has printed something. -/
def Outcome.fail (message : String) (printed : Text := []) : Outcome :=
  { code := 1, stdout := printed, stderr := .of "error: " ++ .of message ++ ['\n'] }

/-- A fault in words, after what was being done. -/
def failing (doing : String) (message : String) : String := doing ++ ": " ++ message

/-- The same, where something was done to the thing that a text names. -/
def failingOn (doing : String) (name : Text) (message : String) : String :=
  failing (doing ++ " '" ++ name.str ++ "'") message

/-- What stands on several lines. -/
def unlines (lines : List Text) : Text := lines.flatMap (· ++ ['\n'])

/-! ## Splitting -/

/-- The event as data. -/
def eventJson : Event → Json
  | .batch sql => .object [(.of "kind", .string (.of "batch")), (.of "value", .string sql)]
  | .directive d => .object [(.of "kind", .string (.of "directive")), (.of "value",
      .object [(.of "token", .string d.token),
        (.of "count", match d.count with
          | some n => .number n
          | none => .null)])]

/-- The source of lines that an input is. A folder can be opened, but gives no line. -/
def inputSource (d : Disk) (stdin : List UInt8) : Option Path → Except String Source
  | none => .ok (ByteReader.source { chunks := [stdin] })
  | some path =>
    match d.find path with
    | .ok (.file bytes) => .ok (ByteReader.source { chunks := [bytes] })
    | .ok (.folder _) => .ok { answers := [.failed .isFolder] }
    | .error fault => .error (failingOn "Failed to open" path fault.message)

/-- Prints what a script is made of. Plain events are printed up to the first fault, data only if there is none. -/
def split (d : Disk) (stdin : List UInt8) (input : Option Path) (separator : Text) (stripComments : Bool)
    (format : Format) : Outcome :=
  match Splitter.ofTexts ['\n'] separator, inputSource d stdin input with
  | .error fault, _ => .fail (failingOn "Invalid separator" separator fault.message)
  | .ok _, .error message => .fail message
  | .ok splitter, .ok source =>
    match format, Splitter.delivered (splitter.items stripComments source) with
    | .text, (events, none) => { stdout := Event.renderAll events }
    | .text, (events, some fault) => .fail fault.message (Event.renderAll events)
    | .json, (events, none) => { stdout := unlines [(Json.array (events.map eventJson)).render] }
    | .json, (_, some fault) => .fail fault.message

/-! ## Listing -/

/-- The settings in a file. -/
def loadConfig (d : Disk) (path : Path) : Except String Config :=
  (Config.load d path).mapError fun fault => failingOn "Failed to load config" path fault.message

/-- The line of a migration: its version and description, and its namespace and tags if it has any. -/
def migrationLine (m : Migration) : Text :=
  List.leftpad 6 ' ' (Text.ofInt m.version) ++ Text.of "  " ++ m.description ++
    (if m.namespacePath = [] then [] else Text.of "  (" ++ m.namespacePath ++ [')']) ++
    (if m.tags = [] then [] else Text.of "  [" ++ Text.intercalate (Text.of ", ") m.tags ++ [']'])

/-- Prints the selected migrations. -/
def list (d : Disk) (config : Path) : Except String Text := do
  let c ← loadConfig d config
  let migrations ← (Migration.load d c.scriptsDir c.filter).mapError fun fault =>
    failing "Failed to load migrations" fault.message
  return unlines (migrations.map migrationLine)

/-! ## Migrating -/

/-- A runner for a settings file, and the place of its database. That the file of the database holds something else
shows only after the settings have been checked. -/
def openRunner (d : Disk) (config db : Path) : Except String (Sql.Storage × Except RunFault Runner) := do
  let c ← loadConfig d config
  match Sql.Storage.ofPath? d db with
  | none => .error (failingOn "Failed to open database" db ("unable to open database file: " ++ db.str))
  | some storage =>
    return (storage, do
      let loaded := storage.load d
      let runner ← Runner.connect c (loaded.toOption.getD {})
      let _ ← loaded.mapError RunFault.database
      return runner)

/-- What is printed after migrations have been applied. -/
def reportText (db : Path) (r : ApplyReport) : Text :=
  if r.applied = [] then unlines [.of "Database '" ++ db ++ .of "' is up to date."]
  else unlines ([.of "Migration up complete:"] ++ r.applied.map (fun v => .of "  Applied: " ++ .ofInt v) ++
    [.of "  Batches executed: " ++ .ofNat r.batchesExecuted])

/-- The line of a status. -/
def statusLine (s : MigrationStatus) : Text :=
  Text.of "  " ++ List.leftpad 6 ' ' (Text.ofInt s.version) ++ Text.of "  " ++ List.rightpad 8 ' ' s.state.label ++
    Text.of "  " ++ s.description

/-- The status as data. -/
def statusJson (s : MigrationStatus) : Json :=
  .object [(.of "version", .number s.version), (.of "description", .string s.description),
    (.of "state", .string s.state.label), (.of "applied_on", .ofText? s.appliedOn)]

/-- What is printed about the status of all migrations. -/
def statusText (statuses : List MigrationStatus) : Format → Text
  | .text => unlines (.of "Migration Status:" :: statuses.map statusLine)
  | .json => unlines [(Json.array (statuses.map statusJson)).render]

/-- Opens the database at a path, works on it, and puts it back whether the work succeeds or not. -/
def withRunner (d : Disk) (config db : Path) (work : Runner → Except String Text × Runner) :
    Except String Text × Disk :=
  match openRunner d config db with
  | .error message => (.error message, d)
  | .ok (storage, .error fault) =>
    (.error (failing "Failed to initialize runner" fault.message),
      match storage.load d with
      | .ok before => storage.save before d
      | .error _ => d)
  | .ok (storage, .ok runner) =>
    let (result, runner) := work runner
    (result, storage.save runner.db d)

/-- Applies the pending migrations, up to a version if one is given. -/
def up (d : Disk) (now : Text) (config db : Path) (target : Option Int) : Except String Text × Disk :=
  withRunner d config db fun runner =>
    let (result, runner) := match target with
      | some version => runner.upTo d now version
      | none => runner.up d now
    ((result.map (reportText db)).mapError fun fault => failing "Migration up failed" fault.message, runner)

/-- Prints the state of every migration. -/
def status (d : Disk) (config db : Path) (format : Format) : Except String Text × Disk :=
  withRunner d config db fun runner =>
    (((runner.status d).map (statusText · format)).mapError fun fault =>
      failing "Failed to get migration status" fault.message, runner)

/-! ## All commands -/

/-- How to use the program. -/
def usage : Text :=
  unlines [.of "Usage: sqlbatch [--verbose] COMMAND", [], .of "Commands:",
    .of "  split [--separator WORD] [--strip-comments] [--format text|json] [FILE]",
    .of "  list --config FILE",
    .of "  migrate up --config FILE --db FILE [--to VERSION]",
    .of "  migrate status --config FILE --db FILE [--format text|json]"]

/-- The outcome of a command that prints everything at its end. -/
def Outcome.ofResult : Except String Text → Outcome
  | .ok printed => { stdout := printed }
  | .error message => .fail message

/-- Carries out a command. -/
def Command.run (d : Disk) (stdin : List UInt8) (now : Text) : Command → Outcome × Disk
  | .split input separator stripComments format => (Cli.split d stdin input separator stripComments format, d)
  | .list config => (.ofResult (Cli.list d config), d)
  | .up config db target => Prod.map Outcome.ofResult id (Cli.up d now config db target)
  | .status config db format => Prod.map Outcome.ofResult id (Cli.status d config db format)

/-- Does what the words of a command line ask for. -/
def run (d : Disk) (stdin : List UInt8) (now : Text) (words : List Text) : Outcome × Disk :=
  match Request.ofWords? words with
  | some (.run command) => command.run d stdin now
  | some .help => ({ stdout := usage }, d)
  | none => ({ code := 2, stderr := usage }, d)

end BatchMigrate.Cli
