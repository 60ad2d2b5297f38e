import BatchMigrate.Files.Path
import BatchMigrate.Text.Decimal

/-!
# Arguments

What a command line asks for. There are four commands, `split`, `list`, `migrate up` and `migrate status`, each with
options of its own. An option is written `--name value` or `--name=value` and a flag `--name`; after `--` every word is
an operand. Nothing may be given twice, and a value that looks like an option has to be attached with `=`.
-/

namespace BatchMigrate.Cli

/-- How a command prints its answer. -/
inductive Format
  | text
  | json
  deriving DecidableEq, Repr

/-- What to do. -/
inductive Command
  /-- Print the batches and the separator lines of a script, or of the standard input. -/
  | split (input : Option Path) (separator : Text) (stripComments : Bool) (format : Format)
  /-- Print the migrations that a settings file selects. -/
  | list (config : Path)
  /-- Apply the pending migrations, up to a version if one is given. -/
  | up (config db : Path) (target : Option Int)
  /-- Print the state of every migration. -/
  | status (config db : Path) (format : Format)
  deriving DecidableEq, Repr

/-- What a command line asks for. -/
inductive Request
  /-- A command, with or without a log of what it does. -/
  | run (command : Command)
  /-- A word on how to use the program. -/
  | help
  deriving DecidableEq, Repr

/-! ## Words -/

/-- What a word of the command line is by its looks. -/
inductive Word
  /-- The word `--`. -/
  | separator
  /-- A name after two dashes, and what is attached to it. -/
  | long (name : Text) (value : Option Text)
  /-- Letters after one dash. -/
  | short (letters : Text)
  | operand (t : Text)

/-- The text before the first `=` and the text after it. -/
def cutAtEquals (t : Text) : Text × Option Text :=
  match t.dropWhile (· != '=') with
  | _ :: value => (t.takeWhile (· != '='), some value)
  | [] => (t, none)

/-- What the word is. A single dash is an operand. -/
def Word.ofText : Text → Word
  | ['-', '-'] => separator
  | '-' :: '-' :: t => long (cutAtEquals t).1 (cutAtEquals t).2
  | '-' :: c :: t => short (c :: t)
  | t => operand t

/-- The word can be the value of the option before it. -/
def isValue (t : Text) : Bool :=
  match Word.ofText t with
  | .operand _ => true
  | _ => false

/-! ## The words of one command -/

/-- What a command line gives to one command. -/
inductive Given
  | flag (name : Text)
  | option (name value : Text)
  | operand (t : Text)
  /-- A command below this one, and the words after it. -/
  | command (name : Text) (rest : List Text)

/-- What a command accepts. -/
structure Accepts where
  flags : List Text := [.of "verbose", .of "help"]
  options : List Text := []
  /-- The largest number of operands. -/
  operands : Nat := 0
  /-- The first operand is the name of a command below this one. -/
  hasCommands : Bool := false

/-- The flags that letters stand for. -/
def lettersFlags : Text → Option (List Given)
  | [] => some []
  | 'v' :: rest => (.flag (.of "verbose") :: ·) <$> lettersFlags rest
  | 'h' :: rest => (.flag (.of "help") :: ·) <$> lettersFlags rest
  | _ => none

/-- What the words give to a command, or none if it does not accept them. -/
def Accepts.read (a : Accepts) : List Text → Option (List Given)
  | [] => some []
  | word :: rest =>
    match Word.ofText word, rest with
    | .separator, rest => some (rest.map .operand)
    | .short letters, rest => do return (← lettersFlags letters) ++ (← a.read rest)
    | .long name (some value), rest =>
      if name ∈ a.options then (.option name value :: ·) <$> a.read rest else none
    | .long name none, value :: rest' =>
      if name ∈ a.flags then (.flag name :: ·) <$> a.read (value :: rest')
      else if name ∈ a.options && isValue value then (.option name value :: ·) <$> a.read rest'
      else none
    | .long name none, [] => if name ∈ a.flags then some [.flag name] else none
    | .operand t, rest =>
      if a.hasCommands then some [.command t rest] else (.operand t :: ·) <$> a.read rest

/-- The name of what may be given once only. -/
def Given.name? : Given → Option Text
  | flag name => some name
  | option name _ => some name
  | _ => none

/-- The operand that is given. -/
def Given.operand? : Given → Option Text
  | operand t => some t
  | _ => none

/-- The value that is given to an option of that name. -/
def Given.value? (name : Text) : Given → Option Text
  | option n value => if n = name then some value else none
  | _ => none

/-- The words of one command, if it accepts them and nothing is given twice. -/
def Accepts.parse (a : Accepts) (words : List Text) : Option (List Given) := do
  let given ← a.read words
  if (given.filterMap (·.name?)).Nodup && (given.filterMap (·.operand?)).length ≤ a.operands then some given else none

/-- A flag of that name is given. -/
def hasFlag (name : String) (given : List Given) : Bool :=
  given.any fun
    | .flag n => n = .of name
    | _ => false

/-- The value of an option, if it is given. -/
def value? (name : String) (given : List Given) : Option Text := given.findSome? (·.value? (.of name))

/-! ## Values -/

/-- A path, which is not empty. -/
def path? (t : Text) : Option Path := if t = [] then none else some t

/-- A way to print. -/
def Format.ofText? (t : Text) : Option Format :=
  if t = .of "text" then some text else if t = .of "json" then some json else none

/-- The value of an option that may be left out; none if it is given and is not a value. -/
def valueWith {α : Type} (read : Text → Option α) (name : String) (given : List Given) : Option (Option α) :=
  match value? name given with
  | some t => some <$> read t
  | none => some none

/-- The format that is asked for. -/
def formatOf (given : List Given) : Option Format := (·.getD .text) <$> valueWith Format.ofText? "format" given

/-- The path that has to be given. -/
def pathOf (name : String) (given : List Given) : Option Path := value? name given >>= path?

/-! ## Commands -/

/-- A request for one command, unless its words ask for help. -/
def requestOf (a : Accepts) (words : List Text) (command : List Given → Option Command) : Option Request := do
  let given ← a.parse words
  if hasFlag "help" given then some .help else .run <$> command given

/-- The request of the words after `split`. -/
def splitRequest (words : List Text) : Option Request :=
  let accepts : Accepts := {
    flags := [.of "verbose", .of "help", .of "strip-comments"]
    options := [.of "separator", .of "format"]
    operands := 1 }
  requestOf accepts words fun given => do
    let input ← match given.findSome? (·.operand?) with
      | some t => some <$> path? t
      | none => some none
    return .split input ((value? "separator" given).getD (.of "GO")) (hasFlag "strip-comments" given)
      (← formatOf given)

/-- The request of the words after `list`. -/
def listRequest (words : List Text) : Option Request :=
  requestOf { options := [.of "config"] } words fun given => do return .list (← pathOf "config" given)

/-- The request of the words after `migrate up`. -/
def upRequest (words : List Text) : Option Request :=
  requestOf { options := [.of "config", .of "db", .of "to"] } words fun given => do
    return .up (← pathOf "config" given) (← pathOf "db" given) (← valueWith Text.int64? "to" given)

/-- The request of the words after `migrate status`. -/
def statusRequest (words : List Text) : Option Request :=
  requestOf { options := [.of "config", .of "db", .of "format"] } words fun given => do
    return .status (← pathOf "config" given) (← pathOf "db" given) (← formatOf given)

/-- The request of words that lead to one of several commands, each with the request of the words after its name. -/
def choose (commands : List (String × (List Text → Option Request))) (words : List Text) : Option Request := do
  let given ← Accepts.parse { hasCommands := true } words
  if hasFlag "help" given then some .help
  else given.findSome? fun
    | .command name rest =>
      if name = .of "help" then some .help
      else (commands.find? fun (n, _) => .of n = name) >>= fun (_, request) => request rest
    | _ => none

/-- What a command line asks for, or none if it makes no sense. -/
def Request.ofWords? (words : List Text) : Option Request :=
  choose [("split", splitRequest), ("list", listRequest),
    ("migrate", choose [("up", upRequest), ("status", statusRequest)])] words

end BatchMigrate.Cli
