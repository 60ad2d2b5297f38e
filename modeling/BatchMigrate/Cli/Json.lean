import BatchMigrate.Text.Decimal
import BatchMigrate.Text.Hex

/-!
# JSON

Values of the data format JSON and their printed form, which gives each member of a list or an object a line of its
own and indents it by two blanks.
-/

namespace BatchMigrate

/-- A JSON value. -/
inductive Json
  | null
  | number (n : Int)
  | string (t : Text)
  | array (items : List Json)
  | object (fields : List (Text × Json))

namespace Json

/-- A text, or nothing. -/
def ofText? : Option Text → Json
  | some t => string t
  | none => null

/-! ## Strings -/

/-- A character inside a quoted string: quotes, backslashes and control characters are escaped. -/
def escape (c : Char) : Text :=
  if c = '"' then ['\\', '"']
  else if c = '\\' then ['\\', '\\']
  else if c = '\n' then ['\\', 'n']
  else if c = '\r' then ['\\', 'r']
  else if c = '\t' then ['\\', 't']
  else if c = '\x08' then ['\\', 'b']
  else if c = '\x0c' then ['\\', 'f']
  else if c.toNat < 0x20 then
    '\\' :: 'u' :: Text.hexDigits 4 c.toNat
  else [c]

/-- A text in quotes. -/
def quote (t : Text) : Text := '"' :: t.flatMap escape ++ ['"']

/-! ## Values -/

/-- The start of a line at some depth. -/
def newLine (depth : Nat) : Text := '\n' :: List.replicate (2 * depth) ' '

/-- Members between brackets, each on a line of its own; brackets that hold nothing stay on one line. -/
def enclose (first last : Char) (depth : Nat) (members : List Text) : Text :=
  match members with
  | [] => [first, last]
  | _ => first :: newLine (depth + 1) ++ Text.intercalate (',' :: newLine (depth + 1)) members ++ newLine depth ++ [last]

mutual

/-- The value as it is printed at some depth. -/
def renderAt (depth : Nat) : Json → Text
  | null => .of "null"
  | number n => .ofInt n
  | string t => quote t
  | array items => enclose '[' ']' depth (renderItems (depth + 1) items)
  | object fields => enclose '\x7b' '\x7d' depth (renderFields (depth + 1) fields)

/-- The items of a list as they are printed. -/
def renderItems (depth : Nat) : List Json → List Text
  | [] => []
  | item :: rest => renderAt depth item :: renderItems depth rest

/-- The fields of an object as they are printed. -/
def renderFields (depth : Nat) : List (Text × Json) → List Text
  | [] => []
  | (name, value) :: rest => (quote name ++ .of ": " ++ renderAt depth value) :: renderFields depth rest

end

/-- The value as it is printed. -/
def render (j : Json) : Text := renderAt 0 j

end Json

end BatchMigrate
