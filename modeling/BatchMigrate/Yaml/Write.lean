import BatchMigrate.Text.Hex
import BatchMigrate.Yaml.Char
import BatchMigrate.Yaml.Resolve

/-!
# Writing YAML

Values are written as block mappings, one entry on a line, with two more blanks for each level. A text has one of four
styles: plain if it reads back as itself, single-quoted if it would be taken for something else or has special
characters, double-quoted with escapes if it has characters that cannot be shown, and a literal block if it has line
feeds. Each style has its conditions, and a text that does not meet those of one style goes on to the next.
-/

namespace BatchMigrate.Yaml

/-! ## Styles -/

/-- How a text is written. -/
inductive Style
  | plain
  | singleQuoted
  | doubleQuoted
  | literal
  deriving DecidableEq, Repr

/-- Some character of the text satisfies `p`, and the next one satisfies `q`. -/
def hasPair (p q : Char → Bool) : Text → Bool
  | c :: d :: r => (p c && q d) || hasPair p q (d :: r)
  | _ => false

/-- A blank character before a line break. -/
def hasSpaceBreak (t : Text) : Bool := hasPair (· == ' ') isBreak t

/-- A line break before a blank. -/
def hasBreakSpace (t : Text) : Bool := hasPair isBreak (· == ' ') t

/-- The text holds a character that is only written as an escape. -/
def hasSpecial (t : Text) : Bool := !t.all isPrintable

/-- After its first character, given whether a gap is before this place, the text holds a colon before a gap or a hash
sign after one. -/
def hasInnerIndicator (afterGap : Bool) : Text → Bool
  | [] => false
  | c :: r => (c = ':' && atGap r) || (c = '#' && afterGap) || hasInnerIndicator (isBlank c || isBreak c) r

/-- The text could be taken for something other than a plain scalar. -/
def hasIndicator (t : Text) : Bool :=
  match t with
  | [] => false
  | c :: r =>
    (Text.of "---").isPrefixOf t || (Text.of "...").isPrefixOf t || c ∈ indicators ||
      (c ∈ ['?', ':', '-'] && atGap r) || hasInnerIndicator (isBlank c || isBreak c) r

/-- The text can be written without quotes. -/
def fitsPlain (t : Text) : Bool :=
  !(t.head?.any fun c => c = ' ' || isBreak c) && !(t.getLast?.any fun c => c = ' ' || isBreak c) &&
    !t.any isBreak && !hasSpecial t && !hasIndicator t

/-- The text can be written between single quotes. -/
def fitsSingle (t : Text) : Bool := !hasBreakSpace t && !hasSpaceBreak t && !hasSpecial t

/-- The text can be written as a literal block. -/
def fitsLiteral (t : Text) : Bool := t.getLast? ≠ some ' ' && !hasSpaceBreak t && !hasSpecial t

/-- The style of a text. -/
def Style.of (t : Text) : Style :=
  if '\n' ∈ t then if fitsLiteral t then .literal else .doubleQuoted
  else if !looksTyped t && fitsPlain t then .plain
  else if fitsSingle t then .singleQuoted
  else .doubleQuoted

/-! ## Scalars -/

/-- The hexadecimal digits of an escape, in capitals. -/
def escapeDigits (count n : Nat) : Text := (Text.hexDigits count n).map Char.toUpper

/-- The characters that have a letter of their own as escape, with that letter. -/
def escapeLetters : List (Char × Char) :=
  [('\x00', '0'), ('\x07', 'a'), ('\x08', 'b'), ('\t', 't'), ('\n', 'n'), ('\x0B', 'v'), ('\x0C', 'f'), ('\r', 'r'),
   ('\x1B', 'e'), ('\x22', '\x22'), ('\\', '\\'), ('\u0085', 'N'), ('\u2028', 'L'), ('\u2029', 'P')]

/-- A character between double quotes. -/
def escape (c : Char) : Text :=
  match escapeLetters.lookup c with
  | some letter => ['\\', letter]
  | none =>
    if isPrintable c then [c]
    else if c.toNat ≤ 0xFF then '\\' :: 'x' :: escapeDigits 2 c.toNat
    else if c.toNat ≤ 0xFFFF then '\\' :: 'u' :: escapeDigits 4 c.toNat
    else '\\' :: 'U' :: escapeDigits 8 c.toNat

/-- The given number of blanks. -/
def blanks (n : Nat) : Text := List.replicate n ' '

/-- The inside of a single-quoted text, whose lines after the first are indented; `atStart` at the start of such a
line. -/
def singleBody (indent : Nat) (atStart : Bool) : Text → Text
  | [] => if atStart then blanks indent else []
  | c :: r =>
    if isBreak c then c :: singleBody indent true r
    else
      (if atStart then blanks indent else []) ++ (if c = '\x27' then ['\x27', '\x27'] else [c]) ++
        singleBody indent false r

/-- What stands after the bar of a literal block: a digit if the first line does not show the indentation, and a sign if
the text does not end with exactly one line break after other text. -/
def literalHeader (t : Text) : Text :=
  (if t.head?.any fun c => c = ' ' || isBreak c then ['2'] else []) ++
    match t.reverse with
    | [] => ['-']
    | c :: r => if !isBreak c then ['-'] else if r = [] || r.head?.any isBreak then ['+'] else []

/-- The lines of a literal block; `atStart` at the start of a line. -/
def literalBody (indent : Nat) (atStart : Bool) : Text → Text
  | [] => if atStart then [] else ['\n']
  | c :: r =>
    if isBreak c then c :: literalBody indent true r
    else (if atStart then blanks indent else []) ++ c :: literalBody indent false r

/-- A text in its style, up to the end of its last line. Further lines are indented. -/
def writeText (indent : Nat) (t : Text) : Text :=
  match Style.of t with
  | .plain => t ++ ['\n']
  | .singleQuoted => '\x27' :: singleBody indent false t ++ ['\x27', '\n']
  | .doubleQuoted => '\x22' :: t.flatMap escape ++ ['\x22', '\n']
  | .literal => '|' :: literalHeader t ++ '\n' :: literalBody indent true t

/-! ## Values -/

/-- What an entry of a mapping may hold. -/
inductive Value
  | null
  | bool (b : Bool)
  | text (t : Text)
  | texts (items : List Text)
  | entries (l : List (Text × Value))

mutual

/-- A value after its key, up to the end of its last line. -/
def writeValue (indent : Nat) : Value → Text
  | .null => .of " null\n"
  | .bool b => .of (if b then " true\n" else " false\n")
  | .text t => ' ' :: writeText (indent + 2) t
  | .texts [] => .of " []\n"
  | .texts items => '\n' :: items.flatMap fun t => blanks indent ++ '-' :: ' ' :: writeText (indent + 2) t
  | .entries l => '\n' :: writeEntries (indent + 2) l

/-- The entries of a mapping. -/
def writeEntries (indent : Nat) : List (Text × Value) → Text
  | [] => []
  | (key, value) :: rest => blanks indent ++ key ++ ':' :: writeValue indent value ++ writeEntries indent rest

end

end BatchMigrate.Yaml
