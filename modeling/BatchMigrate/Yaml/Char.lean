import BatchMigrate.Text.Basic

/-!
# Characters of YAML

The classes of characters that the reader and the writer of settings files go by: line breaks, blanks, the characters
that a file may hold, and those that are written as they are.
-/

namespace BatchMigrate.Yaml

/-- A character that ends a line. -/
def isBreak (c : Char) : Bool := c ∈ ['\n', '\r', '\u0085', '\u2028', '\u2029']

/-- A character that separates words on a line. -/
def isBlank (c : Char) : Bool := c = ' ' || c = '\t'

/-- A word may end before this text: it is empty, or begins with a blank or a line break. -/
def atGap : Text → Bool
  | [] => true
  | c :: _ => isBlank c || isBreak c

/-- The text with each line end written as one line feed. The separators of lines and paragraphs stay as they are. -/
def normalizeBreaks : Text → Text
  | [] => []
  | '\r' :: '\n' :: r => '\n' :: normalizeBreaks r
  | c :: r => (if c = '\r' || c = '\u0085' then '\n' else c) :: normalizeBreaks r

/-- At the start of a line, this text is a mark between documents. -/
def isMarker (t : Text) : Bool :=
  ((['-', '-', '-'].isPrefixOf t) || (['.', '.', '.'].isPrefixOf t)) && atGap (t.drop 3)

/-- A character that a file may hold. -/
def isAllowed (c : Char) : Bool :=
  let n := c.toNat
  n = 0x09 || n = 0x0A || n = 0x0D || n = 0x85 || (0x20 ≤ n && n ≤ 0x7E) || (0xA0 ≤ n && n ≤ 0xFFFD) || 0x10000 ≤ n

/-- A character that is written as it is. -/
def isPrintable (c : Char) : Bool :=
  let n := c.toNat
  n = 0x0A || (0x20 ≤ n && n ≤ 0x7E) || (0xA0 ≤ n && n ≤ 0xFFFD && n ≠ 0xFEFF) || 0x10000 ≤ n

/-- The characters that no plain scalar begins with. -/
def indicators : List Char :=
  ['#', ',', '[', ']', '\x7b', '\x7d', '&', '*', '!', '|', '>', '\x27', '\x22', '%', '@', '\x60']

end BatchMigrate.Yaml
