/-!
# Text

Scripts, keywords, names and settings are all text, and text is the list of its characters: every function of the
library that cuts, trims or joins text is a function on lists.
-/

namespace BatchMigrate

/-- Text, as the list of its characters. -/
abbrev Text := List Char

namespace Text

/-- The text of a string literal. -/
abbrev of (s : String) : Text := s.toList

/-- The text as a string, for messages. -/
abbrev str (t : Text) : String := String.ofList t

/-! ## Pieces -/

-- text is cut at a character and joined again as any other list is
export List (splitOn intercalate)

/-- The text without the characters that satisfy `p` at either end. -/
def trimBy (p : Char → Bool) (t : Text) : Text := ((t.dropWhile p).reverse.dropWhile p).reverse

/-! ## ASCII letters -/

/-- The text with its ASCII capitals replaced by small letters. -/
def lowerAscii (t : Text) : Text := t.map Char.toLower

/-- Two texts that differ at most in the case of ASCII letters. -/
def eqIgnoringAsciiCase (s t : Text) : Bool := lowerAscii s == lowerAscii t

/-- An ASCII letter, an ASCII digit or an underscore. -/
def isWordChar (c : Char) : Bool := c.isAlphanum || c == '_'

end Text

end BatchMigrate
