import BatchMigrate.Text.Basic

/-!
# White space

The characters of the Unicode property `White_Space`. Trimming, blankness of a batch and the gaps of a separator line
all mean this set: it holds the no-break space and the line separators, but neither the zero width space nor the byte
order mark.
-/

namespace BatchMigrate.Text

/-- The first and the last character of each run of `White_Space`. -/
def spaceRanges : List (Nat × Nat) :=
  [(0x09, 0x0D), (0x20, 0x20), (0x85, 0x85), (0xA0, 0xA0), (0x1680, 0x1680), (0x2000, 0x200A), (0x2028, 0x2029),
   (0x202F, 0x202F), (0x205F, 0x205F), (0x3000, 0x3000)]

/-- A character of the Unicode property `White_Space`. -/
def isSpace (c : Char) : Bool := spaceRanges.any fun (first, last) => first ≤ c.toNat && c.toNat ≤ last

/-- The text without white space at its ends. -/
def trim (t : Text) : Text := trimBy isSpace t

/-- Text that holds nothing but white space. -/
def isBlank (t : Text) : Bool := t.all isSpace

end BatchMigrate.Text
