import BatchMigrate.Text.Basic

/-!
# Paths

A path is kept as it was spelled: joining and taking the parent work on the text, and nothing is normalized.
-/

namespace BatchMigrate

/-- A path as it is spelled. -/
abbrev Path := Text

namespace Path

/-- The path starts at the root of the file system. -/
def isAbsolute (p : Path) : Bool := p.head? == some '/'

/-- The path of `q` seen from `p`: an absolute `q` is itself, and one slash separates the two where `p` is not empty and
does not end with one. -/
def join (p q : Path) : Path :=
  if isAbsolute q then q
  else if p = [] || p.getLast? == some '/' then p ++ q
  else p ++ '/' :: q

/-- Pieces without those at the end that name nothing: empty ones and single dots. -/
def dropIdle (pieces : List Text) : List Text :=
  (pieces.reverse.dropWhile fun piece => piece = [] || piece = ['.']).reverse

/-- The pieces of a path that stand before its last name, or none for a path without a name. -/
def initPieces? (pieces : List Text) : Option (List Text) :=
  match (dropIdle pieces).reverse with
  | [] => none
  | _ :: rest => some (dropIdle rest.reverse)

/-- The path of the folder that holds the thing at `p`, if the spelling of `p` names one. -/
def parent? (p : Path) : Option Path :=
  match Text.splitOn '/' p with
  | [] :: rest => if isAbsolute p then (initPieces? rest).map fun init => '/' :: Text.intercalate ['/'] init else none
  | ['.'] :: rest =>
    match initPieces? rest with
    | some init => some (Text.intercalate ['/'] (['.'] :: init))
    | none => some []
  | pieces => (initPieces? pieces).map (Text.intercalate ['/'])

end Path

end BatchMigrate
