import BatchMigrate.Config.Basic
import BatchMigrate.Digest.Sha256
import BatchMigrate.Files.Tree
import BatchMigrate.Migration.Tags

/-!
# Migration scripts

A migration is a file named `<version>_<description>.sql`. Its namespace is the folder that it lies in, seen from the
root of the scripts.
-/

namespace BatchMigrate

/-- A migration script. -/
structure Migration where
  version : Int
  description : Text
  path : Path
  /-- The names of the folders between the root of the scripts and the script, with slashes between them. -/
  namespacePath : Text
  tags : List Text
  deriving DecidableEq, Repr

namespace Migration

/-! ## Names -/

/-- The largest version that a file name can give. -/
def maxVersion : Nat := 0x7FFFFFFFFFFFFFFF

/-- What stands before the extension of a script's name. -/
def stem? (name : Text) : Option Text :=
  (['l', 'q', 's', '.'].isPrefixOf? name.reverse).map List.reverse

/-- The version and the description in the name of a script: digits, an underscore, and one or more characters other
than a line feed before the extension. A name with a version of more than 63 bits is not the name of a script. -/
def ofName? (name : Text) : Option (Nat × Text) :=
  match name.dropWhile Text.isDigit with
  | '_' :: rest =>
    match stem? rest with
    | some description =>
      if description = [] || '\n' ∈ description then none
      else (Text.decimal? maxVersion (name.takeWhile Text.isDigit)).map fun version => (version, description)
    | none => none
  | _ => none

/-! ## Scripts on disk -/

/-- The text of the script. -/
def read (m : Migration) (d : Disk) : Except ReadFault Text := d.readText m.path

/-- The checksum of the bytes of the script. -/
def checksum (m : Migration) (d : Disk) : Except ReadFault Text := (d.read m.path).map Sha256.hexDigest

/-- The text of the script with the checksum of the very bytes that it was read from. -/
def readWithChecksum (m : Migration) (d : Disk) : Except ReadFault (Text × Text) := do
  let bytes ← d.read m.path
  match Text.ofUtf8 bytes with
  | .ok script => .ok (script, Sha256.hexDigest bytes)
  | .error fault => .error (.badBytes fault)

/-! ## Selection -/

/-- The script carries all the required tags, whatever the case of their ASCII letters. A script without tags fits any
request. -/
def matchesTags (m : Migration) (required : List Text) : Bool :=
  m.tags = [] || required.all fun tag => m.tags.any (Text.eqIgnoringAsciiCase tag)

/-- The script lies in the folder that the text names, or, if `nested` is set, below it. Slashes at the ends of the text
mean nothing. -/
def inNamespace (m : Migration) (folder : Text) (nested : Bool) : Bool :=
  let folder := Text.trimBy (· == '/') folder
  m.namespacePath = folder ||
    (nested && (folder = [] || (folder ++ ['/']).isPrefixOf m.namespacePath))

end Migration

/-- The filter selects the script. -/
def Filter.selects (f : Filter) (m : Migration) : Bool :=
  (match f.namespacePath with
    | some folder => m.inNamespace folder f.nested
    | none => true) && m.matchesTags f.tags

end BatchMigrate
