import BatchMigrate.Files.Fault
import BatchMigrate.Files.Path

/-!
# File trees

A file system as a value: folders of named things, and files of bytes. A path is looked up from a working folder, piece
by piece, so that `..` leads out of a folder only if the folder exists. `FileTree.files` lists the files under a folder
in the order in which a walk meets them: things of one folder by the bytes of their names, and what a folder holds where
the folder itself would stand.
-/

namespace BatchMigrate

/-- A file or a folder. -/
inductive FileTree
  | file (bytes : List UInt8)
  | folder (entries : List (Text × FileTree))

namespace FileTree

/-- A folder that holds nothing. -/
abbrev empty : FileTree := folder []

/-! ## Plain access by names -/

/-- The thing that the names lead to. -/
def get? : FileTree → List Text → Option FileTree
  | node, [] => some node
  | file _, _ :: _ => none
  | folder entries, name :: names => (entries.lookup name).bind (·.get? names)

/-- The entries with one of them put in place of the one of its name, or at the end. -/
def setEntry (name : Text) (node : FileTree) : List (Text × FileTree) → List (Text × FileTree)
  | [] => [(name, node)]
  | (n, old) :: rest => if n = name then (name, node) :: rest else (n, old) :: setEntry name node rest

/-- The tree with `new` where the names lead; folders are made on the way. -/
def put (node : FileTree) (names : List Text) (new : FileTree) : FileTree :=
  match names, node with
  | [], _ => new
  | name :: names, file _ => folder [(name, put empty names new)]
  | name :: names, folder entries => folder (setEntry name (put ((entries.lookup name).getD empty) names new) entries)

/-- The tree without the thing that the names lead to. -/
def remove (node : FileTree) (names : List Text) : FileTree :=
  match names, node with
  | name :: names, folder entries =>
    match names with
    | [] => folder (entries.filter fun (n, _) => n != name)
    | _ :: _ =>
      match entries.lookup name with
      | some inner => folder (setEntry name (remove inner names) entries)
      | none => node
  | _, _ => node

/-! ## Walks -/

/-- Names in the order of their bytes. -/
def nameLe (a b : Text) : Bool := !(b.utf8 < a.utf8)

mutual

/-- The files of a tree with the names that lead to them, in the order of a walk. -/
def files : FileTree → List (List Text × List UInt8)
  | file bytes => [([], bytes)]
  | folder entries =>
    ((entryFiles entries).mergeSort fun a b => nameLe a.1 b.1).flatMap fun (name, files) =>
      files.map fun (names, bytes) => (name :: names, bytes)

/-- For each entry of a folder, the files that it holds. -/
def entryFiles : List (Text × FileTree) → List (Text × List (List Text × List UInt8))
  | [] => []
  | (name, node) :: rest => (name, files node) :: entryFiles rest

end

end FileTree

/-! ## Access by paths -/

/-- A file system with a working folder, from which relative paths are looked up. -/
structure Disk where
  root : FileTree
  /-- The names that lead from the root to the working folder. -/
  working : List Text := []

namespace Disk

/-- Follows pieces of a path from the folder that `here` leads to. The last name need not exist. -/
def locateFrom (root : FileTree) (here : List Text) : List Text → Except ReadFault (List Text)
  | [] => .ok here
  | piece :: rest =>
    match root.get? here with
    | none => .error .notFound
    | some (.file _) => .error .notFolder
    | some (.folder _) =>
      if piece = [] || piece = ['.'] then locateFrom root here rest
      else if piece = ['.', '.'] then locateFrom root here.dropLast rest
      else locateFrom root (here ++ [piece]) rest

/-- The names that a path stands for; the thing itself may be missing, but the folder it would be in exists. -/
def locate (d : Disk) (p : Path) : Except ReadFault (List Text) :=
  if p = [] then .error .notFound
  else locateFrom d.root (if p.isAbsolute then [] else d.working) (Text.splitOn '/' p)

/-- The thing at a path. -/
def find (d : Disk) (p : Path) : Except ReadFault FileTree := do
  let names ← d.locate p
  match d.root.get? names with
  | some node => .ok node
  | none => .error .notFound

/-- The bytes of the file at a path. -/
def read (d : Disk) (p : Path) : Except ReadFault (List UInt8) := do
  match ← d.find p with
  | .file bytes => .ok bytes
  | .folder _ => .error .isFolder

/-- The text of the file at a path. -/
def readText (d : Disk) (p : Path) : Except ReadFault Text := do
  match Text.ofUtf8 (← d.read p) with
  | .ok text => .ok text
  | .error _ => .error .notText

/-- The files under the folder at a path, in the order of a walk. -/
def filesUnder (d : Disk) (p : Path) : Except ReadFault (List (List Text × List UInt8)) := do
  match ← d.find p with
  | .file _ => .error .notFolder
  | folder => .ok folder.files

/-- Makes or overwrites the file at a path, in a folder that exists. A path that ends with a slash names a folder. -/
def write (d : Disk) (p : Path) (bytes : List UInt8) : Except ReadFault Disk := do
  let bare := (p.reverse.dropWhile (· == '/')).reverse
  let names ← d.locate bare
  if bare ≠ p then .error .isFolder
  else match d.root.get? names with
    | some (.folder _) => .error .isFolder
    | _ => .ok { d with root := d.root.put names (.file bytes) }

end Disk

end BatchMigrate
