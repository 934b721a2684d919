import ArchiveOverlay.Bytes
import ArchiveOverlay.Text.Order

namespace ArchiveOverlay

/-- A place in the file system: the names from the root down. -/
abbrev Location := List String

/-- A file by itself, whatever its names are. -/
inductive FileId where
  | regular (number : Nat)
  /-- The special file that is always empty, whatever is written to it. -/
  | null
  deriving DecidableEq, Repr

/-- What can be at a place. -/
inductive Node where
  /-- A name of a file, which may have others. -/
  | file (id : FileId)
  | directory
  /-- A symbolic link with the path it stands for. -/
  | link (target : String)
  deriving DecidableEq, Repr

/-- Which changes are allowed at which places. Everything may be read. -/
structure Rights where
  /-- Something new may be put there. -/
  add : Location → Bool
  /-- The file there may be written. -/
  write : Location → Bool
  /-- What is there may be taken away. -/
  remove : Location → Bool

def Rights.all : Rights :=
  ⟨fun _ => true, fun _ => true, fun _ => true⟩

/-- A file system, seen from a working directory. The root is always there. -/
structure Disk where
  nodes : List (Location × Node)
  /-- What is in the files, those without a name included. -/
  contents : List (Nat × ByteArray) := []
  workingDirectory : Location := []
  rights : Rights := .all

namespace Disk

/-- A disk with nothing on it. -/
def blank : Disk :=
  { nodes := [] }

def node? (d : Disk) (place : Location) : Option Node :=
  if place = [] then some .directory else d.nodes.lookup place

def content (d : Disk) : FileId → ByteArray
  | .regular number => (d.contents.lookup number).getD .empty
  | .null => .empty

/-- What can be read from a node, if it is a file. -/
def nodeContent? (d : Disk) : Node → Option ByteArray
  | .file id => some (d.content id)
  | _ => none

def content? (d : Disk) (place : Location) : Option ByteArray :=
  (d.node? place).bind d.nodeContent?

/-- The same row but for one key, which now has the given value. -/
def assign {κ α : Type} [DecidableEq κ] (key : κ) (value : α) : List (κ × α) → List (κ × α)
  | [] => [(key, value)]
  | (other, old) :: rest =>
    if other = key then (key, value) :: rest else (other, old) :: assign key value rest

def put (d : Disk) (place : Location) (node : Node) : Disk :=
  { d with nodes := assign place node d.nodes }

def erase (d : Disk) (place : Location) : Disk :=
  { d with nodes := d.nodes.filter fun (other, _) => other ≠ place }

/-- Gives a file new content, which shows under all its names. -/
def write (d : Disk) (id : FileId) (content : ByteArray) : Disk :=
  match id with
  | .regular number => { d with contents := assign number content d.contents }
  | .null => d

/-- A number that no file has. -/
def freeNumber (d : Disk) : Nat :=
  let named := d.nodes.filterMap fun (_, node) =>
    match node with
    | .file (.regular number) => some number
    | _ => none
  (named ++ d.contents.map Prod.fst).foldr (fun number bound => max (number + 1) bound) 0

/-- Puts a new empty file at a place. -/
def putFile (d : Disk) (place : Location) : Disk :=
  (d.put place (.file (.regular d.freeNumber))).write (.regular d.freeNumber) .empty

/-- Takes away a place with everything below it. -/
def eraseTree (d : Disk) (place : Location) : Disk :=
  { d with nodes := d.nodes.filter fun (other, _) => !place.isPrefixOf other }

/-- Everything strictly below a place, with the names from there on. -/
def below (d : Disk) (place : Location) : List (Location × Node) :=
  d.nodes.filterMap fun (other, node) =>
    if place.isPrefixOf other && other ≠ place then some (other.drop place.length, node) else none

/-- Everything below a place under its relative path, ascending by path. -/
def tree (d : Disk) (place : Location) : List (String × Node) :=
  ((d.below place).map fun (names, node) => ("/".intercalate names, node)).mergeSort
    fun a b => !Text.before b.1 a.1

end Disk

end ArchiveOverlay
