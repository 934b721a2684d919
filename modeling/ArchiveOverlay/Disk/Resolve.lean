import ArchiveOverlay.Disk.Basic
import ArchiveOverlay.Disk.HostPath
import ArchiveOverlay.Error

namespace ArchiveOverlay

/-- Where a path leads: a place, and what is there. -/
structure Spot where
  location : Location
  node? : Option Node

namespace Disk

/-- The longest name that a directory can hold, in bytes. -/
def maxNameSize : Nat :=
  255

/-- A path has to be shorter than this, in bytes. -/
def pathLimit : Nat :=
  4096

/-- How many links are followed on the way to one place. -/
def maxLinks : Nat :=
  40

def pathPieces (path : String) : List String :=
  (HostPath.pieces path.toList).map String.ofList

/-- Follows the pieces of a path from a directory on. Only the last piece may name nothing, and a
link in its place is followed if `followLast` says so. -/
def follow (d : Disk) (followLast : Bool) (links : Nat) (here : Location) :
    List String → Except IoFault Spot
  | [] => .ok ⟨here, d.node? here⟩
  | piece :: rest =>
    if piece = "" ∨ piece = "." then follow d followLast links here rest
    else if piece = ".." then follow d followLast links here.dropLast rest
    else if piece.utf8ByteSize > maxNameSize then .error .nameTooLong
    else
      let place := here ++ [piece]
      match d.node? place with
      | none => if rest.isEmpty then .ok ⟨place, none⟩ else .error .notFound
      | some .directory => follow d followLast links place rest
      | some (.file id) =>
        if rest.isEmpty then .ok ⟨place, some (.file id)⟩ else .error .notADirectory
      | some (.link target) =>
        if rest.isEmpty && !followLast then .ok ⟨place, some (.link target)⟩
        else
          match links with
          | 0 => .error .tooManyLinks
          | links + 1 =>
            let start := if HostPath.isAbsolute target then [] else here
            follow d followLast links start (pathPieces target ++ rest)
termination_by pieces => (links, pieces.length)

/-- Finds the place that a path names. -/
def locate (d : Disk) (path : String) (followLast : Bool) : Except IoFault Spot :=
  if '\x00' ∈ path.toList then .error .invalidInput
  else if path = "" then .error .notFound
  else if path.utf8ByteSize ≥ pathLimit then .error .nameTooLong
  else
    let start := if HostPath.isAbsolute path then [] else d.workingDirectory
    d.follow followLast maxLinks start (pathPieces path)

/-- What is found under a path, links followed to their end. -/
def find (d : Disk) (path : String) : Except IoFault (Location × Node) :=
  match d.locate path true with
  | .error fault => .error fault
  | .ok ⟨_, none⟩ => .error .notFound
  | .ok ⟨location, some node⟩ => .ok (location, node)

/-- Whether a path leads to anything. -/
def leadsSomewhere (d : Disk) (path : String) : Bool :=
  (d.find path).isOk

def isDirectory (d : Disk) (path : String) : Bool :=
  match d.find path with
  | .ok (_, .directory) => true
  | _ => false

/-- The whole content of a file. -/
def fileContent (d : Disk) (path : String) : Except IoFault ByteArray :=
  match d.find path with
  | .error fault => .error fault
  | .ok (_, .file id) => .ok (d.content id)
  | .ok _ => .error .isADirectory

/-- The absolute path of a place. -/
def absolute (place : Location) : String :=
  "/" ++ "/".intercalate place

/-- The absolute path without links to what a path names. -/
def canonical (d : Disk) (path : String) : Except IoFault String :=
  (d.find path).map fun (location, _) => absolute location

end Disk

end ArchiveOverlay
