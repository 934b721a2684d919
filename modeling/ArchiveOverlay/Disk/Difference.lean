import ArchiveOverlay.Disk.Change

namespace ArchiveOverlay

namespace Disk

/-- Whether two disks show the same at a place. -/
def agreesAt (old new : Disk) (place : Location) : Bool :=
  match old.node? place, new.node? place with
  | some (.file a), some (.file b) => (old.content a).data = (new.content b).data
  | a, b => a = b

/-- A disk with nothing on it but the working directory. -/
def bare (workingDirectory : String) : Disk :=
  let place := pathPieces workingDirectory
  (makeDirectories { blank with workingDirectory := place } (absolute place)).1

/-- The disk with a directory and all that it lies in. -/
def withDirectory (d : Disk) (path : String) : Disk :=
  (d.makeDirectories path).1

/-- The disk with a file and all the directories that it lies in. -/
def withFile (d : Disk) (path : String) (content : ByteArray) : Disk :=
  let d := d.withDirectory ((HostPath.parent? path).getD "")
  (d.writeFile path content).toOption.getD d

/-- A step that brings one disk nearer to another. -/
inductive Difference where
  | directory (path : String)
  | file (path : String) (content : ByteArray)
  | missing (path : String)

def additions (old new : Disk) : List Difference :=
  new.nodes.filterMap fun (place, node) =>
    if agreesAt old new place then none
    else
      match node with
      | .directory => some (.directory (absolute place))
      | .file id => some (.file (absolute place) (new.content id))
      | .link _ => none

def removals (old new : Disk) : List Difference :=
  old.nodes.filterMap fun (place, _) =>
    if (new.node? place).isNone then some (.missing (absolute place)) else none

/-- The steps from one disk to another: what has to go, and then what is new, outer places
first. -/
def differences (old new : Disk) : List Difference :=
  removals old new ++ additions old new

end Disk

end ArchiveOverlay
