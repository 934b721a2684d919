import ArchiveOverlay.Archive.Basic
import ArchiveOverlay.Disk.Resolve

namespace ArchiveOverlay

/-- A container that has been opened, with its directory as it was then. Its file stays readable
when it loses its name. -/
structure OpenContainer where
  file : FileId
  members : List ContainerMember

/-- Opens a container. What is no file with a good directory in it is refused. -/
def openContainer (reader : ContainerReader) (d : Disk) (path : String) :
    Except Error OpenContainer :=
  match d.find path with
  | .error fault => .error (.io fault)
  | .ok (_, .file id) =>
    match reader (d.content id) with
    | some members => .ok ⟨id, members⟩
    | none => .error .zip
  | .ok _ => .error .zip

/-- The content of a member of a container. -/
def OpenContainer.source (c : OpenContainer) (d : Disk) (id : ArchiveId) (handle : Nat) :
    Except Error Source :=
  match c.members[handle]? with
  | none => .error (.invalidHandle id)
  | some member =>
    match member.source? (d.content c.file) with
    | none => .error .zip
    | some source => .ok source

/-- The content of a file on disk. A directory can be opened but not read. -/
def fileSource (d : Disk) (path : String) : Except Error Source :=
  match d.find path with
  | .error fault => .error (.io fault)
  | .ok (_, .file id) => .ok (.ofContent (d.content id))
  | .ok _ => .ok (.failing .isADirectory)

/-- The content behind a handle. Files and containers are opened anew each time. -/
def Archive.source (a : Archive) (d : Disk) (handle : Nat) : Except Error Source :=
  match a.backing with
  | .directory root files =>
    match files[handle]? with
    | none => .error (.invalidHandle a.id)
    | some file => fileSource d (HostPath.join root file)
  | .zip reader container => do
    let opened ← openContainer reader d container
    opened.source d a.id handle
  | .memory contents =>
    match contents[handle]? with
    | none => .error (.invalidHandle a.id)
    | some content => .ok (.ofContent content)

end ArchiveOverlay
