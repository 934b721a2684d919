import ArchiveOverlay.Archive.Content
import ArchiveOverlay.Digest.Xxh3
import ArchiveOverlay.Zip.Content

namespace ArchiveOverlay

/-- An archive on disk is called after the last name of its path. -/
def archiveIdOf (path : String) : ArchiveId :=
  ⟨(HostPath.fileName? path).getD path⟩

/-- Whether what was found below the root of an archive is gone into. Links and special files are
not. -/
def Node.isEntered : Node → Bool
  | .file .null => false
  | .link _ => false
  | _ => true

/-- Opens what was found below the root of an archive, by its path from there. A file gives its
path and content. -/
def openFound? (d : Disk) (root : String) :
    String × Node → Except Error (Option (String × ByteArray))
  | (path, node) =>
    if node.isEntered then
      match d.find (HostPath.join root path) with
      | .error fault => .error (.io fault)
      | .ok (_, found) => .ok ((d.nodeContent? found).map fun content => (path, content))
    else .ok none

/-- The files below the place where an archive has its root, with their relative paths,
ascending. -/
def filesBelow (d : Disk) (root : String) (place : Location) :
    Except Error (List (String × ByteArray)) := do
  let found ← (d.tree place).mapM (openFound? d root)
  return found.filterMap fun file => file

/-- The files of a directory archive. A link in place of the directory is followed; a file in its
place has the empty relative path. -/
def directoryFiles (d : Disk) (root : String) : Except Error (List (String × ByteArray)) :=
  match d.locate root false with
  | .error fault => .error (.io fault)
  | .ok ⟨_, none⟩ => .error (.io .notFound)
  | .ok ⟨_, some (.file .null)⟩ => .ok []
  | .ok ⟨_, some (.file id)⟩ => .ok [("", d.content id)]
  | .ok ⟨location, some .directory⟩ => filesBelow d root location
  | .ok ⟨_, some (.link _)⟩ =>
    match d.find root with
    | .error fault => .error (.io fault)
    | .ok (location, .directory) => filesBelow d root location
    | .ok _ => .ok []

def loadDirectory (d : Disk) (root : String) : Except Error Archive := do
  let files ← directoryFiles d root
  Archive.build (archiveIdOf root) (.directory root (files.map fun (path, _) => path))
    (files.zipIdx.map fun ((path, content), handle) =>
      ⟨path, content.size.toUInt64, Digest.xxh3 content, handle⟩)

/-- The entry for a member of a container, or none for directories and for names that are no path
of a file. Content that cannot be read is an error. -/
def OpenContainer.enumerate? (opened : OpenContainer) (d : Disk) (id : ArchiveId)
    (member : ContainerMember) (handle : Nat) : Except Error (Option RawEntry) := do
  let source ← opened.source d id handle
  if member.isDirectory then return none
  match DisplayPath.parse member.name with
  | .error _ => return none
  | .ok display =>
    if display.segments.isEmpty then return none
    match source.finalFault with
    | some fault => throw (.io fault)
    | none =>
      let content := source.content
      return some ⟨member.name, content.size.toUInt64, Digest.xxh3 content, handle⟩

/-- Loads a container, whatever its format. -/
def loadContainer (reader : ContainerReader) (d : Disk) (path : String) :
    Except Error Archive := do
  let id := archiveIdOf path
  let opened ← openContainer reader d path
  let raw ← opened.members.zipIdx.mapM fun (member, handle) => opened.enumerate? d id member handle
  Archive.build id (.zip reader path) (raw.filterMap fun entry => entry)

def loadZip (d : Disk) (path : String) : Except Error Archive :=
  loadContainer Zip.reader d path

def isZipPath (path : String) : Bool :=
  match HostPath.extension? path with
  | some ext => ext.toList.map Char.toLower = ['z', 'i', 'p']
  | none => false

/-- Loads whatever a path names: a directory or a container. -/
def loadArchive (d : Disk) (path : String) : Except Error Archive :=
  if d.isDirectory path then loadDirectory d path
  else if !d.leadsSomewhere path then .error (.io .notFound)
  else if isZipPath path then loadZip d path
  else .error (.unsupportedArchive path)

end ArchiveOverlay
