import ArchiveOverlay.Disk.Resolve

namespace ArchiveOverlay.Disk

/-- The path without the slashes at its end, but never less than the first character. -/
def withoutLastSlashes (path : String) : String :=
  match path.toList with
  | [] => ""
  | c :: rest => String.ofList (c :: (rest.reverse.dropWhile (· = '/')).reverse)

def endsInSlash (path : String) : Bool :=
  path.toList.getLast? = some '/'

/-- Makes one directory; its parent has to be there. -/
def makeDirectory (d : Disk) (path : String) : Except IoFault Disk :=
  match d.locate (withoutLastSlashes path) false with
  | .error fault => .error fault
  | .ok ⟨_, some _⟩ => .error .alreadyExists
  | .ok ⟨location, none⟩ =>
    if d.rights.add location then .ok (d.put location .directory) else .error .permissionDenied

/-- Makes the first of these directories and before that, if need be, the others, of which each
holds the one before it. What has been made stays when a later step fails. -/
def makeDirectoriesFrom (d : Disk) : List String → Disk × Except IoFault Unit
  | [] => (d, .error .directoryTree)
  | path :: outer =>
    if path = "" then (d, .ok ())
    else
      match d.makeDirectory path with
      | .ok made => (made, .ok ())
      | .error .notFound =>
        match d.makeDirectoriesFrom outer with
        | (d, .error fault) => (d, .error fault)
        | (d, .ok ()) =>
          match d.makeDirectory path with
          | .ok made => (made, .ok ())
          | .error fault => if d.isDirectory path then (d, .ok ()) else (d, .error fault)
      | .error fault => if d.isDirectory path then (d, .ok ()) else (d, .error fault)

/-- Makes a directory with all that it lies in. -/
def makeDirectories (d : Disk) (path : String) : Disk × Except IoFault Unit :=
  d.makeDirectoriesFrom (HostPath.ancestors path)

/-- Makes an empty file, or empties the one that is there, and opens it. -/
def createFile (d : Disk) (path : String) : Except IoFault (Disk × FileId) :=
  match d.locate (withoutLastSlashes path) true with
  | .error fault => .error fault
  | .ok ⟨location, node?⟩ =>
    if endsInSlash path then .error .isADirectory
    else
      match node? with
      | none =>
        if d.rights.add location then .ok (d.putFile location, .regular d.freeNumber)
        else .error .permissionDenied
      | some (.file id) =>
        if d.rights.write location then .ok (d.write id .empty, id) else .error .permissionDenied
      | some _ => .error .isADirectory

/-- Takes a name of a file or a link away. -/
def removeFile (d : Disk) (path : String) : Except IoFault Disk :=
  match d.locate path false with
  | .error fault => .error fault
  | .ok ⟨_, none⟩ => .error .notFound
  | .ok ⟨_, some .directory⟩ => .error .isADirectory
  | .ok ⟨location, some _⟩ =>
    if d.rights.remove location then .ok (d.erase location) else .error .permissionDenied

/-- Gives a file new content and makes it if it is not there. -/
def writeFile (d : Disk) (path : String) (content : ByteArray) : Except IoFault Disk :=
  (d.createFile path).map fun (d, id) => d.write id content

/-- Makes a link; nothing may be there yet. -/
def makeLink (d : Disk) (path target : String) : Except IoFault Disk :=
  match d.locate path false with
  | .error fault => .error fault
  | .ok ⟨_, some _⟩ => .error .alreadyExists
  | .ok ⟨location, none⟩ =>
    if d.rights.add location then .ok (d.put location (.link target)) else .error .permissionDenied

/-- Takes away what a path names, with everything below it. A link goes, but not what it stands
for. -/
def removeTree (d : Disk) (path : String) : Except IoFault Disk :=
  match d.locate path false with
  | .error fault => .error fault
  | .ok ⟨_, none⟩ => .error .notFound
  | .ok ⟨location, some _⟩ =>
    if d.rights.remove location then .ok (d.eraseTree location) else .error .permissionDenied

end ArchiveOverlay.Disk
