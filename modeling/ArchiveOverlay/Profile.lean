import ArchiveOverlay.ArchiveSource
import ArchiveOverlay.CommandError
import ArchiveOverlay.Disk.Resolve
import ArchiveOverlay.Toml.Document

namespace ArchiveOverlay

/-- A list of archives to mount, with an opinion on verification or none. -/
structure Profile where
  verifyChecksums : Option Bool
  archives : List ArchiveSource
  deriving DecidableEq, Repr

namespace Profile

def empty : Profile :=
  ⟨none, []⟩

def priorityOf? : Option Toml.Value → Option Int
  | none => some 0
  | some (.integer n) => if Text.fitsInt32 n then some n else none
  | some _ => none

def sourceOf? (path : Option Toml.Value) (priority : Option Toml.Value) : Option ArchiveSource :=
  match path with
  | some (.string path) => (priorityOf? priority).map fun n => ⟨path, n⟩
  | _ => none

/-- An archive: a table with a path and perhaps a priority, or a row of the two. -/
def source? : Toml.Value → Option ArchiveSource
  | .table _ fields => sourceOf? (fields.lookup "path") (fields.lookup "priority")
  | .array _ items => sourceOf? items[0]? items[1]?
  | _ => none

def ofFields? (fields : Toml.Fields) : Option Profile := do
  let verifyChecksums ←
    match fields.lookup "verify_checksums" with
    | none => some none
    | some (.boolean b) => some (some b)
    | some _ => none
  let archives ←
    match fields.lookup "archive" with
    | none => some []
    | some (.array _ items) => items.mapM source?
    | some _ => none
  return ⟨verifyChecksums, archives⟩

def parse? (text : String) : Option Profile :=
  (Toml.parse? text).bind ofFields?

/-- Reads a profile; the path is only for the complaint. -/
def parse (text path : String) : Except CommandError Profile :=
  match parse? text with
  | some profile => .ok profile
  | none => .error (.profileUnreadable path)

/-- Reads a profile from disk. Its archives are meant as seen from the directory of the profile. -/
def load (d : Disk) (path : String) : Except CommandError Profile :=
  match (d.fileContent path).toOption.bind String.fromUTF8? with
  | none => .error (.profileNotFound path)
  | some text => do
    let profile ← parse text path
    let dir := (HostPath.parent? path).getD ""
    let archives := profile.archives.map fun a => { a with path := HostPath.join dir a.path }
    return { profile with archives }

end Profile

end ArchiveOverlay
