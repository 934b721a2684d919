import ArchiveOverlay.Archive.Load
import ArchiveOverlay.Describe
import ArchiveOverlay.Profile
import ArchiveOverlay.Settings

namespace ArchiveOverlay

/-- Mounted archives, and whether their contents are verified. -/
structure Session where
  table : MountTable
  verify : Bool

namespace Session

/-- The profile to use: the one asked for, or else the default if no archive is asked for
either. -/
def profilePath? (settings : Settings) (profile : Option String) (archives : List ArchiveSource) :
    Option String :=
  profile.or (if archives.isEmpty then settings.defaultProfile else none)

/-- Loads and mounts one more archive. -/
def mountSource (d : Disk) (t : MountTable) (source : ArchiveSource) :
    Except CommandError MountTable := do
  let archive ← (loadArchive d source.path).mapError (.ofLoading source.path)
  let (_, t) ← (t.mount archive source.priority).mapError .failed
  return t

/-- Mounts the archives of the profile and then the others. Without any there is no session. -/
def start (d : Disk) (settings : Settings) (profile : Option String)
    (archives : List ArchiveSource) : Except CommandError Session := do
  let profile ←
    match profilePath? settings profile archives with
    | some path => Profile.load d path
    | none => .ok Profile.empty
  let table ← (profile.archives ++ archives).foldlM (mountSource d) .empty
  if table.mounts.isEmpty then throw .nothingMounted
  return ⟨table, profile.verifyChecksums.getD settings.verifyChecksums⟩

def describe (s : Session) : String :=
  let options := describeRecord "ExtractOptions"
    [("verify_checksum", if s.verify then "true" else "false"), ("cancel", "None")]
  "Session \x7b options: " ++ options ++ ", .. \x7d"

end Session

end ArchiveOverlay
