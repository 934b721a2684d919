import ArchiveOverlay.Error

namespace ArchiveOverlay

/-- Why a command cannot be carried out. -/
inductive CommandError where
  | nothingMounted
  | failed (cause : Error)
  | archiveLoadFailed (path : String) (cause : Error)
  | profileNotFound (path : String)
  | profileUnreadable (path : String)
  | invalidArchiveArgument (value : String)
  | exportIncomplete (missing total : Nat)
  | settingsNotSaved (fault : IoFault)
  deriving DecidableEq, Repr

namespace CommandError

/-- What it means that an archive does not load. -/
def ofLoading (path : String) : Error → CommandError
  | .unsupportedArchive path => failed (.unsupportedArchive path)
  | cause => archiveLoadFailed path cause

def causeMessage : Error → String
  | .duplicateMount archive => "Archive '" ++ archive.name ++ "' is mounted twice"
  | .unknownMount handle => "Unknown mount: #" ++ Text.decimal handle
  | .notMounted archive => "Archive '" ++ archive.name ++ "' is not mounted"
  | .notFound path => "File not present in any mounted data: " ++ path
  | .notADirectory path => "Not a directory: " ++ path
  | .corruptEntry path archive .. =>
    "Corrupt entry '" ++ path ++ "' in archive '" ++ archive.name ++ "'"
  | .checksumMismatch path archive .. =>
    "Checksum mismatch for '" ++ path ++ "' in archive '" ++ archive.name ++ "'"
  | .containerChecksumMismatch path archive =>
    "Container checksum mismatch for '" ++ path ++ "' in archive '" ++ archive.name ++ "'"
  | .invalidPath raw _ => "Invalid path: " ++ raw
  | .unsupportedArchive path => "Unsupported archive: " ++ path
  | .cancelled => "Operation cancelled"
  | .io _ => "IO operation failed"
  | .duplicateEntry .. | .invalidHandle .. | .zip => "Overlay error"

def message : CommandError → String
  | nothingMounted => "No archives mounted"
  | failed cause => causeMessage cause
  | archiveLoadFailed path _ => "Failed to load archive: " ++ path
  | profileNotFound path => "Mount profile not found: " ++ path
  | profileUnreadable path => "Mount profile error: " ++ path
  | invalidArchiveArgument value => "Invalid archive argument: " ++ value
  | exportIncomplete missing total =>
    Text.decimal missing ++ " of " ++ Text.decimal total ++ " files could not be exported"
  | settingsNotSaved fault => "Failed to save config: " ++ fault.message

def causeHelp? : Error → Option String
  | .duplicateMount _ =>
    some ("Each archive id (file or directory name) may only be mounted once. " ++
      "Remove the duplicate from the profile or command line.")
  | .notMounted _ => some "Run `zvfs mounts` to list the mounted archive ids"
  | .notFound _ =>
    some ("Paths are case-insensitive and relative to the data root, e.g. " ++
      "_work/data/scripts/content/gothic.src")
  | .notADirectory _ => some "Use `resolve` or `extract` for files"
  | .corruptEntry _ _ expected actual =>
    some ("The index promised " ++ Text.decimal expected ++ " bytes but the archive yielded " ++
      Text.decimal actual ++
      ". It was probably truncated or replaced after it was mounted; remount it. " ++
      "Any partial output has been discarded.")
  | .checksumMismatch _ _ expected actual =>
    some ("Expected " ++ Text.hex64 expected ++ ", computed " ++ Text.hex64 actual ++
      ". The archive content is damaged; any partial output has been discarded.")
  | .containerChecksumMismatch .. =>
    some ("All bytes were read but the ZIP's own CRC-32 check failed, " ++
      "so the stored data is damaged. " ++
      "Re-download or repack the archive; any partial output has been discarded.")
  | .invalidPath _ fault => some fault.reason
  | .unsupportedArchive _ =>
    some "Only directories and .zip containers can be mounted. Unpack .vdf/.mod volumes first."
  | .unknownMount _ | .cancelled | .io _ | .duplicateEntry .. | .invalidHandle .. | .zip => none

/-- Advice on what to do. -/
def help? : CommandError → Option String
  | nothingMounted =>
    some ("Pass --archive <path>[@priority] or --profile <file>, or set a default profile with " ++
      "`zvfs config set-profile`")
  | failed cause => causeHelp? cause
  | profileNotFound _ =>
    some "Create a TOML file with one [[archive]] table per archive (path, priority)"
  | profileUnreadable _ =>
    some ("Check the profile for syntax errors. " ++
      "Each [[archive]] needs a `path`; `priority` defaults to 0.")
  | invalidArchiveArgument _ => some "Use <path> or <path>@<priority>, e.g. Data/Textures.zip@10"
  | archiveLoadFailed .. | exportIncomplete .. | settingsNotSaved _ => none

def causeCode : Error → String
  | .duplicateMount _ => "mount::duplicate"
  | .unknownMount _ => "mount::unknown"
  | .notMounted _ => "mount::not_mounted"
  | .notFound _ => "vfs::not_found"
  | .notADirectory _ => "vfs::not_a_directory"
  | .corruptEntry .. => "extract::corrupt_entry"
  | .checksumMismatch .. => "extract::checksum_mismatch"
  | .containerChecksumMismatch .. => "extract::container_checksum"
  | .invalidPath .. => "vfs::invalid_path"
  | .unsupportedArchive _ => "archive::unsupported"
  | .cancelled => "extract::cancelled"
  | .io _ => "io::operation_failed"
  | .duplicateEntry .. | .invalidHandle .. | .zip => "vfs::error"

/-- A short name by which the error can be looked up. -/
def code? : CommandError → Option String
  | nothingMounted => some "mount::empty"
  | failed cause => some (causeCode cause)
  | archiveLoadFailed .. => some "archive::load_failed"
  | profileNotFound _ => some "profile::not_found"
  | profileUnreadable _ => some "profile::parse_error"
  | invalidArchiveArgument _ => some "args::invalid_archive"
  | exportIncomplete .. => some "export::partial_failure"
  | settingsNotSaved _ => none

end CommandError

end ArchiveOverlay
