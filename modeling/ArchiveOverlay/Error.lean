import ArchiveOverlay.Path
import ArchiveOverlay.Text.Decimal

namespace ArchiveOverlay

/-- The name of an archive. -/
structure ArchiveId where
  name : String
  deriving DecidableEq, Repr

/-- Whether a name means this archive; letter case does not matter. -/
def ArchiveId.named (id : ArchiveId) (name : String) : Bool :=
  Text.lowercase id.name = Text.lowercase name

/-- How reading or writing outside the program can fail. -/
inductive IoFault where
  | notFound
  | notADirectory
  | isADirectory
  | alreadyExists
  | nameTooLong
  | tooManyLinks
  | permissionDenied
  | directoryTree
  | invalidInput
  | invalidData
  | unexpectedEnd
  | brokenPipe
  | writeZero
  /-- Any other way, in the words of the system. -/
  | other (text : String)
  deriving DecidableEq, Repr

def IoFault.message : IoFault → String
  | notFound => "No such file or directory (os error 2)"
  | notADirectory => "Not a directory (os error 20)"
  | isADirectory => "Is a directory (os error 21)"
  | alreadyExists => "File exists (os error 17)"
  | nameTooLong => "File name too long (os error 36)"
  | tooManyLinks => "Too many levels of symbolic links (os error 40)"
  | permissionDenied => "Permission denied (os error 13)"
  | directoryTree => "failed to create whole tree"
  | invalidInput => "invalid input"
  | invalidData => "invalid data"
  | unexpectedEnd => "unexpected end of file"
  | brokenPipe => "broken pipe"
  | writeZero => "failed to write whole buffer"
  | other text => text

/-- Everything that can go wrong with mounts, look-ups, extraction and loading. -/
inductive Error where
  | duplicateMount (archive : ArchiveId)
  | unknownMount (handle : Nat)
  | notMounted (archive : ArchiveId)
  | notFound (path : String)
  | notADirectory (path : String)
  /-- The content is longer or shorter than recorded. -/
  | corruptEntry (path : String) (archive : ArchiveId) (expected actual : Nat)
  /-- The content has another digest than recorded. -/
  | checksumMismatch (path : String) (archive : ArchiveId) (expected actual : UInt64)
  /-- The container's own check failed after the last byte. -/
  | containerChecksumMismatch (path : String) (archive : ArchiveId)
  | invalidPath (raw : String) (fault : PathFault)
  | duplicateEntry (archive : ArchiveId) (path : String)
  | invalidHandle (archive : ArchiveId)
  | unsupportedArchive (path : String)
  | cancelled
  | io (fault : IoFault)
  /-- The container cannot be read as one. -/
  | zip
  deriving DecidableEq, Repr

namespace Error

def message : Error → String
  | duplicateMount archive => "Archive '" ++ archive.name ++ "' is already mounted"
  | unknownMount handle => "Unknown mount handle: #" ++ Text.decimal handle
  | notMounted archive => "Archive '" ++ archive.name ++ "' is not mounted"
  | notFound path => "File not present in any mounted data: " ++ path
  | notADirectory path => "Not a directory: " ++ path
  | corruptEntry path archive expected actual =>
    "Corrupt entry '" ++ path ++ "' in archive '" ++ archive.name ++ "': expected " ++
      Text.decimal expected ++ " bytes, read " ++ Text.decimal actual
  | checksumMismatch path archive expected actual =>
    "Checksum mismatch for '" ++ path ++ "' in archive '" ++ archive.name ++ "': expected " ++
      Text.hex64 expected ++ ", computed " ++ Text.hex64 actual
  | containerChecksumMismatch path archive =>
    "Container checksum mismatch for '" ++ path ++ "' in archive '" ++ archive.name ++ "'"
  | invalidPath raw fault => "Invalid path '" ++ raw ++ "': " ++ fault.reason
  | duplicateEntry archive path =>
    "Duplicate entry '" ++ path ++ "' in archive '" ++ archive.name ++ "'"
  | invalidHandle archive => "Invalid content handle for archive '" ++ archive.name ++ "'"
  | unsupportedArchive path => "Unsupported archive: " ++ path
  | cancelled => "Extraction cancelled"
  | io fault => "IO error: " ++ fault.message
  | zip => "ZIP error: invalid Zip archive"

/-- Whether the error reports damaged content. -/
def isIntegrityFailure : Error → Bool
  | corruptEntry .. | checksumMismatch .. | containerChecksumMismatch .. => true
  | _ => false

end Error

end ArchiveOverlay
