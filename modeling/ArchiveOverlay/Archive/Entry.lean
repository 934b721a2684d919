import ArchiveOverlay.Path

namespace ArchiveOverlay

/-- A file of an archive. -/
structure Entry where
  /-- The path as the archive spells it. -/
  display : DisplayPath
  /-- The path by which the file is found. -/
  path : Path := .ofDisplay display
  /-- Length of the content in bytes. -/
  byteSize : UInt64
  /-- Digest of the content. -/
  checksum : UInt64
  /-- Where the archive keeps the content. -/
  handle : Nat
  path_eq : path = .ofDisplay display := by rfl

def Entry.size (e : Entry) : Nat :=
  e.byteSize.toNat

/-- A file as it was enumerated, under a name in any spelling. -/
structure RawEntry where
  name : String
  byteSize : UInt64
  checksum : UInt64
  handle : Nat
  deriving DecidableEq, Repr

def RawEntry.size (raw : RawEntry) : Nat :=
  raw.byteSize.toNat

end ArchiveOverlay
