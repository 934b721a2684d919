import ArchiveOverlay.Archive.Basic
import ArchiveOverlay.Digest.Xxh3

namespace ArchiveOverlay

/-- A file held in memory, with what is recorded about it. -/
structure MemoryFile where
  name : String
  content : ByteArray
  byteSize : UInt64
  checksum : UInt64

/-- A file that is recorded as it is. -/
def MemoryFile.faithful (name : String) (content : ByteArray) : MemoryFile :=
  ⟨name, content, content.size.toUInt64, Digest.xxh3 content⟩

def MemoryFile.raw (file : MemoryFile) (handle : Nat) : RawEntry :=
  ⟨file.name, file.byteSize, file.checksum, handle⟩

/-- The archive of files held in memory. -/
def Archive.ofMemory (id : ArchiveId) (files : List MemoryFile) : Except Error Archive :=
  build id (.memory (files.map MemoryFile.content))
    (files.zipIdx.map fun (file, handle) => file.raw handle)

end ArchiveOverlay
