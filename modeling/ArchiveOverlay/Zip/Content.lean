import ArchiveOverlay.Archive.Container
import ArchiveOverlay.Digest.Crc32
import ArchiveOverlay.Inflate.Delivery
import ArchiveOverlay.Zip.Container

namespace ArchiveOverlay.Zip

/-- The bytes of a member as they stand in the container. -/
def Member.stored (m : Member) (data : ByteArray) : ByteArray :=
  data.extract m.start (m.start + m.storedSize)

/-- Adds the test of the checksum, which takes place when the content has come to its end. -/
def checked (crc : Nat) (s : Source) : Source :=
  match s.finalFault with
  | some _ => s
  | none =>
    if (Digest.crc32 s.content).toNat = crc then s else { s with fault := some .invalidData }

/-- The content of a member. Encrypted ones and other ways of compression cannot be read. -/
def Member.source? (m : Member) (data : ByteArray) : Option Source :=
  if m.isEncrypted then none
  else if m.method = 0 then some (checked m.crc (.ofContent (m.stored data)))
  else if m.method = 8 then some (checked m.crc (Inflate.source (m.stored data)))
  else none

def Member.toContainerMember (m : Member) : ContainerMember :=
  ⟨m.name, m.isDirectory, m.source?⟩

/-- The reader of ZIP containers. -/
def reader : ContainerReader := fun data =>
  (Container.parse? data).map fun container => container.members.map Member.toContainerMember

end ArchiveOverlay.Zip
