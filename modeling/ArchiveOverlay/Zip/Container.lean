import ArchiveOverlay.Bytes
import ArchiveOverlay.Text.CodePage437
import ArchiveOverlay.Text.Utf8

namespace ArchiveOverlay.Zip

/-- A file in a container, as the directory of the container describes it. -/
structure Member where
  name : String
  isEncrypted : Bool
  /-- How the content is compressed. -/
  method : Nat
  /-- Checksum of the content. -/
  crc : Nat
  /-- Bytes that the content takes in the container. -/
  storedSize : Nat
  /-- Where they begin. -/
  start : Nat
  deriving DecidableEq, Repr

/-- Members that end in a slash of either kind stand for directories. -/
def Member.isDirectory (m : Member) : Bool :=
  match m.name.toList.getLast? with
  | some c => c = '/' || c = '\\'
  | none => false

/-- The directory of a container: a handle counts the members. -/
structure Container where
  members : List Member
  deriving DecidableEq, Repr

/-- Marks the record at the end of a container, which says where the directory is. -/
def endSignature : List UInt8 :=
  [0x50, 0x4b, 0x05, 0x06]

/-- Marks each record of the directory. -/
def centralSignature : List UInt8 :=
  [0x50, 0x4b, 0x01, 0x02]

/-- Marks the record before the content of each member. -/
def localSignature : List UInt8 :=
  [0x50, 0x4b, 0x03, 0x04]

/-- A name is in UTF-8 if the flags say so. -/
def memberName (isUtf8 : Bool) (bytes : List UInt8) : String :=
  String.ofList (if isUtf8 then Text.ofUtf8Lossy bytes else Text.ofCodePage437 bytes)

/-- Where the directory of a container begins, and by how much all positions in it are shifted
because something stands before the container. -/
structure Layout where
  directoryStart : Nat
  shift : Nat

/-- Where the content of a member begins, if its local record stands before the directory. -/
def contentStart? (data : ByteArray) (layout : Layout) (header : Nat) : Option Nat :=
  if header < layout.directoryStart ∧ header + 30 ≤ data.size ∧
      Bytes.matchesAt data header localSignature then
    let start := header + 30 + Bytes.littleEndian data (header + 26) 2 +
      Bytes.littleEndian data (header + 28) 2
    if start ≤ layout.directoryStart then some start else none
  else none

/-- The member that a record of the directory describes, and the position after the record. -/
def member? (data : ByteArray) (layout : Layout) (position : Nat) : Option (Member × Nat) := do
  guard (position + 46 ≤ data.size && Bytes.matchesAt data position centralSignature)
  let field (offset width : Nat) : Nat := Bytes.littleEndian data (position + offset) width
  let nameEnd := position + 46 + field 28 2
  let recordEnd := nameEnd + field 30 2 + field 32 2
  guard (recordEnd ≤ data.size)
  let start ← contentStart? data layout (field 42 4 + layout.shift)
  let flags := field 8 2
  let member : Member := {
    name := memberName (flags.testBit 11) (data.extract (position + 46) nameEnd).toList
    isEncrypted := flags.testBit 0
    method := field 10 2
    crc := field 16 4
    storedSize := field 20 4
    start }
  return (member, recordEnd)

def members? (data : ByteArray) (layout : Layout) (position : Nat) :
    (count : Nat) → Option (List Member)
  | 0 => some []
  | count + 1 => do
    let (member, next) ← member? data layout position
    return member :: (← members? data layout next count)

/-- Of members with one name the last counts, in the place of the first. -/
def putMember (members : List Member) (m : Member) : List Member :=
  if members.any fun other => other.name = m.name then
    members.map fun other => if other.name = m.name then m else other
  else members ++ [m]

/-- How a container with its end record at a position is laid out. The directory lies at the place
that the record names, or else begins with the first directory record after that. -/
def layout? (data : ByteArray) (position : Nat) : Option Layout := do
  let field (offset width : Nat) : Nat := Bytes.littleEndian data (position + offset) width
  guard (position + 22 ≤ data.size && position + 22 + field 20 2 ≤ data.size)
  guard (field 4 2 = field 6 2)
  let offset := field 16 4
  if field 10 2 = 0 then
    let shift := position - offset
    return ⟨offset + shift, shift⟩
  else
    let start ← Bytes.findFrom data centralSignature offset (position - offset)
    return ⟨start, start - offset⟩

def containerAt? (data : ByteArray) (position : Nat) : Option Container := do
  let layout ← layout? data position
  let members ← members? data layout layout.directoryStart
    (Bytes.littleEndian data (position + 8) 2)
  return ⟨members.foldl putMember []⟩

/-- The container with the last good end record before a position. -/
def containerBefore? (data : ByteArray) : (position : Nat) → Option Container
  | 0 => none
  | position + 1 =>
    match (if Bytes.matchesAt data position endSignature then containerAt? data position
      else none) with
    | some container => some container
    | none => containerBefore? data position

def Container.parse? (data : ByteArray) : Option Container :=
  containerBefore? data data.size

end ArchiveOverlay.Zip
