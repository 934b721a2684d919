namespace ArchiveOverlay.Bytes

/-- The byte at a position; past the end all bytes are zero. -/
def byteAt (data : ByteArray) (i : Nat) : UInt8 :=
  if h : i < data.size then data[i] else 0

/-- The number that `width` bytes from `start` spell, the lowest byte first. -/
def littleEndian (data : ByteArray) (start : Nat) : (width : Nat) → Nat
  | 0 => 0
  | width + 1 => (byteAt data start).toNat + 256 * littleEndian data (start + 1) width

def ofList (bytes : List UInt8) : ByteArray :=
  ⟨bytes.toArray⟩

/-- Whether these bytes stand at a position. -/
def matchesAt (data : ByteArray) (start : Nat) : List UInt8 → Bool
  | [] => true
  | byte :: rest =>
    start < data.size && byteAt data start = byte && matchesAt data (start + 1) rest

/-- The first position from `start` on where these bytes stand, among the next `count`. -/
def findFrom (data : ByteArray) (bytes : List UInt8) (start : Nat) : (count : Nat) → Option Nat
  | 0 => none
  | count + 1 =>
    if matchesAt data start bytes then some start else findFrom data bytes (start + 1) count

/-- The content cut into pieces of `size` bytes; only the last may be shorter, and none is
empty. -/
def chunks (size : Nat) (data : ByteArray) : List ByteArray :=
  if data.size = 0 then []
  else if size = 0 then [data]
  else
    let rest := data.extract size data.size
    data.extract 0 size :: chunks size rest
termination_by data.size
decreasing_by
  simp only [ByteArray.size_extract]
  omega

end ArchiveOverlay.Bytes
