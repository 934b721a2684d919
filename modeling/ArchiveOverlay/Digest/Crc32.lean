namespace ArchiveOverlay.Digest

def crcStep (crc : UInt32) : UInt32 :=
  if crc &&& 1 = 1 then (crc >>> 1) ^^^ 0xedb88320 else crc >>> 1

/-- The remainder of a single byte: eight steps of the shift register. -/
def crcOfByte (byte : UInt8) : UInt32 :=
  (List.range 8).foldl (fun crc _ => crcStep crc) byte.toUInt32

def crcTable : Array UInt32 :=
  (Array.range 256).map fun n => crcOfByte n.toUInt8

def crcUpdate (crc : UInt32) (byte : UInt8) : UInt32 :=
  crcTable.getD ((crc ^^^ byte.toUInt32) &&& 0xff).toNat 0 ^^^ (crc >>> 8)

/-- The checksum that containers store beside each member. -/
def crc32 (data : ByteArray) : UInt32 :=
  data.foldl crcUpdate 0xffffffff ^^^ 0xffffffff

end ArchiveOverlay.Digest
