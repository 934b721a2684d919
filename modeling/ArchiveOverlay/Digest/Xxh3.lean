import ArchiveOverlay.Bytes

namespace ArchiveOverlay.Digest

private def prime32a : UInt64 := 0x9e3779b1

private def prime32b : UInt64 := 0x85ebca77

private def prime32c : UInt64 := 0xc2b2ae3d

private def prime64a : UInt64 := 0x9e3779b185ebca87

private def prime64b : UInt64 := 0xc2b2ae3d27d4eb4f

private def prime64c : UInt64 := 0x165667b19e3779f9

private def prime64d : UInt64 := 0x85ebca77c2b2ae63

private def prime64e : UInt64 := 0x27d4eb2f165667c5

/-- The key that every digest is mixed with. -/
def xxh3Key : ByteArray :=
  Bytes.ofList
    [0xb8, 0xfe, 0x6c, 0x39, 0x23, 0xa4, 0x4b, 0xbe, 0x7c, 0x01, 0x81, 0x2c,
      0xf7, 0x21, 0xad, 0x1c, 0xde, 0xd4, 0x6d, 0xe9, 0x83, 0x90, 0x97, 0xdb,
      0x72, 0x40, 0xa4, 0xa4, 0xb7, 0xb3, 0x67, 0x1f, 0xcb, 0x79, 0xe6, 0x4e,
      0xcc, 0xc0, 0xe5, 0x78, 0x82, 0x5a, 0xd0, 0x7d, 0xcc, 0xff, 0x72, 0x21,
      0xb8, 0x08, 0x46, 0x74, 0xf7, 0x43, 0x24, 0x8e, 0xe0, 0x35, 0x90, 0xe6,
      0x81, 0x3a, 0x26, 0x4c, 0x3c, 0x28, 0x52, 0xbb, 0x91, 0xc3, 0x00, 0xcb,
      0x88, 0xd0, 0x65, 0x8b, 0x1b, 0x53, 0x2e, 0xa3, 0x71, 0x64, 0x48, 0x97,
      0xa2, 0x0d, 0xf9, 0x4e, 0x38, 0x19, 0xef, 0x46, 0xa9, 0xde, 0xac, 0xd8,
      0xa8, 0xfa, 0x76, 0x3f, 0xe3, 0x9c, 0x34, 0x3f, 0xf9, 0xdc, 0xbb, 0xc7,
      0xc7, 0x0b, 0x4f, 0x1d, 0x8a, 0x51, 0xe0, 0x4b, 0xcd, 0xb4, 0x59, 0x31,
      0xc8, 0x9f, 0x7e, 0xc9, 0xd9, 0x78, 0x73, 0x64, 0xea, 0xc5, 0xac, 0x83,
      0x34, 0xd3, 0xeb, 0xc3, 0xc5, 0x81, 0xa0, 0xff, 0xfa, 0x13, 0x63, 0xeb,
      0x17, 0x0d, 0xdd, 0x51, 0xb7, 0xf0, 0xda, 0x49, 0xd3, 0x16, 0x55, 0x26,
      0x29, 0xd4, 0x68, 0x9e, 0x2b, 0x16, 0xbe, 0x58, 0x7d, 0x47, 0xa1, 0xfc,
      0x8f, 0xf8, 0xb8, 0xd1, 0x7a, 0xd0, 0x31, 0xce, 0x45, 0xcb, 0x3a, 0x8f,
      0x95, 0x16, 0x04, 0x28, 0xaf, 0xd7, 0xfb, 0xca, 0xbb, 0x4b, 0x40, 0x7e]

private def word32 (data : ByteArray) (i : Nat) : UInt64 :=
  (Bytes.littleEndian data i 4).toUInt64

private def word64 (data : ByteArray) (i : Nat) : UInt64 :=
  (Bytes.littleEndian data i 8).toUInt64

/-- The two halves of the full product of two words, added without carry. -/
def foldProduct (a b : UInt64) : UInt64 :=
  let product := a.toNat * b.toNat
  product.toUInt64 ^^^ (product / 0x10000000000000000).toUInt64

private def rotateLeft (x : UInt64) (n : UInt64) : UInt64 :=
  (x <<< n) ||| (x >>> (64 - n))

private def reverseBytes (x : UInt64) : UInt64 :=
  (List.range 8).foldl (fun acc i => (acc <<< 8) ||| ((x >>> (8 * i).toUInt64) &&& 0xff)) 0

private def avalanche (x : UInt64) : UInt64 :=
  let x := (x ^^^ (x >>> 37)) * 0x165667919e3779f9
  x ^^^ (x >>> 32)

private def shortAvalanche (x : UInt64) : UInt64 :=
  let x := (x ^^^ (x >>> 33)) * prime64b
  let x := (x ^^^ (x >>> 29)) * prime64c
  x ^^^ (x >>> 32)

private def mixSixteen (data : ByteArray) (i k : Nat) : UInt64 :=
  foldProduct (word64 data i ^^^ word64 xxh3Key k) (word64 data (i + 8) ^^^ word64 xxh3Key (k + 8))

/-- At most sixteen bytes. -/
private def digestShort (data : ByteArray) : UInt64 :=
  let n := data.size
  if n > 8 then
    let low := word64 data 0 ^^^ (word64 xxh3Key 24 ^^^ word64 xxh3Key 32)
    let high := word64 data (n - 8) ^^^ (word64 xxh3Key 40 ^^^ word64 xxh3Key 48)
    avalanche (n.toUInt64 + reverseBytes low + high + foldProduct low high)
  else if n ≥ 4 then
    let x := (word32 data (n - 4) + (word32 data 0 <<< 32)) ^^^
      (word64 xxh3Key 8 ^^^ word64 xxh3Key 16)
    let x := (x ^^^ rotateLeft x 49 ^^^ rotateLeft x 24) * 0x9fb21c651e98df25
    let x := (x ^^^ ((x >>> 35) + n.toUInt64)) * 0x9fb21c651e98df25
    x ^^^ (x >>> 28)
  else if n > 0 then
    let first := (Bytes.byteAt data 0).toUInt64
    let middle := (Bytes.byteAt data (n / 2)).toUInt64
    let last := (Bytes.byteAt data (n - 1)).toUInt64
    let x := (first <<< 16) ||| (middle <<< 24) ||| last ||| (n.toUInt64 <<< 8)
    shortAvalanche (x ^^^ (word32 xxh3Key 0 ^^^ word32 xxh3Key 4))
  else
    shortAvalanche (word64 xxh3Key 56 ^^^ word64 xxh3Key 64)

/-- From seventeen to 128 bytes: pairs of sixteen from both ends towards the middle. -/
private def digestMedium (data : ByteArray) : UInt64 :=
  let n := data.size
  let pair (i : Nat) : UInt64 :=
    mixSixteen data (16 * i) (32 * i) + mixSixteen data (n - 16 * (i + 1)) (32 * i + 16)
  let pairs := (n - 1) / 32 + 1
  avalanche ((List.range pairs).foldl (fun acc i => acc + pair i) (n.toUInt64 * prime64a))

/-- From 129 to 240 bytes. -/
private def digestLonger (data : ByteArray) : UInt64 :=
  let n := data.size
  let front := (List.range 8).foldl (fun acc i => acc + mixSixteen data (16 * i) (16 * i))
    (n.toUInt64 * prime64a)
  let back := (List.range (n / 16 - 8)).foldl
    (fun acc i => acc + mixSixteen data (16 * (i + 8)) (16 * i + 3)) (mixSixteen data (n - 16) 119)
  avalanche (avalanche front + back)

/-- Eight running words. -/
private abbrev Lanes := Array UInt64

private def firstLanes : Lanes :=
  #[prime32c, prime64a, prime64b, prime64c, prime64d, prime32b, prime64e, prime32a]

private def accumulate (data : ByteArray) (i k : Nat) (lanes : Lanes) : Lanes :=
  (List.range 8).foldl
    (fun (lanes : Lanes) (j : Nat) =>
      let value : UInt64 := word64 data (i + 8 * j)
      let mixed : UInt64 := value ^^^ word64 xxh3Key (k + 8 * j)
      let product : UInt64 := (mixed &&& (0xffffffff : UInt64)) * (mixed >>> (32 : UInt64))
      (lanes.modify (j ^^^ 1) (· + value)).modify j (· + product))
    lanes

private def scramble (lanes : Lanes) : Lanes :=
  lanes.mapIdx fun (j : Nat) (x : UInt64) =>
    (x ^^^ (x >>> 47) ^^^ word64 xxh3Key (128 + 8 * j)) * prime32a

private def accumulateStripes (data : ByteArray) (start stripes : Nat) (lanes : Lanes) : Lanes :=
  (List.range stripes).foldl (fun lanes s => accumulate data (start + 64 * s) (8 * s) lanes) lanes

/-- More than 240 bytes: blocks of sixteen stripes, the rest, and the last 64 bytes once more. -/
private def digestLong (data : ByteArray) : UInt64 :=
  let n := data.size
  let blocks := (n - 1) / 1024
  let lanes := (List.range blocks).foldl
    (fun lanes b => scramble (accumulateStripes data (1024 * b) 16 lanes)) firstLanes
  let lanes := accumulateStripes data (1024 * blocks) ((n - 1 - 1024 * blocks) / 64) lanes
  let lanes := accumulate data (n - 64) 121 lanes
  let lane (j : Nat) : UInt64 := lanes.getD j 0 ^^^ word64 xxh3Key (11 + 8 * j)
  avalanche
    ((List.range 4).foldl (fun acc j => acc + foldProduct (lane (2 * j)) (lane (2 * j + 1)))
      (n.toUInt64 * prime64a))

/-- The content digest that archives record for every entry. -/
def xxh3 (data : ByteArray) : UInt64 :=
  if data.size ≤ 16 then digestShort data
  else if data.size ≤ 128 then digestMedium data
  else if data.size ≤ 240 then digestLonger data
  else digestLong data

/-- A digest in progress: all bytes that it has been given. -/
structure Running where
  received : ByteArray

def Running.start : Running :=
  ⟨ByteArray.empty⟩

def Running.feed (r : Running) (data : ByteArray) : Running :=
  ⟨r.received ++ data⟩

def Running.digest (r : Running) : UInt64 :=
  xxh3 r.received

end ArchiveOverlay.Digest
