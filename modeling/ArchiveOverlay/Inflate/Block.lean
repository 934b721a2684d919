import ArchiveOverlay.Inflate.Code

namespace ArchiveOverlay.Inflate

/-- The two codes of a compressed block: literals with lengths, and distances. -/
structure BlockCodes where
  literals : Code
  distances : Code

/-- What a block announces about itself. -/
inductive BlockHeader where
  /-- So many bytes follow as they are. -/
  | stored (size : Nat)
  | compressed (codes : BlockCodes)

/-- The codes of blocks that bring none of their own. -/
def fixedCodes : BlockCodes where
  literals := .ofLengths (List.replicate 144 8 ++ List.replicate 112 9 ++ List.replicate 24 7 ++
    List.replicate 8 8)
  distances := .ofLengths (List.replicate 32 5)

/-- The order in which a block gives the lengths of the codes for its code lengths. -/
def lengthOrder : List Nat :=
  [16, 17, 18, 0, 8, 7, 9, 6, 10, 5, 11, 4, 12, 3, 13, 2, 14, 1, 15]

/-- Puts the given lengths at their symbols; the others have none. -/
def arrangeLengths (given : List Nat) : List Nat :=
  (List.range 19).map fun symbol => (lengthOrder.zip given).lookup symbol |>.getD 0

def numbers (data : ByteArray) (width : Nat) : (count : Nat) → Decode (List Nat)
  | 0 => return []
  | count + 1 => do
    let n ← number data width
    return n :: (← numbers data width count)

/-- Reads code lengths until there are `total`; the latest comes first. Symbols from 16 on repeat
the last length or zero. -/
def codeLengths (data : ByteArray) (code : Code) (total : Nat) :
    (fuel : Nat) → List Nat → Decode (List Nat)
  | 0, lengths => return lengths
  | fuel + 1, lengths =>
    if lengths.length ≥ total then return lengths
    else do
      let symbol ← code.symbol data
      if symbol < 16 then
        codeLengths data code total fuel (symbol :: lengths)
      else if symbol = 16 then
        match lengths with
        | [] => invalid
        | last :: _ =>
          let n ← number data 2
          codeLengths data code total fuel (List.replicate (n + 3) last ++ lengths)
      else if symbol = 17 then
        let n ← number data 3
        codeLengths data code total fuel (List.replicate (n + 3) 0 ++ lengths)
      else
        let n ← number data 7
        codeLengths data code total fuel (List.replicate (n + 11) 0 ++ lengths)

/-- The codes that a block describes before its content. -/
def ownCodes (data : ByteArray) : Decode BlockCodes := do
  let literalCount := 257 + (← number data 5)
  let distanceCount := 1 + (← number data 5)
  let lengthCount := 4 + (← number data 4)
  if literalCount > 286 || distanceCount > 30 then invalid
  let lengths := arrangeLengths (← numbers data 3 lengthCount)
  if !isComplete lengths then invalid
  let total := literalCount + distanceCount
  let all := (← codeLengths data (.ofLengths lengths) total total []).reverse
  if all.length ≠ total then invalid
  let literals := all.take literalCount
  let distances := all.drop literalCount
  if !(isUsable literals && isUsable distances) then invalid
  return ⟨.ofLengths literals, .ofLengths distances⟩

/-- Whether the block is the last one, and what it holds. -/
def blockHeader (data : ByteArray) : Decode (Bool × BlockHeader) := do
  let isLast := (← number data 1) = 1
  match ← number data 2 with
  | 0 =>
    toByteBoundary
    let size ← number data 16
    let check ← number data 16
    if size + check ≠ 65535 then invalid
    return (isLast, .stored size)
  | 1 => return (isLast, .compressed fixedCodes)
  | 2 => return (isLast, .compressed (← ownCodes data))
  | _ => invalid

/-- What one symbol of a compressed block stands for. -/
inductive Piece where
  | literal (byte : UInt8)
  /-- So many bytes again that stand `distance` bytes before. -/
  | repeated (length distance : Nat)
  | endOfBlock

/-- The smallest length of each length symbol, with the number of bits that add to it. -/
def lengthBases : Array (Nat × Nat) :=
  #[(3, 0), (4, 0), (5, 0), (6, 0), (7, 0), (8, 0), (9, 0), (10, 0), (11, 1), (13, 1),
    (15, 1), (17, 1), (19, 2), (23, 2), (27, 2), (31, 2), (35, 3), (43, 3), (51, 3), (59, 3),
    (67, 4), (83, 4), (99, 4), (115, 4), (131, 5), (163, 5), (195, 5), (227, 5), (258, 0)]

/-- The smallest distance of each distance symbol, with the number of bits that add to it. -/
def distanceBases : Array (Nat × Nat) :=
  #[(1, 0), (2, 0), (3, 0), (4, 0), (5, 1), (7, 1), (9, 2), (13, 2), (17, 3), (25, 3),
    (33, 4), (49, 4), (65, 5), (97, 5), (129, 6), (193, 6), (257, 7), (385, 7), (513, 8), (769, 8),
    (1025, 9), (1537, 9), (2049, 10), (3073, 10), (4097, 11), (6145, 11), (8193, 12), (12289, 12),
    (16385, 13), (24577, 13)]

def extended (data : ByteArray) (bases : Array (Nat × Nat)) (symbol : Nat) : Decode Nat :=
  match bases[symbol]? with
  | none => invalid
  | some (base, width) => do
    return base + (← number data width)

def piece (data : ByteArray) (codes : BlockCodes) : Decode Piece := do
  let symbol ← codes.literals.symbol data
  if symbol < 256 then return .literal symbol.toUInt8
  else if symbol = 256 then return .endOfBlock
  else
    let length ← extended data lengthBases (symbol - 257)
    let distance ← extended data distanceBases (← codes.distances.symbol data)
    return .repeated length distance

end ArchiveOverlay.Inflate
