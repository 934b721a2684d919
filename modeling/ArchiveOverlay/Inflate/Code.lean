import ArchiveOverlay.Inflate.Bits

namespace ArchiveOverlay.Inflate

/-- A canonical prefix code: for every length from one bit on, the symbols whose codes have it.
Codes of one length follow each other, and longer ones come after all shorter ones. -/
abbrev Code := List (Array Nat)

def maxCodeLength : Nat :=
  15

/-- The code that gives every symbol a code of the length at its place; length zero means no
code. -/
def Code.ofLengths (lengths : List Nat) : Code :=
  (List.range maxCodeLength).map fun n =>
    (lengths.zipIdx.filterMap fun (length, symbol) =>
      if length = n + 1 then some symbol else none).toArray

/-- The share of all words of fifteen bits that begin with some code. -/
def occupied (lengths : List Nat) : Nat :=
  ((lengths.filter (· ≠ 0)).map fun n => Nat.pow 2 (maxCodeLength - n)).foldr (· + ·) 0

/-- Whether every word begins with exactly one code. -/
def isComplete (lengths : List Nat) : Bool :=
  occupied lengths = Nat.pow 2 maxCodeLength

/-- Complete codes are good, and so are those of at most one symbol. -/
def isUsable (lengths : List Nat) : Bool :=
  isComplete lengths || lengths.countP (· ≠ 0) ≤ 1

/-- Reads one symbol, where `offset` counts the words of the next length that are no continuations
of shorter codes and lie before the word read so far. -/
def symbolFrom (data : ByteArray) : Code → (offset : Nat) → Decode Nat
  | [], _ => invalid
  | level :: longer, offset => do
    let place := offset + (← nextBit data)
    match level[place]? with
    | some symbol => return symbol
    | none => symbolFrom data longer (2 * (place - level.size))

def Code.symbol (code : Code) (data : ByteArray) : Decode Nat :=
  symbolFrom data code 0

end ArchiveOverlay.Inflate
