import ArchiveOverlay.Bytes

namespace ArchiveOverlay.Inflate

/-- Why nothing more can be decoded. -/
inductive Halt where
  /-- The bits break the rules, as shown by this many bytes from the start. -/
  | invalid (bytes : Nat)
  /-- The input ends too early. -/
  | truncated

/-- Decoding from a position, counted in bits. -/
abbrev Decode := StateT Nat (Except Halt)

/-- The bytes that hold the bits before a position. -/
def bytesBefore (position : Nat) : Nat :=
  (position + 7) / 8

def invalid {α : Type} : Decode α := do
  throw (.invalid (bytesBefore (← get)))

/-- The next bit; those of a byte come lowest first. -/
def nextBit (data : ByteArray) : Decode Nat := do
  let position ← get
  if position / 8 < data.size then
    set (position + 1)
    return ((Bytes.byteAt data (position / 8)).toNat >>> (position % 8)) % 2
  else
    throw .truncated

/-- The number that the next bits spell, lowest first. -/
def number (data : ByteArray) : (width : Nat) → Decode Nat
  | 0 => return 0
  | width + 1 => do
    let low ← nextBit data
    let high ← number data width
    return low + 2 * high

/-- Skips what is left of a byte that has been begun. -/
def toByteBoundary : Decode Unit :=
  modify fun position => 8 * bytesBefore position

end ArchiveOverlay.Inflate
