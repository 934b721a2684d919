import ArchiveOverlay.Inflate.Block

namespace ArchiveOverlay.Inflate

/-- When a byte of the output can be written. -/
structure Due where
  /-- The bytes of input that have to be read before. -/
  read : Nat
  /-- The bytes of input that have been read when the byte is next but finds no room. -/
  looked : Nat

/-- Output so far, and the position in the input, counted in bits. -/
structure Progress where
  position : Nat
  output : ByteArray
  dues : Array Due

/-- How a stream ends. -/
inductive Ending where
  /-- The last block ends with this many bytes read. -/
  | complete (bytes : Nat)
  | broken (halt : Halt)

/-- A stream with all that can be decoded of it. -/
structure Expanded where
  output : ByteArray
  /-- One for each byte of the output. -/
  dues : Array Due
  ending : Ending

/-- What comes next. -/
inductive Phase where
  | header
  | content (isLast : Bool) (codes : BlockCodes)

def Progress.write (p : Progress) (byte : UInt8) (due : Due) : Progress :=
  { p with output := p.output.push byte, dues := p.dues.push due }

/-- Repeats `length` bytes that stand `distance` bytes before; before the start there are zeros. -/
def Progress.copy (p : Progress) (distance : Nat) (due : Due) : (length : Nat) → Progress
  | 0 => p
  | length + 1 =>
    let byte :=
      if distance ≤ p.output.size then Bytes.byteAt p.output (p.output.size - distance) else 0
    (p.write byte due).copy distance due length

/-- Copies `size` bytes of the input from a byte position on, as far as there are so many. -/
def Progress.store (data : ByteArray) (p : Progress) (start : Nat) : (size : Nat) → Progress
  | 0 => p
  | size + 1 =>
    if start < data.size then
      let p := p.write (Bytes.byteAt data start) ⟨start + 1, start⟩
      Progress.store data { p with position := 8 * (start + 1) } (start + 1) size
    else p

/-- Where a block ends: the stream ends too, or another block follows. -/
def afterBlock (isLast : Bool) (p : Progress) : Phase ⊕ Ending :=
  if isLast then .inr (.complete (bytesBefore p.position)) else .inl .header

/-- Decodes one header, with the bytes of a stored block, or one symbol. -/
def advance (data : ByteArray) (p : Progress) : Phase → Progress × (Phase ⊕ Ending)
  | .header =>
    match (blockHeader data).run p.position with
    | .error halt => (p, .inr (.broken halt))
    | .ok ((isLast, .compressed codes), position) =>
      ({ p with position }, .inl (.content isLast codes))
    | .ok ((isLast, .stored size), position) =>
      let start := position / 8
      let p := Progress.store data { p with position } start size
      if start + size ≤ data.size then (p, afterBlock isLast p) else (p, .inr (.broken .truncated))
  | .content isLast codes =>
    match (piece data codes).run p.position with
    | .error halt => (p, .inr (.broken halt))
    | .ok (.literal byte, position) =>
      let bytes := bytesBefore position
      (Progress.write { p with position } byte ⟨bytes, bytes⟩, .inl (.content isLast codes))
    | .ok (.repeated length distance, position) =>
      let bytes := bytesBefore position
      (Progress.copy { p with position } distance ⟨bytes, bytes⟩ length,
        .inl (.content isLast codes))
    | .ok (.endOfBlock, position) =>
      let p := { p with position }
      (p, afterBlock isLast p)

def expandFrom (data : ByteArray) : (fuel : Nat) → Progress → Phase → Expanded
  | 0, p, _ => ⟨p.output, p.dues, .broken .truncated⟩
  | fuel + 1, p, phase =>
    match advance data p phase with
    | (p, .inl phase) => expandFrom data fuel p phase
    | (p, .inr ending) => ⟨p.output, p.dues, ending⟩

/-- Decodes a whole stream. Each step uses up a bit or is the last one. -/
def expand (data : ByteArray) : Expanded :=
  expandFrom data (8 * data.size + 1) ⟨0, .empty, #[]⟩ .header

end ArchiveOverlay.Inflate
