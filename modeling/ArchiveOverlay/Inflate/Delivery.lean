import ArchiveOverlay.Inflate.Expand
import ArchiveOverlay.Source

namespace ArchiveOverlay.Inflate

/-- The input is read in blocks of this many bytes. -/
def inputBlock : Nat :=
  8192

/-- The output goes through a window of this many bytes, which is filled up before it starts
anew. -/
def windowSize : Nat :=
  32768

/-- How far a stream has been read and handed on; all counts are in bytes. -/
structure Pump where
  /-- Input that has been read. -/
  given : Nat
  /-- Input that has been used up. -/
  consumed : Nat
  /-- Output that has come into the window. -/
  decoded : Nat
  /-- Output that has been handed on. -/
  delivered : Nat

/-- The end of the output before `limit` that can be written with this much input. -/
def reach (dues : Array Due) (limit given position : Nat) : Nat :=
  if h : position < limit ∧ position < dues.size then
    if dues[position].read ≤ given then reach dues limit given (position + 1) else position
  else position
termination_by limit - position

/-- How the filling of a buffer comes to its end. -/
inductive Filled where
  /-- There may be more. -/
  | more
  /-- The stream has been decoded to its end. -/
  | finished
  /-- The bits turned out to be wrong. -/
  | invalid

/-- Fills one window after the other, until the buffer is full or the input is used up. At the end
of the input, when no more will come, windows are filled as long as something is left. -/
def fillWindows (s : Expanded) (atEnd : Bool) : (fuel : Nat) → Pump → Pump × Filled
  | 0, p => (p, .more)
  | fuel + 1, p =>
    let limit := p.decoded + (windowSize - p.decoded % windowSize)
    let decoded := reach s.dues limit p.given p.decoded
    let ended : Option Filled :=
      if decoded = s.output.size then
        match s.ending with
        | .complete bytes => if bytes ≤ p.given then some .finished else none
        | .broken (.invalid bytes) => if bytes ≤ p.given then some .invalid else none
        | .broken .truncated => none
      else none
    match ended with
    | some filled => ({ p with decoded, consumed := p.given }, filled)
    | none =>
      match (if decoded = limit then s.dues[decoded]? else none) with
      | none => ({ p with decoded, consumed := p.given }, .more)
      | some due =>
        let p := { p with decoded, consumed := min due.looked p.given }
        if p.decoded ≥ p.delivered + Source.bufferSize ||
          (p.consumed = p.given && !atEnd) then (p, .more)
        else fillWindows s atEnd fuel p

/-- Hands on what the window holds, at most a buffer full. -/
def Pump.push (p : Pump) : Nat × Pump :=
  let n := min (p.decoded - p.delivered) Source.bufferSize
  (n, { p with delivered := p.delivered + n })

/-- The sizes of the pieces in which the output arrives, and the fault that stops it. Output
decoded in the same go as an error is lost. -/
def deliveries (s : Expanded) (size : Nat) : (fuel : Nat) → Pump → List Nat × Option IoFault
  | 0, _ => ([], none)
  | fuel + 1, p =>
    if p.delivered < p.decoded then
      let (n, p) := p.push
      let (sizes, fault) := deliveries s size fuel p
      (n :: sizes, fault)
    else
      let atEnd := p.consumed = p.given && p.given = size
      let p :=
        if p.consumed = p.given then { p with given := min (p.given + inputBlock) size } else p
      let (p, filled) := fillWindows s atEnd 4 p
      match filled with
      | .invalid => ([], some .invalidInput)
      | _ =>
        let (n, p) := p.push
        match n, filled with
        | 0, .finished => ([], none)
        | 0, _ => if atEnd then ([], some .unexpectedEnd) else deliveries s size fuel p
        | _, _ =>
          let (sizes, fault) := deliveries s size fuel p
          (n :: sizes, fault)

/-- The content cut into pieces of these sizes. -/
def cut (data : ByteArray) (start : Nat) : List Nat → List ByteArray
  | [] => []
  | n :: sizes => data.extract start (start + n) :: cut data (start + n) sizes

/-- The content that compressed bytes stand for, as it arrives. -/
def source (data : ByteArray) : Source :=
  let s := expand data
  let (sizes, fault) := deliveries s data.size (s.output.size + data.size + 3) ⟨0, 0, 0, 0⟩
  .ofChunks (cut s.output 0 sizes) fault

end ArchiveOverlay.Inflate
