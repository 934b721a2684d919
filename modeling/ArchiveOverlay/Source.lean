import ArchiveOverlay.Bytes
import ArchiveOverlay.Error

namespace ArchiveOverlay

/-- What one attempt to read can bring while the content goes on. -/
inductive Reading where
  | bytes (data : ByteArray)
  /-- The attempt was disturbed and has to be repeated. -/
  | interrupted

/-- How the content of an entry arrives: piece by piece, and then it ends or reading fails. -/
structure Source where
  readings : List Reading
  fault : Option IoFault

namespace Source

/-- The largest piece that is asked for at once. -/
def bufferSize : Nat :=
  65536

def ofChunks (chunks : List ByteArray) (fault : Option IoFault) : Source :=
  ⟨chunks.map .bytes, fault⟩

/-- Content that is at hand as a whole and delivered in full pieces. -/
def ofContent (data : ByteArray) : Source :=
  ofChunks (Bytes.chunks bufferSize data) none

/-- A source that cannot be read at all. -/
def failing (fault : IoFault) : Source :=
  ⟨[], some fault⟩

/-- The pieces of a row of readings; disturbed attempts leave none. A reading without bytes means
the end, and then no fault can follow. -/
def piecesOf (fault : Option IoFault) : List Reading → List ByteArray × Option IoFault
  | [] => ([], fault)
  | .interrupted :: rest => piecesOf fault rest
  | .bytes data :: rest =>
    if data.size = 0 then ([], none)
    else
      let (pieces, fault) := piecesOf fault rest
      (data :: pieces, fault)

def pieces (s : Source) : List ByteArray :=
  (piecesOf s.fault s.readings).1

/-- What stops the source after its last piece, unless that is the end of the content. -/
def finalFault (s : Source) : Option IoFault :=
  (piecesOf s.fault s.readings).2

/-- All bytes that arrive, put together. -/
def content (s : Source) : ByteArray :=
  s.pieces.foldl (· ++ ·) .empty

end Source

end ArchiveOverlay
