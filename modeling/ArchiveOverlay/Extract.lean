import ArchiveOverlay.Archive.Content
import ArchiveOverlay.Digest.Xxh3
import ArchiveOverlay.Disk.Change
import ArchiveOverlay.Overlay
import ArchiveOverlay.Sink

namespace ArchiveOverlay

namespace Resolved

/-- The content has another length than recorded. -/
def corrupt (r : Resolved) (actual : Nat) : Error :=
  .corruptEntry r.entry.display.text r.winner r.entry.size actual

/-- What a fault of the source means after so many bytes. -/
def readFault (r : Resolved) (written : Nat) : IoFault → Error
  | .invalidData =>
    if written = r.entry.size then .containerChecksumMismatch r.entry.display.text r.winner
    else r.corrupt written
  | .unexpectedEnd => r.corrupt written
  | fault => .io fault

/-- Copies pieces into a sink and counts the bytes. Before each reading, the last one included, it
looks whether to stop. No byte beyond the recorded size is written. -/
def copy {σ : Type} (r : Resolved) (sink : Sink σ) (fault : Option IoFault) :
    List ByteArray → (written : Nat) → Outlet σ → Except Error Nat × Outlet σ
  | [], written, o =>
    match o.poll sink with
    | (true, o) => (.error .cancelled, o)
    | (false, o) =>
      match fault with
      | some fault => (.error (r.readFault written fault), o)
      | none => (.ok written, o)
  | piece :: rest, written, o =>
    match o.poll sink with
    | (true, o) => (.error .cancelled, o)
    | (false, o) =>
      let written := written + piece.size
      if written > r.entry.size then (.error (r.corrupt written), o)
      else
        match o.writeAll sink piece with
        | (.error fault, o) => (.error (.io fault), o)
        | (.ok (), o) => r.copy sink fault rest written o

/-- The last look at a content of which so many bytes have been written. -/
def check (r : Resolved) (verify : Bool) (content : ByteArray) (written : Nat) :
    Except Error Unit :=
  if written ≠ r.entry.size then .error (r.corrupt written)
  else
    let digest := Digest.xxh3 content
    if verify && digest ≠ r.entry.checksum then
      .error (.checksumMismatch r.entry.display.text r.winner r.entry.checksum digest)
    else .ok ()

/-- Copies a source into a sink and checks what has been copied. -/
def stream {σ : Type} (r : Resolved) (verify : Bool) (source : Source) (sink : Sink σ)
    (state : σ) : Except Error Nat × Outlet σ :=
  match r.copy sink source.finalFault source.pieces 0 (.start state) with
  | (.error e, o) => (.error e, o)
  | (.ok written, o) =>
    match r.check verify o.accepted written with
    | .error e => (.error e, o)
    | .ok () =>
      match o.flush sink with
      | (.error fault, o) => (.error (.io fault), o)
      | (.ok (), o) => (.ok written, o)

/-- Copies a source into a sink, if there is one. -/
def deliver {σ : Type} (r : Resolved) (verify : Bool) (source : Except Error Source)
    (sink : Sink σ) (state : σ) : Except Error Nat × Outlet σ :=
  match source with
  | .error e => (.error e, .start state)
  | .ok source => r.stream verify source sink state

/-- Extracts a file into a sink. -/
def extract {σ : Type} (r : Resolved) (d : Disk) (verify : Bool) (sink : Sink σ) (state : σ) :
    Except Error Nat × Outlet σ :=
  r.deliver verify (r.archive.source d r.entry.handle) sink state

/-- The content of a file, all at once. -/
def extractBytes (r : Resolved) (d : Disk) (verify cancelled : Bool) : Except Error ByteArray :=
  match r.extract d verify (.unlimited cancelled) () with
  | (.error e, _) => .error e
  | (.ok _, o) => .ok o.accepted

end Resolved

/-- A file that has been opened to be written. -/
structure Destination where
  path : String
  file : FileId

namespace Destination

/-- Opens the file that a path names for writing, and makes it and all directories around it if
need be. -/
def prepare (d : Disk) (path : String) : Disk × Except IoFault Destination :=
  match (match HostPath.parent? path with
    | some dir => d.makeDirectories dir
    | none => (d, .ok ())) with
  | (d, .error fault) => (d, .error fault)
  | (d, .ok ()) =>
    match d.createFile path with
    | .error fault => (d, .error fault)
    | .ok (d, file) => (d, .ok ⟨path, file⟩)

/-- Leaves the written bytes in the file, or takes it away when something failed. A file that may
not be taken away stays. -/
def finish (dest : Destination) (d : Disk) (content : ByteArray) (result : Except Error Nat) :
    Disk :=
  let d := d.write dest.file content
  match result with
  | .ok _ => d
  | .error _ =>
    match d.removeFile dest.path with
    | .ok d => d
    | .error _ => d

end Destination

/-- Extracts a file to a path on disk, where the sink tells what becomes of each write. -/
def Resolved.extractToFileBy {σ : Type} (r : Resolved) (d : Disk) (verify : Bool) (sink : Sink σ)
    (state : σ) (path : String) : Disk × Except Error Nat :=
  match Destination.prepare d path with
  | (d, .error fault) => (d, .error (.io fault))
  | (d, .ok dest) =>
    let (result, o) := r.extract d verify sink state
    (dest.finish d o.accepted result, result)

/-- Extracts a file to a path on disk that has room for it. -/
def Resolved.extractToFile (r : Resolved) (d : Disk) (verify cancelled : Bool) (path : String) :
    Disk × Except Error Nat :=
  r.extractToFileBy d verify (.unlimited cancelled) () path

end ArchiveOverlay
