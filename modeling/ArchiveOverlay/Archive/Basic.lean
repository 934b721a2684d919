import ArchiveOverlay.Archive.Container
import ArchiveOverlay.Archive.Directory
import ArchiveOverlay.Error

namespace ArchiveOverlay

/-- What an archive was loaded from. -/
inductive ArchiveKind where
  | directory
  | zip
  | memory
  deriving DecidableEq, Repr

/-- Where the contents of an archive are. -/
inductive Backing where
  /-- Files below a directory on disk; a handle counts them. -/
  | directory (root : String) (files : List String)
  /-- A ZIP container on disk and how it is read; a handle counts its members. -/
  | zip (reader : ContainerReader) (container : String)
  /-- Contents in memory; a handle counts them. -/
  | memory (contents : List ByteArray)

def Backing.kind : Backing → ArchiveKind
  | directory .. => .directory
  | zip .. => .zip
  | memory .. => .memory

/-- Takes one more file in, unless its name is no path, means the root or repeats an earlier
one. -/
def Archive.addEntry (id : ArchiveId) (entries : List Entry) (raw : RawEntry) :
    Except Error (List Entry) :=
  match DisplayPath.parse raw.name with
  | .error fault => .error (.invalidPath raw.name fault)
  | .ok display =>
    if display.segments.isEmpty then .error (.invalidPath raw.name .root)
    else
      let path := Path.ofDisplay display
      if entries.any fun e => e.path = path then .error (.duplicateEntry id display.text)
      else
        .ok (entries ++
          [{ display, path, byteSize := raw.byteSize, checksum := raw.checksum,
             handle := raw.handle }])

/-- The entries for these files, or the complaint about the first that does not fit. -/
def Archive.indexEntries (id : ArchiveId) (raw : List RawEntry) : Except Error (List Entry) :=
  raw.foldlM (addEntry id) []

/-- A set of files under one name. -/
structure Archive where
  id : ArchiveId
  backing : Backing
  entries : List Entry
  directories : List Directory := Directory.ofEntries entries
  /-- The entries are those for some files. -/
  indexed : ∃ raw, Archive.indexEntries id raw = .ok entries
  directories_eq : directories = Directory.ofEntries entries := by rfl

namespace Archive

/-- The archive of these files, or the complaint about the first that does not fit. -/
def build (id : ArchiveId) (backing : Backing) (raw : List RawEntry) : Except Error Archive :=
  match h : indexEntries id raw with
  | .error e => .error e
  | .ok entries => .ok { id, backing, entries, indexed := ⟨raw, h⟩ }

/-- Whether the sizes of the files, added up as the files are taken in, fit into 64 bits until all
are there or one is complained about. -/
def sumFits (id : ArchiveId) : (entries : List Entry) → (total : Nat) → List RawEntry → Bool
  | _, _, [] => true
  | entries, total, raw :: rest =>
    match addEntry id entries raw with
    | .error _ => true
    | .ok entries =>
      let total := total + raw.size
      decide (total < UInt64.size) && sumFits id entries total rest

/-- The archive of these files where a sum that does not fit stops the program, and then there is
none. -/
def buildChecked (id : ArchiveId) (backing : Backing) (raw : List RawEntry) :
    Option (Except Error Archive) :=
  if sumFits id [] 0 raw then some (build id backing raw) else none

def kind (a : Archive) : ArchiveKind :=
  a.backing.kind

/-- The sum of the sizes; one that does not fit goes around. -/
def totalBytes (a : Archive) : UInt64 :=
  (a.entries.map Entry.byteSize).foldr (· + ·) 0

def find? (a : Archive) (path : Path) : Option Entry :=
  a.entries.find? fun e => e.path = path

def contains (a : Archive) (path : Path) : Bool :=
  (a.find? path).isSome

/-- The members of a directory, ascending by key, if some entry lies below it. -/
def children? (a : Archive) (dir : Path) : Option (List Child) :=
  (a.directories.find? fun d => d.path = dir).map Directory.children

def isDirectory (a : Archive) (dir : Path) : Bool :=
  (a.children? dir).isSome

def child? (a : Archive) (dir : Path) (key : String) : Option Child :=
  (a.children? dir).bind fun children => children.find? fun c => c.key = key

end Archive

end ArchiveOverlay
