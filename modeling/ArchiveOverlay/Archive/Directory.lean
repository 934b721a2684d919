import ArchiveOverlay.Archive.Entry
import ArchiveOverlay.Ordered
import ArchiveOverlay.Text.Order

namespace ArchiveOverlay

/-- A member of a directory in one archive. -/
structure Child where
  /-- The segment by which it is found. -/
  key : String
  /-- The segment as it is shown. -/
  name : String
  isFile : Bool
  isDirectory : Bool
  deriving DecidableEq, Repr

/-- One member seen in two entries. Of two spellings the earlier is shown. -/
def Child.merge (a b : Child) : Child where
  key := a.key
  name := Text.earlier a.name b.name
  isFile := a.isFile || b.isFile
  isDirectory := a.isDirectory || b.isDirectory

/-- A directory and its members, ascending by key. -/
structure Directory where
  path : Path
  children : List Child
  deriving DecidableEq, Repr

namespace Directory

def insertChild (child : Child) (children : List Child) : List Child :=
  Ordered.upsert (fun a b => Text.before a.key b.key) Child.merge child children

/-- Records a member of the directory at `dir`. -/
def place (dir : Path) (child : Child) : List Directory → List Directory
  | [] => [⟨dir, [child]⟩]
  | d :: rest =>
    if d.path = dir then { d with children := insertChild child d.children } :: rest
    else d :: place dir child rest

end Directory

/-- The members that an entry adds to `dir` and to the directories below it, given the segments of
its path from there on with their spellings. -/
def placements (dir : Path) : List (String × String) → List (Path × Child)
  | [] => []
  | [(key, name)] => [(dir, ⟨key, name, true, false⟩)]
  | (key, name) :: rest => (dir, ⟨key, name, false, true⟩) :: placements (dir.child key) rest

def Entry.placements (e : Entry) : List (Path × Child) :=
  ArchiveOverlay.placements .root (e.path.segments.zip e.display.segments)

/-- All directories that hold one of the entries. -/
def Directory.ofEntries (entries : List Entry) : List Directory :=
  (entries.flatMap Entry.placements).foldl (fun dirs (dir, child) => place dir child dirs) []

end ArchiveOverlay
