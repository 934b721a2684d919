import ArchiveOverlay.Mount

namespace ArchiveOverlay

/-- Archives laid over each other, the one on top first. -/
structure Overlay where
  archives : List Archive

def MountTable.overlay (t : MountTable) : Overlay :=
  ⟨t.mounts.map Mount.archive⟩

/-- The file that is seen at a path. -/
structure Resolved where
  path : Path
  /-- The archive that wins. -/
  archive : Archive
  entry : Entry
  /-- The other archives with such a file, in their order. -/
  shadowed : List ArchiveId

def Resolved.winner (r : Resolved) : ArchiveId :=
  r.archive.id

def Resolved.isConflicted (r : Resolved) : Bool :=
  !r.shadowed.isEmpty

/-- A member of a directory of the overlay. -/
structure Item where
  key : String
  name : String
  path : Path
  isFile : Bool
  isDirectory : Bool
  deriving DecidableEq, Repr

def Item.ofChild (dir : Path) (c : Child) : Item :=
  ⟨c.key, c.name, dir.child c.key, c.isFile, c.isDirectory⟩

/-- A member in two archives is shown as the first of them spells it. -/
def Item.merge (a b : Item) : Item :=
  { a with isFile := a.isFile || b.isFile, isDirectory := a.isDirectory || b.isDirectory }

/-- What a path means; a path that cannot be read is an error. -/
def parsePath (raw : String) : Except Error Path :=
  (Path.parse raw).mapError (.invalidPath raw)

namespace Overlay

/-- The archives with a file at a path, each with its entry. -/
def holders (o : Overlay) (path : Path) : List (Archive × Entry) :=
  o.archives.filterMap fun a => (a.find? path).map fun e => (a, e)

def resolve? (o : Overlay) (path : Path) : Option Resolved :=
  match o.holders path with
  | [] => none
  | (archive, entry) :: others => some ⟨path, archive, entry, others.map fun (a, _) => a.id⟩

def resolve (o : Overlay) (raw : String) : Except Error Resolved := do
  let path ← parsePath raw
  match o.resolve? path with
  | some r => return r
  | none => throw (.notFound path.display)

/-- Whether a file is seen there. -/
def holds (o : Overlay) (raw : String) : Bool :=
  match Path.parse raw with
  | .ok path => o.archives.any fun a => a.contains path
  | .error _ => false

/-- Refuses what cannot be listed. The root always can. -/
def requireDirectory (o : Overlay) (dir : Path) : Except Error Unit :=
  if dir.isRoot || o.archives.any fun a => a.isDirectory dir then .ok ()
  else if o.archives.any fun a => a.contains dir then .error (.notADirectory dir.display)
  else .error (.notFound dir.display)

/-- The members of a directory in any archive, ascending by key. -/
def listPath (o : Overlay) (dir : Path) : Except Error (List Item) := do
  o.requireDirectory dir
  let items := o.archives.flatMap fun a => ((a.children? dir).getD []).map (Item.ofChild dir)
  return Ordered.collect (fun a b => Text.before a.key b.key) Item.merge items

def list (o : Overlay) (raw : String) : Except Error (List Item) := do
  o.listPath (← parsePath raw)

/-- All files of all archives, ascending, each path once. -/
def paths (o : Overlay) : List Path :=
  Ordered.collect (fun a b => Text.before a.text b.text) (fun a _ => a)
    (o.archives.flatMap fun a => a.entries.map Entry.path)

/-- Every file below a directory, ascending by path. -/
def walkPath (o : Overlay) (dir : Path) : Except Error (List Resolved) := do
  o.requireDirectory dir
  return (o.paths.filter fun p => p.isBelow dir).filterMap o.resolve?

def walk (o : Overlay) (raw : String) : Except Error (List Resolved) := do
  o.walkPath (← parsePath raw)

/-- How the overlay spells a member of a directory. -/
def childName? (o : Overlay) (dir : Path) (key : String) : Option String :=
  (o.archives.findSome? fun a => a.child? dir key).map Child.name

end Overlay

end ArchiveOverlay
