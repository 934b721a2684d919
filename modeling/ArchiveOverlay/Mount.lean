import ArchiveOverlay.Archive.Basic

namespace ArchiveOverlay

/-- An archive in use. -/
structure Mount where
  /-- The number by which it is taken out of use. -/
  handle : Nat
  archive : Archive
  priority : Int
  /-- How many archives had been mounted before. -/
  order : Nat

/-- Whether the first archive wins over the second: by priority, and among equals by being
later. -/
def Mount.outranks (a b : Mount) : Bool :=
  a.priority > b.priority || (a.priority = b.priority && a.order > b.order)

/-- The archives in use, the highest rank first. -/
structure MountTable where
  mounts : List Mount
  nextOrder : Nat
  /-- How many changes there have been. -/
  generation : Nat

namespace MountTable

def empty : MountTable :=
  ⟨[], 0, 0⟩

def find? (t : MountTable) (name : String) : Option Mount :=
  t.mounts.find? fun m => m.archive.id.named name

def get? (t : MountTable) (handle : Nat) : Option Mount :=
  t.mounts.find? fun m => m.handle = handle

/-- Puts a mount behind all that outrank it. -/
def insertRanked (m : Mount) : List Mount → List Mount
  | [] => [m]
  | other :: rest =>
    if other.outranks m then other :: insertRanked m rest else m :: other :: rest

/-- The table with one more archive, which outranks all others of its priority. -/
def add (t : MountTable) (archive : Archive) (priority : Int) : MountTable :=
  let order := t.nextOrder
  let m : Mount := { handle := order, archive, priority, order }
  ⟨insertRanked m t.mounts, t.nextOrder + 1, t.generation + 1⟩

/-- The table without the archive that has a handle. -/
def remove (t : MountTable) (handle : Nat) : MountTable :=
  { t with
    mounts := t.mounts.filter fun m => m.handle ≠ handle
    generation := t.generation + 1 }

/-- Takes an archive into use and gives it a handle. -/
def mount (t : MountTable) (archive : Archive) (priority : Int) :
    Except Error (Nat × MountTable) :=
  if (t.find? archive.id.name).isSome then .error (.duplicateMount archive.id)
  else .ok (t.nextOrder, t.add archive priority)

def unmount (t : MountTable) (handle : Nat) : Except Error (Archive × MountTable) :=
  match t.get? handle with
  | none => .error (.unknownMount handle)
  | some m => .ok (m.archive, t.remove handle)

def unmountNamed (t : MountTable) (name : String) : Except Error (Archive × MountTable) :=
  match t.find? name with
  | none => .error (.notMounted ⟨name⟩)
  | some m => t.unmount m.handle

end MountTable

end ArchiveOverlay
