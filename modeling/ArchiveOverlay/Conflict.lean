import ArchiveOverlay.Overlay

namespace ArchiveOverlay

/-- How many paths one archive wins over another. -/
structure ConflictCount where
  winner : ArchiveId
  shadowed : ArchiveId
  paths : Nat
  deriving DecidableEq, Repr

/-- By winner, then by the archive that is shadowed. -/
def ConflictCount.before (a b : ConflictCount) : Bool :=
  if a.winner = b.winner then Text.before a.shadowed.name b.shadowed.name
  else Text.before a.winner.name b.winner.name

def ConflictCount.merge (a b : ConflictCount) : ConflictCount :=
  { a with paths := a.paths + b.paths }

/-- How many archives hold each path, ascending by path. -/
def Overlay.tally (o : Overlay) : List (Path × Nat) :=
  Ordered.collect (fun a b => Text.before a.1.text b.1.text) (fun a b => (a.1, a.2 + b.2))
    (o.archives.flatMap fun a => a.entries.map fun e => (e.path, 1))

/-- The files that more than one archive has, ascending by path. -/
def Overlay.conflicts (o : Overlay) : List Resolved :=
  (o.tally.filter fun (_, n) => n > 1).filterMap fun (path, _) => o.resolve? path

/-- The conflicts counted by the two archives concerned. -/
def summarize (conflicts : List Resolved) : List ConflictCount :=
  Ordered.collect ConflictCount.before ConflictCount.merge
    (conflicts.flatMap fun r => r.shadowed.map fun id => ⟨r.winner, id, 1⟩)

end ArchiveOverlay
