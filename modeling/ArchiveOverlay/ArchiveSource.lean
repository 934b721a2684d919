import ArchiveOverlay.CommandError
import ArchiveOverlay.Text.Blank
import ArchiveOverlay.Text.Decimal

namespace ArchiveOverlay

/-- An archive to mount: where it is, and with what priority. -/
structure ArchiveSource where
  path : String
  priority : Int
  deriving DecidableEq, Repr

/-- A text split at its last `@`, if there is one. -/
def splitAtLast (mark : Char) (s : List Char) : Option (List Char × List Char) :=
  let backwards := s.reverse
  match backwards.dropWhile (· ≠ mark) with
  | [] => none
  | _ :: before => some (before.reverse, (backwards.takeWhile (· ≠ mark)).reverse)

/-- A priority: a whole number of 32 bits with blanks around it. -/
def priority? (s : List Char) : Option Int :=
  (Text.integer? (Text.trim s)).filter Text.fitsInt32

/-- Reads a path, or a path and a priority with an `@` between them. The path may not be blank. -/
def ArchiveSource.parse? (value : String) : Option ArchiveSource := do
  let (path, priority) ←
    match splitAtLast '@' value.toList with
    | some (path, priority) => (priority? priority).map fun n => (path, n)
    | none => some (value.toList, 0)
  guard !(path.all Text.isBlank)
  return ⟨String.ofList path, priority⟩

/-- Reads an archive to mount, or complains about a text that names none. -/
def ArchiveSource.parse (value : String) : Except CommandError ArchiveSource :=
  match parse? value with
  | some source => .ok source
  | none => .error (.invalidArchiveArgument value)

end ArchiveOverlay
