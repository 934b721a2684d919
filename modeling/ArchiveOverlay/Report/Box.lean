import ArchiveOverlay.Text.Decimal
import ArchiveOverlay.Text.Lines

namespace ArchiveOverlay.Report

/-- The text without sequences that set styles: an escape, a bracket, digits and semicolons, and an
`m`. What may become such a sequence is held back, its last character first. -/
def stripStyles (pending : List Char) : List Char → List Char
  | [] => pending.reverse
  | c :: rest =>
    if c = '\x1b' then pending.reverse ++ stripStyles [c] rest
    else if pending = ['\x1b'] ∧ c = '[' then stripStyles (c :: pending) rest
    else if pending.length ≥ 2 ∧ (Text.isDigit c ∨ c = ';') then stripStyles (c :: pending) rest
    else if pending.length ≥ 2 ∧ c = 'm' then stripStyles [] rest
    else pending.reverse ++ c :: stripStyles [] rest

/-- How many characters of a text show on the terminal. -/
def visibleLength (s : String) : Nat :=
  (stripStyles [] s.toList).length

/-- The lines of a text, each behind four blanks. -/
def padded (s : String) : String :=
  String.join ((Text.lines s.toList).map fun line => "    " ++ String.ofList line ++ "\n")

/-- Lines with a frame around them. -/
def boxed (lines : List String) : String :=
  let width := (lines.map visibleLength).foldl max 0
  let border := padded (String.ofList (List.replicate (width + 4) '-'))
  let row (line : String) : String :=
    padded ("| " ++ line ++ String.ofList (List.replicate (width - visibleLength line) ' ') ++
      " |")
  border ++ String.join (lines.map row) ++ border

end ArchiveOverlay.Report
