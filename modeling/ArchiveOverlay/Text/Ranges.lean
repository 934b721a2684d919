namespace ArchiveOverlay.Text

/-- Code points from the first to the second, both included. -/
abbrev CodeRange := Nat × Nat

/-- Whether a code point lies in one of the ranges, which are ascending. -/
def inRanges (n : Nat) : List CodeRange → Bool
  | [] => false
  | (first, last) :: rest =>
    if n < first then false
    else if n ≤ last then true
    else inRanges n rest

/-- Letters `first`, `first + step`, ... up to `last`, whose partners lie `shift` further on. -/
structure CaseRun where
  first : Nat
  last : Nat
  step : Nat
  shift : Int

/-- The partner of a code point, if one of the ascending runs holds it. -/
def partner? (n : Nat) : List CaseRun → Option Nat
  | [] => none
  | run :: rest =>
    if n < run.first then none
    else if n ≤ run.last then
      if (n - run.first) % run.step = 0 then some (Int.toNat (n + run.shift)) else none
    else partner? n rest

end ArchiveOverlay.Text
