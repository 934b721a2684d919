import ArchiveOverlay.Report.Size

namespace ArchiveOverlay.Report

/-- A number of hundredths with two places. -/
def hundredths (n : Nat) : String :=
  let rest := n % 100
  Text.decimal (n / 100) ++ "." ++ (if rest < 10 then "0" else "") ++ Text.decimal rest

/-- A time in the largest unit that it fills, with two places. -/
def duration (nanoseconds : Nat) : String :=
  let shown := fun (unit : Nat) (name : String) =>
    hundredths (roundedQuotient (100 * nanoseconds) unit) ++ name
  if 1000000000 ≤ nanoseconds then shown 1000000000 "s"
  else if 1000000 ≤ nanoseconds then shown 1000000 "ms"
  else if 1000 ≤ nanoseconds then shown 1000 "µs"
  else shown 1 "ns"

end ArchiveOverlay.Report
