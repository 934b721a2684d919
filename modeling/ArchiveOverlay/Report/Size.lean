import ArchiveOverlay.Text.Decimal

namespace ArchiveOverlay.Report

/-- A quotient rounded to the nearest whole number, a half to the even neighbour. -/
def roundedQuotient (n d : Nat) : Nat :=
  let q := n / d
  let r := n % d
  if 2 * r < d then q
  else if 2 * r > d then q + 1
  else if q % 2 = 0 then q
  else q + 1

/-- The nearest number with at most 53 binary digits before trailing zeros. -/
def toPrecision (n : Nat) : Nat :=
  let step := Nat.pow 2 (Nat.log2 n - 52)
  roundedQuotient n step * step

/-- The unit for a size, as a power of 1024: the largest that the size reaches, up to the
fourth. -/
def unitPower (n : Nat) : Nat :=
  if n < 1024 * 1024 then 1
  else if n < 1024 * 1024 * 1024 then 2
  else if n < 1024 * 1024 * 1024 * 1024 then 3
  else 4

def unitName : Nat → String
  | 1 => "KiB"
  | 2 => "MiB"
  | 3 => "GiB"
  | _ => "TiB"

/-- The size in tenths of its unit. -/
def sizeTenths (bytes : Nat) : Nat :=
  let n := toPrecision bytes
  roundedQuotient (10 * n) (Nat.pow 1024 (unitPower n))

/-- A size for readers: bytes below 1024, and else one decimal place of the unit. -/
def size (bytes : Nat) : String :=
  if bytes < 1024 then Text.decimal bytes ++ " B"
  else
    let tenths := sizeTenths bytes
    Text.decimal (tenths / 10) ++ "." ++ Text.decimal (tenths % 10) ++ " " ++
      unitName (unitPower (toPrecision bytes))

end ArchiveOverlay.Report
