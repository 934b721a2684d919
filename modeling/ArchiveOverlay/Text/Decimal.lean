namespace ArchiveOverlay.Text

def isDigit (c : Char) : Bool :=
  '0' ≤ c && c ≤ '9'

def digitValue (c : Char) : Nat :=
  c.toNat - '0'.toNat

/-- The number that a row of decimal digits denotes. -/
def ofDigits (digits : List Char) : Nat :=
  digits.foldl (fun n c => 10 * n + digitValue c) 0

/-- A number in decimal digits alone; at least one. -/
def natural? (s : List Char) : Option Nat :=
  if s ≠ [] ∧ s.all isDigit then some (ofDigits s) else none

/-- A whole number: digits, after at most one sign. -/
def integer? : List Char → Option Int
  | '+' :: s => (natural? s).map Int.ofNat
  | '-' :: s => (natural? s).map fun n => -Int.ofNat n
  | s => (natural? s).map Int.ofNat

/-- Whether a number fits in 32 bits with a sign. -/
def fitsInt32 (n : Int) : Bool :=
  -2147483648 ≤ n && n ≤ 2147483647

def decimal (n : Nat) : String :=
  String.ofList (Nat.toDigits 10 n)

def signedDecimal (n : Int) : String :=
  if n < 0 then "-" ++ decimal n.natAbs else decimal n.natAbs

/-- Sixteen hexadecimal digits, in small letters. -/
def hex64 (n : UInt64) : String :=
  let digits := Nat.toDigits 16 n.toNat
  String.ofList (List.replicate (16 - digits.length) '0' ++ digits)

end ArchiveOverlay.Text
