import ArchiveOverlay.Text.Decimal
import ArchiveOverlay.Toml.Text
import ArchiveOverlay.Toml.Value

namespace ArchiveOverlay.Toml

/-- The digits after the first one; between two of them an underscore may stand. -/
def moreDigits (isDigit : Char → Bool) : Reader (List Char)
  | '_' :: c :: rest =>
    if isDigit c then (moreDigits isDigit rest).map fun (cs, rest) => (c :: cs, rest) else none
  | '_' :: [] => none
  | c :: rest =>
    if isDigit c then (moreDigits isDigit rest).map fun (cs, rest) => (c :: cs, rest)
    else some ([], c :: rest)
  | [] => some ([], [])

/-- One digit at least. -/
def digits? (isDigit : Char → Bool) : Reader (List Char)
  | c :: rest =>
    if isDigit c then (moreDigits isDigit rest).map fun (cs, rest) => (c :: cs, rest) else none
  | [] => none

/-- Decimal digits without a zero in front. -/
def wholePart? : Reader (List Char)
  | '0' :: rest => some (['0'], rest)
  | s => digits? Text.isDigit s

/-- A sign and what follows it. -/
def sign : List Char → Bool × List Char
  | '+' :: rest => (false, rest)
  | '-' :: rest => (true, rest)
  | s => (false, s)

def fitsInt64 (n : Int) : Bool :=
  -9223372036854775808 ≤ n && n ≤ 9223372036854775807

def inRadix (radix : Nat) (digits : List Char) : Nat :=
  digits.foldl (fun n c => radix * n + (hexDigit? c).getD 0) 0

/-- A number in another radix, from behind its mark. -/
def radixInteger? (radix : Nat) (s : List Char) : Option (Value × List Char) := do
  let (digits, rest) ← digits? (fun c => (hexDigit? c).any (· < radix)) s
  guard (fitsInt64 (inRadix radix digits))
  return (.integer (inRadix radix digits), rest)

/-- Whether a decimal number is beyond the range of floating point numbers: it rounds to no less
than `2 ^ 1024`. -/
def isTooLarge (digits : List Char) (exponent : Int) : Bool :=
  let n := Text.ofDigits digits
  let limit := Nat.pow 2 1024 - Nat.pow 2 970
  if n = 0 then false
  else if (digits.dropWhile (· = '0')).length + exponent > 400 then true
  else if exponent ≥ 0 then n * Nat.pow 10 exponent.toNat ≥ limit
  else if (digits.dropWhile (· = '0')).length + exponent < 300 then false
  else n ≥ limit * Nat.pow 10 (-exponent).toNat

/-- The digits behind the point, if there is one. -/
def fraction? : Reader (List Char)
  | '.' :: rest => digits? Text.isDigit rest
  | s => some ([], s)

/-- The power of ten behind the digits, if there is one. -/
def exponent? : Reader Int
  | 'e' :: rest => signed rest
  | 'E' :: rest => signed rest
  | s => some (0, s)
where
  signed (s : List Char) : Option (Int × List Char) :=
    let (negative, rest) := sign s
    (digits? Text.isDigit rest).map fun (digits, rest) =>
      (if negative then -(Text.ofDigits digits : Int) else Text.ofDigits digits, rest)

/-- A whole number or one with a point or a power of ten. -/
def decimalNumber? (s : List Char) : Option (Value × List Char) := do
  let (negative, s) := sign s
  let (whole, afterWhole) ← wholePart? s
  let (fraction, afterFraction) ← fraction? afterWhole
  let (exponent, rest) ← exponent? afterFraction
  if rest.length = afterWhole.length then
    let n : Int := if negative then -(Text.ofDigits whole : Int) else Text.ofDigits whole
    guard (fitsInt64 n)
    return (.integer n, rest)
  else
    guard (negative || !isTooLarge (whole ++ fraction) (exponent - fraction.length))
    return (.float, rest)

/-- What follows the named beginning of a text. -/
def keyword? (word s : List Char) : Option (List Char) :=
  if word.isPrefixOf s then some (s.drop word.length) else none

/-- Infinity and what is not a number, after an optional sign. -/
def specialNumber? (s : List Char) : Option (Value × List Char) :=
  let rest := (sign s).2
  ((keyword? ['i', 'n', 'f'] rest).or (keyword? ['n', 'a', 'n'] rest)).map
    fun rest => (.float, rest)

def number? (s : List Char) : Option (Value × List Char) :=
  match s with
  | '0' :: 'x' :: rest => radixInteger? 16 rest
  | '0' :: 'o' :: rest => radixInteger? 8 rest
  | '0' :: 'b' :: rest => radixInteger? 2 rest
  | _ => (specialNumber? s).or (decimalNumber? s)

end ArchiveOverlay.Toml
