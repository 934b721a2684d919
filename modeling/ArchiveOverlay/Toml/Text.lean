import ArchiveOverlay.Toml.Scan

namespace ArchiveOverlay.Toml

def hexDigit? (c : Char) : Option Nat :=
  if '0' ≤ c && c ≤ '9' then some (c.toNat - '0'.toNat)
  else if 'a' ≤ c && c ≤ 'f' then some (c.toNat - 'a'.toNat + 10)
  else if 'A' ≤ c && c ≤ 'F' then some (c.toNat - 'A'.toNat + 10)
  else none

/-- The number in exactly so many hexadecimal digits, appended to the digits of `n`. -/
def hexDigits? (n : Nat) : (count : Nat) → Reader Nat
  | 0, s => some (n, s)
  | _ + 1, [] => none
  | count + 1, c :: rest =>
    match hexDigit? c with
    | none => none
    | some digit => hexDigits? (16 * n + digit) count rest

def charOf? (n : Nat) : Option Char :=
  if n < 0xd800 ∨ (0xdfff < n ∧ n < 0x110000) then some (Char.ofNat n) else none

/-- The character that an escape stands for; the text begins after the backslash. -/
def escape? : Reader Char
  | 'b' :: rest => some ('\x08', rest)
  | 't' :: rest => some ('\t', rest)
  | 'n' :: rest => some ('\n', rest)
  | 'f' :: rest => some ('\x0c', rest)
  | 'r' :: rest => some ('\r', rest)
  | '"' :: rest => some ('"', rest)
  | '\\' :: rest => some ('\\', rest)
  | 'u' :: rest => (hexDigits? 0 4 rest).bind fun (n, rest) => (charOf? n).map fun c => (c, rest)
  | 'U' :: rest => (hexDigits? 0 8 rest).bind fun (n, rest) => (charOf? n).map fun c => (c, rest)
  | _ => none

/-- Puts a character in front of what was read. -/
def consRead (c : Char) : Option (List Char × List Char) → Option (List Char × List Char)
  | some (cs, rest) => some (c :: cs, rest)
  | none => none

/-- A string with escapes, from behind its opening quote. -/
def basicBody : (fuel : Nat) → Reader (List Char)
  | 0, _ => none
  | fuel + 1, s =>
    match s with
    | [] => none
    | '"' :: rest => some ([], rest)
    | '\\' :: rest =>
      match escape? rest with
      | some (c, rest) => consRead c (basicBody fuel rest)
      | none => none
    | c :: rest => if isTextChar c then consRead c (basicBody fuel rest) else none

/-- A string without escapes, from behind its opening quote. -/
def literalBody : Reader (List Char)
  | [] => none
  | '\'' :: rest => some ([], rest)
  | c :: rest => if isTextChar c then consRead c (literalBody rest) else none

/-- The end of a string in three quotes: up to two more quotes belong to its content. -/
def closing (quote : Char) (rest : List Char) : List Char × List Char :=
  match rest with
  | a :: b :: more =>
    if a = quote ∧ b = quote then ([quote, quote], more)
    else if a = quote then ([quote], b :: more)
    else ([], rest)
  | [a] => if a = quote then ([quote], []) else ([], rest)
  | [] => ([], [])

/-- What follows a backslash that only joins two lines. -/
def joinedLine? (s : List Char) : Option (List Char) :=
  (newline? (skipSpaces s)).map skipBlankLines

/-- A string with escapes over several lines, from behind its three opening quotes. -/
def longBasicBody : (fuel : Nat) → Reader (List Char)
  | 0, _ => none
  | fuel + 1, s =>
    match s with
    | [] => none
    | '"' :: '"' :: '"' :: rest => some (closing '"' rest)
    | '\\' :: rest =>
      match joinedLine? rest with
      | some rest => longBasicBody fuel rest
      | none =>
        match escape? rest with
        | some (c, rest) => consRead c (longBasicBody fuel rest)
        | none => none
    | '\r' :: '\n' :: rest => consRead '\n' (longBasicBody fuel rest)
    | c :: rest =>
      if c = '\n' || isTextChar c then consRead c (longBasicBody fuel rest) else none

/-- A string without escapes over several lines, from behind its three opening quotes. -/
def longLiteralBody : Reader (List Char)
  | [] => none
  | '\'' :: '\'' :: '\'' :: rest => some (closing '\'' rest)
  | '\r' :: '\n' :: rest => consRead '\n' (longLiteralBody rest)
  | c :: rest => if c = '\n' || isTextChar c then consRead c (longLiteralBody rest) else none

/-- An end of line right after three opening quotes does not count. -/
def withoutFirstNewline (s : List Char) : List Char :=
  (newline? s).getD s

/-- A string on one line. -/
def shortString? : Reader String
  | '"' :: rest =>
    (basicBody (rest.length + 1) rest).map fun (cs, rest) => (String.ofList cs, rest)
  | '\'' :: rest => (literalBody rest).map fun (cs, rest) => (String.ofList cs, rest)
  | _ => none

/-- A string in any of its four forms. -/
def string? : Reader String
  | '"' :: '"' :: '"' :: rest =>
    (longBasicBody (rest.length + 1) (withoutFirstNewline rest)).map fun (cs, rest) =>
      (String.ofList cs, rest)
  | '\'' :: '\'' :: '\'' :: rest =>
    (longLiteralBody (withoutFirstNewline rest)).map fun (cs, rest) => (String.ofList cs, rest)
  | s => shortString? s

end ArchiveOverlay.Toml
