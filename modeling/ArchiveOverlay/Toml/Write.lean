import ArchiveOverlay.Toml.Scan

namespace ArchiveOverlay.Toml

/-- The four ways to write a string. -/
inductive StringForm where
  | basic
  | literal
  | longBasic
  | longLiteral
  deriving DecidableEq, Repr

/-- Control characters that only an escape can bring into a string. -/
def needsEscape (c : Char) : Bool :=
  !isTextChar c && c ≠ '\n'

/-- The length of the longest row of one character, where `current` of them stand in front. -/
def longestRun (mark : Char) (current : Nat) : List Char → Nat
  | [] => current
  | c :: rest =>
    if c = mark then longestRun mark (current + 1) rest
    else max current (longestRun mark 0 rest)

/-- The first form that shows the string without escapes but for tabs, and else a form with
escapes. -/
def formOf (s : List Char) : StringForm :=
  let plain := !(s.any needsEscape)
  let oneLine := '\n' ∉ s
  let unescaped := plain && '\\' ∉ s
  if unescaped && oneLine && '"' ∉ s then .basic
  else if plain && oneLine && '\'' ∉ s then .literal
  else if unescaped && longestRun '"' 0 s ≤ 2 then .longBasic
  else if plain && longestRun '\'' 0 s ≤ 2 then .longLiteral
  else if oneLine then .basic
  else .longBasic

/-- Four hexadecimal digits in capital letters. -/
def hex4 (n : Nat) : List Char :=
  let digit (k : Nat) : Char := (Nat.digitChar (n / Nat.pow 16 k % 16)).toUpper
  [digit 3, digit 2, digit 1, digit 0]

/-- One character of a string with escapes; quotes are treated elsewhere. -/
def escaped (long : Bool) (c : Char) : List Char :=
  if c = '\x08' then ['\\', 'b']
  else if c = '\t' then ['\\', 't']
  else if c = '\n' then if long then ['\n'] else ['\\', 'n']
  else if c = '\x0c' then ['\\', 'f']
  else if c = '\r' then ['\\', 'r']
  else if c = '\\' then ['\\', '\\']
  else if isTextChar c then [c]
  else '\\' :: 'u' :: hex4 c.toNat

/-- The characters of a string with escapes. Over several lines, up to two quotes may stand
together; `quotes` counts those just written. -/
def escapedBody (long : Bool) (quotes : Nat) : List Char → List Char
  | [] => []
  | c :: rest =>
    if c = '"' then
      if long && quotes < 2 then '"' :: escapedBody long (quotes + 1) rest
      else '\\' :: '"' :: escapedBody long 0 rest
    else escaped long c ++ escapedBody long 0 rest

/-- Strings with an end of line begin on a line of their own. -/
def longStart (s : List Char) : List Char :=
  if '\n' ∈ s then ['\n'] else []

/-- A string as it is written into a document. -/
def writeString (s : List Char) : List Char :=
  match formOf s with
  | .basic => ['"'] ++ escapedBody false 0 s ++ ['"']
  | .literal => ['\''] ++ s ++ ['\'']
  | .longBasic => ['"', '"', '"'] ++ longStart s ++ escapedBody true 0 s ++ ['"', '"', '"']
  | .longLiteral => ['\'', '\'', '\''] ++ longStart s ++ s ++ ['\'', '\'', '\'']

end ArchiveOverlay.Toml
