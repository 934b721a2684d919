import ArchiveOverlay.Text.Decimal
import ArchiveOverlay.Toml.Scan

namespace ArchiveOverlay.Toml

/-- The number in exactly so many decimal digits. -/
def fixedDigits? (count : Nat) (s : List Char) : Option (Nat × List Char) :=
  let digits := s.take count
  if digits.length = count ∧ digits.all Text.isDigit then some (Text.ofDigits digits, s.drop count)
  else none

def char? (c : Char) : Reader Unit
  | d :: rest => if c = d then some ((), rest) else none
  | [] => none

def isLeapYear (year : Nat) : Bool :=
  year % 4 = 0 && (year % 100 ≠ 0 || year % 400 = 0)

def daysOf (year month : Nat) : Nat :=
  if month = 2 then if isLeapYear year then 29 else 28
  else if month = 4 ∨ month = 6 ∨ month = 9 ∨ month = 11 then 30
  else 31

/-- What follows a date that is in the calendar. -/
def date? (s : List Char) : Option (List Char) := do
  let (year, s) ← fixedDigits? 4 s
  let (_, s) ← char? '-' s
  let (month, s) ← fixedDigits? 2 s
  let (_, s) ← char? '-' s
  let (day, s) ← fixedDigits? 2 s
  guard (1 ≤ month && month ≤ 12 && 1 ≤ day && day ≤ daysOf year month)
  return s

/-- Skips a fraction of a second. -/
def skipFraction (s : List Char) : List Char :=
  match s with
  | '.' :: c :: rest => if Text.isDigit c then rest.dropWhile Text.isDigit else s
  | _ => s

/-- What follows a time of day. A minute may have a second more than usual. -/
def time? (s : List Char) : Option (List Char) := do
  let (hour, s) ← fixedDigits? 2 s
  let (_, s) ← char? ':' s
  let (minute, s) ← fixedDigits? 2 s
  let (_, s) ← char? ':' s
  let (second, s) ← fixedDigits? 2 s
  guard (hour ≤ 23 && minute ≤ 59 && second ≤ 60)
  return skipFraction s

def numericOffset? (s : List Char) : Option (List Char) := do
  let (hour, s) ← fixedDigits? 2 s
  let (_, s) ← char? ':' s
  let (minute, s) ← fixedDigits? 2 s
  guard (hour ≤ 23 && minute ≤ 59)
  return s

/-- Skips the distance from universal time. -/
def skipOffset (s : List Char) : List Char :=
  match s with
  | 'Z' :: rest => rest
  | 'z' :: rest => rest
  | '+' :: rest => (numericOffset? rest).getD s
  | '-' :: rest => (numericOffset? rest).getD s
  | _ => s

/-- What follows a time with its distance, behind the mark that divides it from the date. -/
def timeAfterDate? : List Char → Option (List Char)
  | c :: rest =>
    if c = 'T' || c = 't' || c = ' ' then (time? rest).map skipOffset else none
  | [] => none

/-- What follows a date, a time, or both. -/
def dateTime? (s : List Char) : Option (List Char) :=
  match date? s with
  | some rest => some ((timeAfterDate? rest).getD rest)
  | none => time? s

end ArchiveOverlay.Toml
