namespace ArchiveOverlay.Toml

/-- Reads something from the front of a text and returns the rest. -/
abbrev Reader (α : Type) := List Char → Option (α × List Char)

def isSpace (c : Char) : Bool :=
  c = ' ' || c = '\t'

/-- Characters that may stand in comments and strings: no control characters but the tab. -/
def isTextChar (c : Char) : Bool :=
  c = '\t' || (c.toNat ≥ 0x20 && c.toNat ≠ 0x7f)

def skipSpaces (s : List Char) : List Char :=
  s.dropWhile isSpace

/-- What follows the end of a line. -/
def newline? : List Char → Option (List Char)
  | '\n' :: rest => some rest
  | '\r' :: '\n' :: rest => some rest
  | _ => none

def skipComment : List Char → List Char
  | '#' :: rest => rest.dropWhile isTextChar
  | s => s

/-- What follows a line on which at most a comment is left. -/
def lineEnd? (s : List Char) : Option (List Char) :=
  match skipComment (skipSpaces s) with
  | [] => some []
  | rest => newline? rest

/-- Skips blanks and ends of lines. -/
def skipBlankLines : List Char → List Char
  | ' ' :: rest => skipBlankLines rest
  | '\t' :: rest => skipBlankLines rest
  | '\n' :: rest => skipBlankLines rest
  | '\r' :: '\n' :: rest => skipBlankLines rest
  | s => s

/-- Skips blanks, ends of lines and comments. -/
def skipGap : (fuel : Nat) → List Char → List Char
  | 0, s => s
  | fuel + 1, s =>
    match skipBlankLines s with
    | '#' :: rest => skipGap fuel (rest.dropWhile isTextChar)
    | rest => rest

/-- Skips everything that may stand between the items of an array. -/
def skipGaps (s : List Char) : List Char :=
  skipGap (s.length + 1) s

end ArchiveOverlay.Toml
