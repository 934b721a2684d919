namespace ArchiveOverlay.Text

/-- Puts one more character in front of the first line. -/
def consChar (c : Char) : List (List Char) → List (List Char)
  | [] => [[c]]
  | line :: more => (c :: line) :: more

/-- The lines of a text. A line ends at a line feed, before which a carriage return may stand;
nothing follows after the last end of a line. -/
def lines : List Char → List (List Char)
  | [] => []
  | '\n' :: rest => [] :: lines rest
  | '\r' :: '\n' :: rest => [] :: lines rest
  | c :: rest => consChar c (lines rest)

end ArchiveOverlay.Text
