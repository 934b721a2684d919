namespace ArchiveOverlay.Report

inductive Colour where
  | black
  | red
  | green
  | yellow
  | blue
  | cyan
  | white
  deriving DecidableEq, Repr

/-- The code of the bright variant. -/
def Colour.code : Colour → String
  | black => "90"
  | red => "91"
  | green => "92"
  | yellow => "93"
  | blue => "94"
  | cyan => "96"
  | white => "97"

/-- How a piece of text looks on the terminal. -/
structure Style where
  colour : Colour
  isBold : Bool := false
  deriving DecidableEq, Repr

/-- The sequence that turns a style on. -/
def Style.opening (s : Style) : String :=
  "\x1b[" ++ (if s.isBold then "1;" else "") ++ s.colour.code ++ "m"

/-- The sequence that turns all styles off. -/
def reset : String :=
  "\x1b[0m"

/-- Turns a style on again after every place in a text that turns it off. -/
def renewed (opening : List Char) : List Char → List Char
  | [] => []
  | '\x1b' :: '[' :: '0' :: 'm' :: rest => reset.toList ++ opening ++ renewed opening rest
  | c :: rest => c :: renewed opening rest

/-- A text in a style; without colours it stays plain. -/
def Style.paint (s : Style) (coloured : Bool) (text : String) : String :=
  if coloured then
    s.opening ++ String.ofList (renewed s.opening.toList text.toList) ++ reset
  else text

end ArchiveOverlay.Report
