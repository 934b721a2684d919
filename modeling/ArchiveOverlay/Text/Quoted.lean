import ArchiveOverlay.Text.ExtenderTable
import ArchiveOverlay.Text.UnprintableTable

namespace ArchiveOverlay.Text

/-- Characters that are shown by their code point, since they have no shape of their own. -/
def isHidden (c : Char) : Bool :=
  inRanges c.toNat extenderRanges || inRanges c.toNat unprintableRanges

/-- One character of a quoted text. -/
def quotedChar (c : Char) : String :=
  match c with
  | '\x00' => "\\0"
  | '\t' => "\\t"
  | '\r' => "\\r"
  | '\n' => "\\n"
  | '\\' => "\\\\"
  | '"' => "\\\""
  | _ =>
    if isHidden c then "\\u\x7b" ++ String.ofList (Nat.toDigits 16 c.toNat) ++ "\x7d"
    else String.singleton c

/-- A text between double quotes in which everything can be told apart. -/
def quoted (s : String) : String :=
  "\"" ++ String.join (s.toList.map quotedChar) ++ "\""

end ArchiveOverlay.Text
