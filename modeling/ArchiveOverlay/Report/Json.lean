import ArchiveOverlay.Text.Decimal

namespace ArchiveOverlay.Report

/-- The data of a report for other programs. -/
inductive Json where
  | text (s : String)
  | number (n : Nat)
  | list (items : List Json)
  | record (fields : List (String × Json))

/-- One character of a quoted text. -/
def jsonChar (c : Char) : String :=
  match c with
  | '"' => "\\\""
  | '\\' => "\\\\"
  | '\n' => "\\n"
  | '\r' => "\\r"
  | '\t' => "\\t"
  | '\x08' => "\\b"
  | '\x0c' => "\\f"
  | _ =>
    if c.toNat < 0x20 then
      "\\u00" ++ String.ofList [Nat.digitChar (c.toNat / 16), Nat.digitChar (c.toNat % 16)]
    else String.singleton c

def jsonText (s : String) : String :=
  "\"" ++ String.join (s.toList.map jsonChar) ++ "\""

/-- The start of a line at a depth of nesting. -/
def indent (depth : Nat) : String :=
  "\n" ++ String.ofList (List.replicate (2 * depth) ' ')

mutual

/-- The layout with two blanks for each depth of nesting; what is empty stays on its line. -/
def Json.render (depth : Nat) : Json → String
  | .text s => jsonText s
  | .number n => Text.decimal n
  | .list [] => "[]"
  | .list items => "[" ++ ",".intercalate (renderItems (depth + 1) items) ++ indent depth ++ "]"
  | .record [] => "\x7b\x7d"
  | .record fields =>
    "\x7b" ++ ",".intercalate (renderFields (depth + 1) fields) ++ indent depth ++ "\x7d"

def renderItems (depth : Nat) : List Json → List String
  | [] => []
  | item :: items => (indent depth ++ item.render depth) :: renderItems depth items

def renderFields (depth : Nat) : List (String × Json) → List String
  | [] => []
  | (key, value) :: fields =>
    (indent depth ++ jsonText key ++ ": " ++ value.render depth) :: renderFields depth fields

end

end ArchiveOverlay.Report
