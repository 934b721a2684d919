import ArchiveOverlay.Toml.Value

namespace ArchiveOverlay.Toml

/-- Changes the last of some tables that have headers. -/
def updateLast (f : Fields → Option Fields) : List Value → Option (List Value)
  | [] => none
  | [.table form fields] => (f fields).map fun fields => [.table form fields]
  | [_] => none
  | row :: rows => (updateLast f rows).map fun rows => row :: rows

/-- Sets a key below a row of dotted keys. A table on the way is made, or has to be one without a
header; the innermost must have come about by dotted keys. -/
def putDotted (key : String) (v : Value) : List String → Fields → Option Fields
  | [], fields => if (fields.lookup key).isSome then none else some (fields ++ [(key, v)])
  | k :: rest, fields =>
    match fields.lookup k with
    | none => (putDotted key v rest []).map fun inner => fields ++ [(k, .table .dotted inner)]
    | some (.table form inner) =>
      if form = .dotted ∨ (form = .implied ∧ rest ≠ []) then
        (putDotted key v rest inner).map fun inner => fields.replace k (.table form inner)
      else none
    | some (.array true rows) =>
      if rest = [] then none
      else (updateLast (putDotted key v rest) rows).map fun rows => fields.replace k
        (.array true rows)
    | some _ => none

/-- Applies a change at the last key of a header, to the table that holds it. Tables on the way are
made if need be, and of several tables under one key the last is meant. -/
def atHeader (change : String → Fields → Option Fields) : List String → Fields → Option Fields
  | [], _ => none
  | [k], fields => change k fields
  | k :: rest, fields =>
    match fields.lookup k with
    | none => (atHeader change rest []).map fun inner => fields ++ [(k, .table .implied inner)]
    | some (.table form inner) =>
      if form = .inline then none
      else (atHeader change rest inner).map fun inner => fields.replace k (.table form inner)
    | some (.array true rows) =>
      (updateLast (atHeader change rest) rows).map fun rows => fields.replace k (.array true rows)
    | some _ => none

/-- Makes a table with a header; one that is only implied becomes it. -/
def openTable : List String → Fields → Option Fields :=
  atHeader fun k fields =>
    match fields.lookup k with
    | none => some (fields ++ [(k, .table .headed [])])
    | some (.table .implied inner) => some (fields.replace k (.table .headed inner))
    | some _ => none

/-- Adds one more table to those under a key. -/
def openRow : List String → Fields → Option Fields :=
  atHeader fun k fields =>
    match fields.lookup k with
    | none => some (fields ++ [(k, .array true [.table .headed []])])
    | some (.array true rows) => some (fields.replace k
      (.array true (rows ++ [.table .headed []])))
    | some _ => none

/-- Changes the table that the latest header made. -/
def inTable (f : Fields → Option Fields) : List String → Fields → Option Fields
  | [], fields => f fields
  | k :: rest, fields =>
    match fields.lookup k with
    | some (.table form inner) =>
      (inTable f rest inner).map fun inner => fields.replace k (.table form inner)
    | some (.array true rows) =>
      (updateLast (inTable f rest) rows).map fun rows => fields.replace k (.array true rows)
    | _ => none

end ArchiveOverlay.Toml
