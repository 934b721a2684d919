import ArchiveOverlay.Toml.DateTime
import ArchiveOverlay.Toml.Number
import ArchiveOverlay.Toml.Tables

namespace ArchiveOverlay.Toml

/-- Keys have fewer parts than this, and values are nested less deeply. -/
def depthLimit : Nat :=
  80

def isBareKeyChar (c : Char) : Bool :=
  ('A' ≤ c && c ≤ 'Z') || ('a' ≤ c && c ≤ 'z') || ('0' ≤ c && c ≤ '9') || c = '_' || c = '-'

/-- One part of a key, quoted or not. -/
def keyPart? (s : List Char) : Option (String × List Char) :=
  match s with
  | '"' :: _ => shortString? s
  | '\'' :: _ => shortString? s
  | _ =>
    let name := s.takeWhile isBareKeyChar
    if name.isEmpty then none else some (String.ofList name, s.dropWhile isBareKeyChar)

def keyParts? : (fuel : Nat) → Reader (List String)
  | 0, _ => none
  | fuel + 1, s =>
    match keyPart? (skipSpaces s) with
    | none => none
    | some (part, rest) =>
      match skipSpaces rest with
      | '.' :: rest => (keyParts? fuel rest).map fun (parts, rest) => (part :: parts, rest)
      | rest => some ([part], rest)

/-- A key with the blanks around it: parts with dots between them. -/
def key? : Reader (List String) :=
  keyParts? (depthLimit - 1)

/-- A value that holds no others. -/
def scalar? (s : List Char) : Option (Value × List Char) :=
  match s with
  | '"' :: _ => (string? s).map fun (text, rest) => (.string text, rest)
  | '\'' :: _ => (string? s).map fun (text, rest) => (.string text, rest)
  | 't' :: _ => (keyword? ['t', 'r', 'u', 'e'] s).map fun rest => (.boolean true, rest)
  | 'f' :: _ => (keyword? ['f', 'a', 'l', 's', 'e'] s).map fun rest => (.boolean false, rest)
  | _ =>
    match dateTime? s with
    | some rest => some (.dateTime, rest)
    | none => number? s

/-- The items of an array, from behind its opening bracket or a comma. -/
def items? (item : Reader Value) : (fuel : Nat) → Reader (List Value)
  | 0, _ => none
  | fuel + 1, s =>
    match skipGaps s with
    | ']' :: rest => some ([], rest)
    | s =>
      match item s with
      | none => none
      | some (v, rest) =>
        match skipGaps rest with
        | ',' :: rest => (items? item fuel rest).map fun (vs, rest) => (v :: vs, rest)
        | ']' :: rest => some ([v], rest)
        | _ => none

/-- A key, the sign of equality and a value. -/
def assignment? (item : Reader Value) (s : List Char) :
    Option ((List String × Value) × List Char) :=
  match key? s with
  | some (key, '=' :: rest) => (item (skipSpaces rest)).map fun (v, rest) => ((key, v), rest)
  | _ => none

/-- The assignments of a table between braces, from behind the opening brace or a comma. -/
def assignments? (item : Reader Value) : (fuel : Nat) → Reader (List (List String × Value))
  | 0, _ => none
  | fuel + 1, s =>
    match assignment? item s with
    | none => none
    | some (pair, rest) =>
      match skipSpaces rest with
      | ',' :: rest => (assignments? item fuel rest).map fun (pairs, rest) => (pair :: pairs, rest)
      | '\x7d' :: rest => some ([pair], rest)
      | _ => none

/-- Sets a key with dots in it. -/
def putKey (fields : Fields) (key : List String) (v : Value) : Option Fields :=
  match key.getLast? with
  | some last => putDotted last v key.dropLast fields
  | none => none

def inlineTable? (item : Reader Value) (s : List Char) : Option (Value × List Char) :=
  match skipSpaces s with
  | '\x7d' :: rest => some (.table .inline [], rest)
  | s => do
    let (pairs, rest) ← assignments? item (s.length + 1) s
    let fields ← pairs.foldlM (fun fields (key, v) => putKey fields key v) []
    return (.table .inline fields, rest)

/-- A value, in which arrays and tables are nested at most so deeply. -/
def value? : (depth : Nat) → Reader Value
  | 0 => scalar?
  | depth + 1 => fun s =>
    match s with
    | '[' :: rest =>
      (items? (value? depth) (rest.length + 1) rest).map fun (vs, rest) => (.array false vs, rest)
    | '\x7b' :: rest => inlineTable? (value? depth) rest
    | _ => scalar? s

/-- A document read so far: all tables, and the header under which the next keys come. -/
structure Draft where
  root : Fields
  header : List String

/-- One line of a document. -/
inductive Line where
  | blank
  | table (header : List String)
  | row (header : List String)
  | assignment (key : List String) (v : Value)

def Draft.add (d : Draft) : Line → Option Draft
  | .blank => some d
  | .table header => (openTable header d.root).map fun root => ⟨root, header⟩
  | .row header => (openRow header d.root).map fun root => ⟨root, header⟩
  | .assignment key v =>
    (inTable (fun fields => putKey fields key v) d.header d.root).map fun root => { d with root }

/-- A header between the given number of brackets, from behind those that open it. -/
def header? (brackets : Nat) (s : List Char) : Option (List String × List Char) :=
  match key? s with
  | some (key, rest) => (keyword? (List.replicate brackets ']') rest).map fun rest => (key, rest)
  | none => none

/-- Reads one line, blanks before it included, up to its end. A value may go over more lines. -/
def line? (s : List Char) : Option (Line × List Char) :=
  match skipSpaces s with
  | [] => some (.blank, [])
  | '#' :: rest => (lineEnd? ('#' :: rest)).map fun rest => (.blank, rest)
  | '\n' :: rest => some (.blank, rest)
  | '\r' :: rest => (newline? ('\r' :: rest)).map fun rest => (.blank, rest)
  | '[' :: '[' :: rest => do
    let (key, rest) ← header? 2 rest
    return (.row key, ← lineEnd? rest)
  | '[' :: rest => do
    let (key, rest) ← header? 1 rest
    return (.table key, ← lineEnd? rest)
  | s => do
    let ((key, v), rest) ← assignment? (value? (depthLimit - 1)) s
    return (.assignment key v, ← lineEnd? rest)

def lines? : (fuel : Nat) → Draft → List Char → Option Draft
  | _, d, [] => some d
  | 0, _, _ => none
  | fuel + 1, d, s =>
    match line? s with
    | none => none
    | some (line, rest) =>
      match d.add line with
      | none => none
      | some d => lines? fuel d rest

/-- The top level of a document. A mark of the byte order may stand in front. -/
def parse? (text : String) : Option Fields :=
  let s :=
    match text.toList with
    | '\ufeff' :: rest => rest
    | s => s
  (lines? s.length ⟨[], []⟩ s).map Draft.root

end ArchiveOverlay.Toml
