import ArchiveOverlay.Text.Lowercase

namespace ArchiveOverlay

/-- Why a text names no path. -/
inductive PathFault where
  /-- It holds a NUL character. -/
  | nul
  /-- Some `..` climbs above the root. -/
  | aboveRoot
  /-- It names the root, where a file is meant. -/
  | root
  deriving DecidableEq, Repr

def PathFault.reason : PathFault → String
  | nul => "contains a NUL byte"
  | aboveRoot => "escapes the archive root"
  | root => "names the archive root"

/-- Both kinds of slash separate segments. -/
def isSeparator (c : Char) : Bool :=
  c = '/' || c = '\\'

/-- The pieces of a text between its separators; one more than there are separators. -/
def pieces : List Char → List (List Char)
  | [] => [[]]
  | c :: rest =>
    if isSeparator c then [] :: pieces rest
    else
      match pieces rest with
      | [] => [[c]]
      | piece :: more => (c :: piece) :: more

/-- Puts one piece on the segments so far, the last of which comes first. Empty pieces and `.`
change nothing, and `..` takes the last segment away. -/
def pushPiece (segments : List String) (piece : String) : Option (List String) :=
  if piece = "" ∨ piece = "." then some segments
  else if piece = ".." then
    match segments with
    | [] => none
    | _ :: outer => some outer
  else some (piece :: segments)

/-- The segments that remain of a row of pieces, or nothing if it climbs above its start. -/
def normalize (raw : List String) : Option (List String) :=
  (raw.foldlM pushPiece []).map List.reverse

/-- A path as an archive spells it, from the root down. -/
structure DisplayPath where
  segments : List String
  deriving DecidableEq, Repr

namespace DisplayPath

def parse (raw : String) : Except PathFault DisplayPath :=
  if '\x00' ∈ raw.toList then .error .nul
  else
    match normalize ((pieces raw.toList).map String.ofList) with
    | none => .error .aboveRoot
    | some segments => .ok ⟨segments⟩

def text (p : DisplayPath) : String :=
  "/".intercalate p.segments

def fileName (p : DisplayPath) : String :=
  p.segments.getLastD ""

end DisplayPath

/-- A path as it is looked up: the segments in small letters. The root has none. -/
structure Path where
  segments : List String
  deriving DecidableEq, Repr

namespace Path

def root : Path :=
  ⟨[]⟩

def ofDisplay (p : DisplayPath) : Path :=
  ⟨p.segments.map Text.lowercase⟩

def parse (raw : String) : Except PathFault Path :=
  (DisplayPath.parse raw).map ofDisplay

/-- The segments with slashes between them. Paths are ordered by this text. -/
def text (p : Path) : String :=
  "/".intercalate p.segments

def isRoot (p : Path) : Bool :=
  p.segments.isEmpty

/-- The text for a reader, who sees the root as a lone slash. -/
def display (p : Path) : String :=
  if p.isRoot then "/" else p.text

def fileName? (p : Path) : Option String :=
  p.segments.getLast?

def parent? (p : Path) : Option Path :=
  if p.isRoot then none else some ⟨p.segments.dropLast⟩

/-- The directories that hold a path, from the nearest up to the root. -/
def ancestors (p : Path) : List Path :=
  (List.range p.segments.length).reverse.map fun n => ⟨p.segments.take n⟩

/-- The path of a member of a directory, given its key. -/
def child (dir : Path) (key : String) : Path :=
  ⟨dir.segments ++ [key]⟩

/-- The text of a path and a further one behind it. -/
def continued (p : Path) (raw : String) : String :=
  if p.isRoot then raw else p.text ++ "/" ++ raw

/-- A path relative to another, in any spelling. -/
def join (p : Path) (raw : String) : Except PathFault Path :=
  parse (p.continued raw)

/-- Whether a path lies strictly below a directory, read off the two texts. -/
def isBelow (p dir : Path) : Bool :=
  if dir.isRoot then !p.isRoot
  else (dir.text.toList ++ ['/']).isPrefixOf p.text.toList

end Path

end ArchiveOverlay
