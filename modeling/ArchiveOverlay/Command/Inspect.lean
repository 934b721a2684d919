import ArchiveOverlay.Conflict
import ArchiveOverlay.Report.Json
import ArchiveOverlay.Report.Size
import ArchiveOverlay.Report.Transcript
import ArchiveOverlay.Session

namespace ArchiveOverlay

open Report

namespace Report

/-- The root is shown as a slash. -/
def shownDirectory (dir : String) : String :=
  if dir = "" then "/" else dir

def kindLabel : ArchiveKind → String
  | .directory => "dir"
  | .zip => "zip"
  | .memory => "mem"

/-- A text behind blanks that bring it to four characters. -/
def rightAligned (s : String) : String :=
  String.ofList (List.replicate (4 - s.length) ' ') ++ s

def mountLine (coloured : Bool) (m : Mount) : Fragment :=
  paddedLine
    ["  " ++ yellow coloured (rightAligned (Text.signedDecimal m.priority)),
      black coloured (kindLabel m.archive.kind),
      boldGreen coloured m.archive.id.name,
      white coloured (Text.decimal m.archive.entries.length ++ " files"),
      black coloured (size m.archive.totalBytes.toNat)]

/-- A line for the file side of a member. -/
def fileLine (o : Overlay) (coloured : Bool) (item : Item) : String :=
  let marker := if item.isDirectory then " " ++ yellow coloured "(also a directory)" else ""
  match o.resolve? item.path with
  | none => white coloured item.name ++ marker
  | some r =>
    let shadows :=
      if r.isConflicted then
        " " ++ yellow coloured ("(shadows " ++ Text.decimal r.shadowed.length ++ ")")
      else ""
    words
      [white coloured item.name, black coloured (size r.entry.size),
        green coloured r.winner.name] ++
      shadows ++ marker

/-- One line for the directory side of a member and one for the file side. -/
def itemLines (o : Overlay) (coloured : Bool) (item : Item) : List String :=
  (if item.isDirectory then [boldBlue coloured (item.name ++ "/")] else []) ++
    (if item.isFile then [fileLine o coloured item] else [])

/-- What is known about a file. -/
def resolvedLines (coloured : Bool) (r : Resolved) : List String :=
  [words [boldWhite coloured "Path:", cyan coloured r.entry.display.text],
    words [boldWhite coloured "Winner:", boldGreen coloured r.winner.name],
    words [boldWhite coloured "Size:", size r.entry.size,
      "(" ++ Text.decimal r.entry.size ++ " bytes)"],
    words [boldWhite coloured "Checksum:", Text.hex64 r.entry.checksum]] ++
    (if r.shadowed.isEmpty then [black coloured "No conflicts"]
    else
      boldWhite coloured "Shadows:" ::
        r.shadowed.map fun id => "  " ++ words [yellow coloured "•", id.name])

def entryRecord (e : Entry) : Json :=
  .record
    [("path", .text e.path.text), ("displayPath", .text e.display.text),
      ("byteSize", .number e.size), ("checksum", .number e.checksum.toNat)]

def resolvedRecord (r : Resolved) : Json :=
  .record
    [("path", .text r.path.text), ("winningArchive", .text r.winner.name),
      ("metadata", entryRecord r.entry),
      ("shadowedBy", .list (r.shadowed.map fun id => .text id.name))]

def countRecord (c : ConflictCount) : Json :=
  .record
    [("winner", .text c.winner.name), ("shadowed", .text c.shadowed.name),
      ("paths", .number c.paths)]

def countLine (coloured : Bool) (c : ConflictCount) : Fragment :=
  paddedLine
    ["  " ++ boldGreen coloured c.winner.name, black coloured "shadows",
      red coloured c.shadowed.name, black coloured ("(" ++ Text.decimal c.paths ++ " files)")]

def conflictLine (coloured : Bool) (r : Resolved) : Fragment :=
  paddedLine
    ["  " ++ white coloured r.entry.display.text, green coloured r.winner.name,
      black coloured ("> " ++ ", ".intercalate (r.shadowed.map ArchiveId.name))]

end Report

namespace Session

/-- The mounted archives, the highest rank first. -/
def mounts (s : Session) (coloured : Bool) : Transcript :=
  paddedLine
    [blue coloured "🗂",
      boldWhite coloured
        (Text.decimal s.table.mounts.length ++ " mounted archives, highest priority first")] ::
    s.table.mounts.map (mountLine coloured)

/-- The members of a directory. -/
def list (s : Session) (coloured : Bool) (dir : String) : Except CommandError Transcript := do
  let o := s.table.overlay
  let items ← (o.list dir).mapError .failed
  let head := paddedLine
    [yellow coloured "📁", boldWhite coloured (shownDirectory dir),
      black coloured ("(" ++ Text.decimal items.length ++ " entries)")]
  return head :: (items.flatMap (itemLines o coloured)).map
    fun line => .text (padded ("  " ++ line))

/-- Which archive provides a file. -/
def resolve (s : Session) (coloured : Bool) (path : String) : Except CommandError Transcript := do
  let r ← (s.table.overlay.resolve path).mapError .failed
  return [plainLine "", .text (boxed (resolvedLines coloured r)), plainLine ""]

/-- The files that more than one archive has, as data or for readers. -/
def conflicts (s : Session) (coloured asJson summaryOnly : Bool) : Transcript :=
  let found := s.table.overlay.conflicts
  let counts := summarize found
  if asJson then
    let shown := if summaryOnly then [] else found
    let report : Json :=
      .record [("conflicts", .list (shown.map resolvedRecord)),
        ("summary", .list (counts.map countRecord))]
    [plainLine (report.render 0)]
  else if found.isEmpty then
    [paddedLine [green coloured "✓ No conflicts between mounted archives"]]
  else
    [paddedLine
        [yellow coloured "⚠",
          boldYellow coloured (Text.decimal found.length ++ " conflicting paths")],
      plainLine ""] ++
      counts.map (countLine coloured) ++
      (if summaryOnly then [] else plainLine "" :: found.map (conflictLine coloured))

end Session

end ArchiveOverlay
