import ArchiveOverlay.Overlay
import ArchiveOverlay.Text.Quoted

namespace ArchiveOverlay

/-- A named record with its fields on one line. -/
def describeRecord (name : String) (fields : List (String × String)) : String :=
  name ++ " \x7b " ++ ", ".intercalate (fields.map fun (key, value) => key ++ ": " ++ value) ++
    " \x7d"

def ArchiveId.describe (id : ArchiveId) : String :=
  "ArchiveId(" ++ Text.quoted id.name ++ ")"

def ArchiveKind.describe : ArchiveKind → String
  | directory => "Directory"
  | zip => "Zip"
  | memory => "Memory"

def Archive.describe (a : Archive) : String :=
  describeRecord "ArchiveIndex"
    [("id", a.id.describe), ("kind", a.kind.describe), ("entries", Text.decimal a.entries.length),
      ("total_bytes", Text.decimal a.totalBytes.toNat)]

def Resolved.describe (r : Resolved) : String :=
  describeRecord "ResolvedEntry"
    [("path", "VfsPath(" ++ Text.quoted r.path.text ++ ")"),
      ("winning_archive", r.winner.describe), ("byte_size", Text.decimal r.entry.size),
      ("shadowed_by", "[" ++ ", ".intercalate (r.shadowed.map ArchiveId.describe) ++ "]")]

end ArchiveOverlay
