import ArchiveOverlay.Toml.Document
import ArchiveOverlay.Toml.Write

namespace ArchiveOverlay

/-- What the tool remembers between two runs. -/
structure Settings where
  /-- The mount profile to use when nothing else is asked for. -/
  defaultProfile : Option String
  /-- Whether contents are verified, unless a profile decides. -/
  verifyChecksums : Bool
  deriving DecidableEq, Repr

namespace Settings

def initial : Settings :=
  ⟨none, false⟩

/-- The settings in a document; what is missing is as at first, and other keys do not matter. -/
def ofFields? (fields : Toml.Fields) : Option Settings := do
  let defaultProfile ←
    match fields.lookup "default_profile" with
    | none => some none
    | some (.string path) => some (some path)
    | some _ => none
  let verifyChecksums ←
    match fields.lookup "verify_checksums" with
    | none => some false
    | some (.boolean b) => some b
    | some _ => none
  return ⟨defaultProfile, verifyChecksums⟩

/-- Reads settings; a text that holds none means those at first. -/
def parse (text : String) : Settings :=
  ((Toml.parse? text).bind ofFields?).getD initial

def render (s : Settings) : String :=
  (match s.defaultProfile with
    | some path => "default_profile = " ++ String.ofList (Toml.writeString path.toList) ++ "\n"
    | none => "") ++
    "verify_checksums = " ++ (if s.verifyChecksums then "true" else "false") ++ "\n"

end Settings

end ArchiveOverlay
