import ArchiveOverlay.Report.Box
import ArchiveOverlay.Report.Style

namespace ArchiveOverlay.Report

/-- A part of what a command prints. -/
inductive Fragment where
  | text (s : String)
  /-- The time that the work has taken. -/
  | elapsed
  deriving DecidableEq, Repr

abbrev Transcript := List Fragment

/-- The printed text, given the time that the work has taken. -/
def Transcript.render (t : Transcript) (elapsed : String) : String :=
  String.join (t.map fun fragment =>
    match fragment with
    | .text s => s
    | .elapsed => elapsed)

/-- Words with a blank between each two. -/
def words (ws : List String) : String :=
  " ".intercalate ws

/-- A row of words on a line behind four blanks. -/
def paddedLine (ws : List String) : Fragment :=
  .text (padded (words ws))

/-- A line of its own, without blanks in front. -/
def plainLine (s : String) : Fragment :=
  .text (s ++ "\n")

def black (coloured : Bool) : String → String :=
  Style.paint ⟨.black, false⟩ coloured

def red (coloured : Bool) : String → String :=
  Style.paint ⟨.red, false⟩ coloured

def green (coloured : Bool) : String → String :=
  Style.paint ⟨.green, false⟩ coloured

def yellow (coloured : Bool) : String → String :=
  Style.paint ⟨.yellow, false⟩ coloured

def blue (coloured : Bool) : String → String :=
  Style.paint ⟨.blue, false⟩ coloured

def cyan (coloured : Bool) : String → String :=
  Style.paint ⟨.cyan, false⟩ coloured

def white (coloured : Bool) : String → String :=
  Style.paint ⟨.white, false⟩ coloured

def boldGreen (coloured : Bool) : String → String :=
  Style.paint ⟨.green, true⟩ coloured

def boldYellow (coloured : Bool) : String → String :=
  Style.paint ⟨.yellow, true⟩ coloured

def boldBlue (coloured : Bool) : String → String :=
  Style.paint ⟨.blue, true⟩ coloured

def boldCyan (coloured : Bool) : String → String :=
  Style.paint ⟨.cyan, true⟩ coloured

def boldWhite (coloured : Bool) : String → String :=
  Style.paint ⟨.white, true⟩ coloured

end ArchiveOverlay.Report
