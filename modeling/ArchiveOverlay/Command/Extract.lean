import ArchiveOverlay.Command.Inspect
import ArchiveOverlay.Export

namespace ArchiveOverlay

open Report

/-- What a command leaves behind. -/
structure CommandOutcome where
  disk : Disk
  transcript : Transcript
  result : Except CommandError Unit

/-- A command that does not touch the disk. -/
def CommandOutcome.ofTranscript (d : Disk) : Except CommandError Transcript → CommandOutcome
  | .ok transcript => ⟨d, transcript, .ok ()⟩
  | .error e => ⟨d, [], .error e⟩

/-- Writes the winning version of a file, by default under its own name. -/
def Session.extract (s : Session) (d : Disk) (coloured : Bool) (path : String)
    (output : Option String) : CommandOutcome :=
  match s.table.overlay.resolve path with
  | .error e => ⟨d, [], .error (.failed e)⟩
  | .ok r =>
    let output := output.getD r.entry.display.fileName
    let head := paddedLine
      [boldBlue coloured "📦 Extracting:", boldCyan coloured r.entry.display.text,
        black coloured "from", green coloured r.winner.name]
    match r.extractToFile d s.verify false output with
    | (d, .error e) => ⟨d, [head], .error (.failed e)⟩
    | (d, .ok written) =>
      let done := paddedLine
        [boldGreen coloured "✅ Wrote", boldWhite coloured output,
          black coloured ("(" ++ size written ++ ")")]
      ⟨d, [head, done], .ok ()⟩

def Report.progressLine (coloured : Bool) (p : ExportProgress) : Fragment :=
  paddedLine
    ["  " ++ black coloured ("[" ++ Text.decimal p.current ++ "/" ++ Text.decimal p.total ++ "]"),
      p.currentFile]

def Report.failureLine (coloured : Bool) (f : ExportFailure) : Fragment :=
  paddedLine
    ["  " ++ red coloured "✗", white coloured f.path.text, red coloured f.error.message]

/-- The last line of an export, with the time that it has taken. -/
def Report.completeLine (coloured : Bool) (s : ExportSummary) : Transcript :=
  let style : Style := ⟨.black, false⟩
  [.text ("    " ++
      words
        [boldGreen coloured "✅ Export complete!",
          white coloured (Text.decimal s.filesWritten ++ " files, " ++ size s.bytesWritten),
          (if coloured then style.opening else "") ++ "in "]),
    .elapsed,
    plainLine (if coloured then reset else "")]

/-- Writes the merged view of a directory. -/
def Session.exportTree (s : Session) (d : Disk) (coloured : Bool) (dir outputDir : String)
    (quiet : Bool) : CommandOutcome :=
  let head :=
    [paddedLine [boldBlue coloured "📤 Exporting:", boldCyan coloured (shownDirectory dir)],
      paddedLine [yellow coloured "📁 Exporting to:", boldWhite coloured outputDir]]
  let run := s.table.overlay.exportTree d (.plain s.verify) () .halves dir outputDir
  let progress := if quiet then [] else run.progress.map (progressLine coloured)
  match run.result with
  | .error e => ⟨run.disk, head ++ progress, .error (.failed e)⟩
  | .ok summary =>
    let shown := head ++ progress ++ summary.failures.map (failureLine coloured)
    if summary.failures.isEmpty then ⟨run.disk, shown ++ completeLine coloured summary, .ok ()⟩
    else
      let total := summary.filesWritten + summary.failures.length
      ⟨run.disk, shown, .error (.exportIncomplete summary.failures.length total)⟩

end ArchiveOverlay
