import ArchiveOverlay.CommandLine
import ArchiveOverlay.Disk.Difference
import ArchiveOverlay.Report.Duration

/-!
The tool on a real disk. Files that the arguments name are found by themselves. What is in a
directory is told on standard input, one path to a line, where the path of a directory ends in a
slash.
-/

namespace ArchiveOverlay.Tool

/-- Takes in a file, if there is one to be read. -/
def take (d : Disk) (path : String) : IO Disk :=
  try
    return d.withFile path (← IO.FS.readBinFile path)
  catch _ => return d

/-- Takes in what standard input lists. -/
partial def takeListed (input : IO.FS.Stream) (d : Disk) : IO Disk := do
  let line ← input.getLine
  if line.isEmpty then return d
  let path := String.ofList (line.toList.filter (· ≠ '\n'))
  if Disk.endsInSlash path then takeListed input (d.withDirectory path)
  else takeListed input (← take d path)

/-- The disk as far as an invocation can see it. -/
def survey (invocation : Invocation) (settingsPath workingDirectory : String) : IO Disk := do
  let d ← take (.bare workingDirectory) settingsPath
  let settings := Settings.load d settingsPath
  let named :=
    match invocation.command with
    | .onSettings (.setProfile path) => some path
    | _ => invocation.profile
  let d ← (named.toList ++ settings.defaultProfile.toList).foldlM take d
  match invocation.command with
  | .onSettings _ => return d
  | .onArchives _ =>
    let profile := Session.profilePath? settings invocation.profile invocation.archives
    let listed := (profile.bind fun path => (Profile.load d path).toOption).getD .empty
    let d ← ((listed.archives ++ invocation.archives).map (·.path)).foldlM take d
    takeListed (← IO.getStdin) d

def apply : Disk.Difference → IO Unit
  | .directory path => IO.FS.createDirAll path
  | .file path content => IO.FS.writeBinFile path content
  | .missing path => IO.FS.removeFile path

def complain (e : CommandError) : IO Unit := do
  let help := (e.help?.map fun s => "  help: " ++ s ++ "\n").getD ""
  IO.eprint ("Error: " ++ e.code?.getD "" ++ "\n\n  × " ++ e.message ++ "\n" ++ help)

/-- Runs the tool and returns its exit code. -/
def run (args : List String) : IO UInt32 := do
  let start ← IO.monoNanosNow
  let workingDirectory := toString (← IO.currentDir)
  let program := toString (← IO.appPath)
  let settingsPath := HostPath.join ((HostPath.parent? program).getD "") "config.toml"
  let output ← IO.getStdout
  let coloured ← output.isTty
  let d ←
    match CommandLine.parse args with
    | .ok invocation => survey invocation settingsPath workingDirectory
    | .error _ => pure (.bare workingDirectory)
  let reply := CommandLine.run args d ⟨settingsPath, coloured⟩
  (Disk.differences d reply.disk).forM apply
  let stop ← IO.monoNanosNow
  output.putStr (reply.transcript.render (Report.duration (stop - start)))
  match reply.error with
  | some e => complain e
  | none => if reply.exitCode = 2 then IO.eprint CommandLine.usage
  return reply.exitCode.toUInt32

end ArchiveOverlay.Tool

def main (args : List String) : IO UInt32 :=
  ArchiveOverlay.Tool.run args
