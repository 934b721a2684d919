import ArchiveOverlay.Command.Configure

namespace ArchiveOverlay

/-- What can be asked of mounted archives. -/
inductive SessionCommand where
  | list (dir : String)
  | resolve (path : String)
  | conflicts (asJson summaryOnly : Bool)
  | extract (path : String) (output : Option String)
  | exportTree (dir outputDir : String) (quiet : Bool)
  | mounts
  deriving DecidableEq, Repr

/-- What can be asked of the settings. -/
inductive SettingsCommand where
  | report
  | setProfile (path : String)
  | setVerify (enabled : Bool)
  deriving DecidableEq, Repr

inductive Command where
  | onArchives (c : SessionCommand)
  | onSettings (c : SettingsCommand)
  deriving DecidableEq, Repr

/-- A command with the archives to mount for it. -/
structure Invocation where
  profile : Option String
  archives : List ArchiveSource
  command : Command
  deriving DecidableEq, Repr

/-- Where the settings are kept, and whether reports are coloured. -/
structure Surroundings where
  settingsPath : String
  coloured : Bool

def SessionCommand.run (c : SessionCommand) (s : Session) (d : Disk) (coloured : Bool) :
    CommandOutcome :=
  match c with
  | .list dir => .ofTranscript d (s.list coloured dir)
  | .resolve path => .ofTranscript d (s.resolve coloured path)
  | .conflicts asJson summaryOnly => ⟨d, s.conflicts coloured asJson summaryOnly, .ok ()⟩
  | .extract path output => s.extract d coloured path output
  | .exportTree dir outputDir quiet => s.exportTree d coloured dir outputDir quiet
  | .mounts => ⟨d, s.mounts coloured, .ok ()⟩

def SettingsCommand.run (c : SettingsCommand) (d : Disk) (env : Surroundings) : CommandOutcome :=
  match c with
  | .report => ⟨d, Settings.report d env.settingsPath env.coloured, .ok ()⟩
  | .setProfile path => Settings.setProfile d env.settingsPath env.coloured path
  | .setVerify enabled => Settings.setVerify d env.settingsPath env.coloured enabled

/-- Archives are only mounted for a command that needs them. -/
def Invocation.run (i : Invocation) (d : Disk) (env : Surroundings) : CommandOutcome :=
  match i.command with
  | .onSettings c => c.run d env
  | .onArchives c =>
    match Session.start d (Settings.load d env.settingsPath) i.profile i.archives with
    | .error e => ⟨d, [], .error e⟩
    | .ok s => c.run s d env.coloured

end ArchiveOverlay
