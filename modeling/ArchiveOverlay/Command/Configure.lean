import ArchiveOverlay.Command.Extract

namespace ArchiveOverlay.Settings

open Report

/-- The settings in a file; without a readable file they are those at first. -/
def load (d : Disk) (path : String) : Settings :=
  match (d.fileContent path).toOption.bind String.fromUTF8? with
  | some text => .parse text
  | none => .initial

def save (d : Disk) (path : String) (s : Settings) : Except CommandError Disk :=
  (d.writeFile path s.render.toUTF8).mapError .settingsNotSaved

/-- Changes the settings in a file. -/
def update (d : Disk) (path : String) (change : Settings → Settings) : Except CommandError Disk :=
  save d path (change (load d path))

/-- All settings, and whether the default profile can be read. -/
def report (d : Disk) (settingsPath : String) (coloured : Bool) : Transcript :=
  let s := load d settingsPath
  let profile :=
    match s.defaultProfile with
    | some path =>
      let status := if (Profile.load d path).isOk then green coloured "✓" else red coloured "✗"
      [path, status]
    | none => [yellow coloured "(not set)"]
  [plainLine "",
    plainLine ("  " ++ words [white coloured "config_file:", settingsPath]),
    plainLine ("  " ++ words (white coloured "default_profile:" :: profile)),
    plainLine ("  " ++
      words [white coloured "verify_checksums:", if s.verifyChecksums then "true" else "false"]),
    plainLine ""]

/-- Makes a profile the default. It has to be readable, and is remembered by its absolute path. -/
def setProfile (d : Disk) (settingsPath : String) (coloured : Bool) (path : String) :
    CommandOutcome :=
  match Profile.load d path with
  | .error e => ⟨d, [], .error e⟩
  | .ok _ =>
    let path := (d.canonical path).toOption.getD path
    match update d settingsPath fun s => { s with defaultProfile := some path } with
    | .error e => ⟨d, [], .error e⟩
    | .ok d =>
      ⟨d,
        [plainLine (boldGreen coloured "✓ Default profile set successfully!"),
          plainLine "",
          plainLine ("  " ++ words [boldWhite coloured "Profile:", green coloured path])],
        .ok ()⟩

def setVerify (d : Disk) (settingsPath : String) (coloured enabled : Bool) : CommandOutcome :=
  match update d settingsPath fun s => { s with verifyChecksums := enabled } with
  | .error e => ⟨d, [], .error e⟩
  | .ok d =>
    let state := if enabled then "enabled" else "disabled"
    ⟨d, [plainLine (boldGreen coloured ("✓ Checksum verification " ++ state))], .ok ()⟩

end ArchiveOverlay.Settings
