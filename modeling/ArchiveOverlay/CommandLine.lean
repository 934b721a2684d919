import ArchiveOverlay.Command.Run

namespace ArchiveOverlay.CommandLine

/-- The options of the tool. -/
inductive Opt where
  | profile
  | archive
  | verbose
  | help
  | version
  | json
  | summary
  | output
  | outputDir
  | quiet
  deriving DecidableEq, Repr

namespace Opt

def short? : Opt → Option Char
  | profile => some 'p'
  | archive => some 'a'
  | verbose => some 'v'
  | help => some 'h'
  | version => some 'V'
  | output | outputDir => some 'o'
  | quiet => some 'q'
  | json | summary => none

def long : Opt → String
  | profile => "profile"
  | archive => "archive"
  | verbose => "verbose"
  | help => "help"
  | version => "version"
  | json => "json"
  | summary => "summary"
  | output => "output"
  | outputDir => "output-dir"
  | quiet => "quiet"

def takesValue : Opt → Bool
  | profile | archive | output | outputDir => true
  | _ => false

def isRepeatable : Opt → Bool
  | archive => true
  | _ => false

def accepts (o : Opt) (value : String) : Bool :=
  match o with
  | archive => (ArchiveSource.parse? value).isSome
  | _ => true

end Opt

/-- What may stand at one depth of the command line. -/
structure Level where
  options : List Opt
  /-- Names that open the next level. -/
  names : List String
  /-- The largest number of other words. -/
  words : Nat

/-- Options that every level has. -/
def everywhere : List Opt :=
  [.profile, .archive, .verbose, .help]

def Level.top : Level :=
  ⟨.version :: everywhere,
    ["ls", "resolve", "conflicts", "extract", "export", "mounts", "config", "help"], 0⟩

def Level.config : Level :=
  ⟨everywhere, ["show", "set-profile", "set-verify", "help"], 0⟩

/-- The level of a command that has no further ones. -/
def Level.ofCommand (name : String) : Level :=
  match name with
  | "ls" | "resolve" | "set-profile" | "set-verify" => ⟨everywhere, [], 1⟩
  | "conflicts" => ⟨.json :: .summary :: everywhere, [], 0⟩
  | "extract" => ⟨.output :: everywhere, [], 1⟩
  | "export" => ⟨.outputDir :: .quiet :: everywhere, [], 1⟩
  | _ => ⟨everywhere, [], 0⟩

/-- Why there is nothing to carry out. -/
inductive Stop where
  | version
  | help
  /-- The arguments cannot be understood. -/
  | misuse
  deriving DecidableEq, Repr

/-- What has been given at one level; an option without a value has the empty one. -/
structure Given where
  options : List (Opt × String)
  words : List String

namespace Given

def nothing : Given :=
  ⟨[], []⟩

def values (g : Given) (o : Opt) : List String :=
  (g.options.filter (·.1 = o)).map (·.2)

def value? (g : Given) (o : Opt) : Option String :=
  (g.values o).head?

def has (g : Given) (o : Opt) : Bool :=
  (g.value? o).isSome

/-- One more option. Most options may be given only once. -/
def withOption (g : Given) (o : Opt) (value : String) : Except Stop Given :=
  match o with
  | .version => .error .version
  | .help => .error .help
  | _ =>
    if (g.has o && !o.isRepeatable) || !o.accepts value then .error .misuse
    else .ok { g with options := g.options ++ [(o, value)] }

/-- More words, if there is room for them. -/
def withWords (g : Given) (level : Level) (words : List String) : Except Stop Given :=
  if g.words.length + words.length ≤ level.words then .ok { g with words := g.words ++ words }
  else .error .misuse

end Given

/-- A part of an argument that starts with a dash. -/
inductive Part where
  | option (o : Opt) (value : String)
  /-- An option whose value is the next argument. -/
  | waiting (o : Opt)
  | unknown

/-- The parts of an argument behind one dash: options of one letter, the last perhaps with its
value. -/
def Level.letters (level : Level) : List Char → List Part
  | [] => []
  | c :: rest =>
    match level.options.find? (·.short? = some c) with
    | none => [.unknown]
    | some o =>
      if o.takesValue then
        match rest with
        | [] => [.waiting o]
        | '=' :: value => [.option o (String.ofList value)]
        | value => [.option o (String.ofList value)]
      else .option o "" :: level.letters rest

/-- The part of an argument behind two dashes. -/
def Level.spelled (level : Level) (name : List Char) : Part :=
  let hasValue := name.contains '='
  let value := String.ofList ((name.dropWhile (· ≠ '=')).drop 1)
  match level.options.find? (·.long.toList = name.takeWhile (· ≠ '=')) with
  | none => .unknown
  | some o =>
    if o.takesValue then if hasValue then .option o value else .waiting o
    else if hasValue then .unknown
    else .option o ""

/-- An argument on its own. -/
inductive Argument where
  /-- The rest are words. -/
  | separator
  | parts (ps : List Part)
  | word

def Level.argument (level : Level) (arg : String) : Argument :=
  match arg.toList with
  | ['-', '-'] => .separator
  | '-' :: '-' :: name => .parts [level.spelled name]
  | ['-'] => .word
  | '-' :: letters => .parts (level.letters letters)
  | _ => .word

/-- Takes the parts of one argument in, and tells which option waits for its value. -/
def Given.withParts (g : Given) : List Part → Except Stop (Given × Option Opt)
  | [] => .ok (g, none)
  | .unknown :: _ => .error .misuse
  | .waiting o :: _ => .ok (g, some o)
  | .option o value :: ps => do
    let g ← g.withOption o value
    g.withParts ps

/-- Reads the arguments of one level, up to the name that opens the next one. The name comes with
the arguments behind it. A value that looks like an option is none. -/
def Level.read (level : Level) (g : Given) :
    List String → Except Stop (Given × Option (String × List String))
  | [] => .ok (g, none)
  | arg :: rest =>
    if level.names.contains arg then .ok (g, some (arg, rest))
    else
      match level.argument arg with
      | .separator => (g.withWords level rest).map (·, none)
      | .word =>
        match g.withWords level [arg] with
        | .error stop => .error stop
        | .ok g => level.read g rest
      | .parts ps =>
        match g.withParts ps, rest with
        | .error stop, _ => .error stop
        | .ok (g, none), rest => level.read g rest
        | .ok (_, some _), [] => .error .misuse
        | .ok (g, some o), value :: rest =>
          match level.argument value with
          | .word =>
            match g.withOption o value with
            | .error stop => .error stop
            | .ok g => level.read g rest
          | _ => .error .misuse

/-- The invocation of a command. For options that every level has, the innermost level that gives
them counts. -/
def invocation (innermostFirst : List Given) (command : Command) : Invocation where
  profile := innermostFirst.findSome? (·.value? .profile)
  archives :=
    (((innermostFirst.map (·.values .archive)).find? (!·.isEmpty)).getD []).filterMap
      ArchiveSource.parse?
  command := command

def sessionCommand? (name : String) (g : Given) : Option SessionCommand :=
  match name, g.words with
  | "ls", words => some (.list (words.headD ""))
  | "resolve", [path] => some (.resolve path)
  | "conflicts", _ => some (.conflicts (g.has .json) (g.has .summary))
  | "extract", [path] => some (.extract path (g.value? .output))
  | "export", words =>
    some (.exportTree (words.headD "") ((g.value? .outputDir).getD "exported") (g.has .quiet))
  | "mounts", _ => some .mounts
  | _, _ => none

def settingsCommand? (name : String) (g : Given) : Option SettingsCommand :=
  match name, g.words with
  | "show", _ => some .report
  | "set-profile", [path] => some (.setProfile path)
  | "set-verify", ["true"] => some (.setVerify true)
  | "set-verify", ["false"] => some (.setVerify false)
  | _, _ => none

/-- Reads the arguments behind a name that opens the innermost level. -/
def readCommand {α : Type} (command? : String → Given → Option α) (name : String)
    (rest : List String) : Except Stop (Given × α) := do
  if name = "help" then throw .help
  let (g, _) ← (Level.ofCommand name).read .nothing rest
  match command? name g with
  | some command => return (g, command)
  | none => throw .misuse

/-- Reads the arguments of the tool. -/
def parse (args : List String) : Except Stop Invocation := do
  let (top, next?) ← Level.top.read .nothing args
  match next? with
  | none => throw .misuse
  | some ("config", rest) =>
    let (config, next?) ← Level.config.read .nothing rest
    match next? with
    | none => return invocation [config, top] (.onSettings .report)
    | some (name, rest) =>
      let (g, command) ← readCommand settingsCommand? name rest
      return invocation [g, config, top] (.onSettings command)
  | some (name, rest) =>
    let (g, command) ← readCommand sessionCommand? name rest
    return invocation [g, top] (.onArchives command)

/-- What a run of the tool leaves behind and shows. -/
structure Reply where
  disk : Disk
  exitCode : Nat
  transcript : Report.Transcript
  error : Option CommandError

def versionText : String :=
  "zvfs 0.1.0\n"

def usage : String :=
  String.join
    ["Usage: zvfs [OPTIONS] <COMMAND>\n",
      "\n",
      "Commands:\n",
      "  ls         List the merged contents of a directory\n",
      "  resolve    Show which archive provides a file and which archives it shadows\n",
      "  conflicts  List every path provided by more than one archive\n",
      "  extract    Extract the winning version of a single file\n",
      "  export     Extract the merged view of a directory\n",
      "  mounts     Show the mounted archives in priority order\n",
      "  config     Show or change the tool configuration\n",
      "\n",
      "Options:\n",
      "  -p, --profile <PROFILE>   Mount profile (TOML) listing the archives to mount\n",
      "  -a, --archive <ARCHIVES>  Archive to mount, as <path> or <path>@<priority>\n",
      "  -v, --verbose             Enable debug logging\n",
      "  -h, --help                Print help\n",
      "  -V, --version             Print version\n"]

/-- Runs the tool. The exit code is 1 if the command fails and 2 if there is none. -/
def run (args : List String) (d : Disk) (env : Surroundings) : Reply :=
  match parse args with
  | .error .version => ⟨d, 0, [.text versionText], none⟩
  | .error .help => ⟨d, 0, [.text usage], none⟩
  | .error .misuse => ⟨d, 2, [], none⟩
  | .ok invocation =>
    let outcome := invocation.run d env
    match outcome.result with
    | .ok () => ⟨outcome.disk, 0, outcome.transcript, none⟩
    | .error e => ⟨outcome.disk, 1, outcome.transcript, some e⟩

end ArchiveOverlay.CommandLine
