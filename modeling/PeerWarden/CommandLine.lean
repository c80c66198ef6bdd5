import PeerWarden.Config.Printer
import PeerWarden.Config.Reader
import PeerWarden.Fault
import PeerWarden.Health.History
import PeerWarden.Telemetry.Endpoint

/-!
# The Command Line

What the arguments ask for, and what follows from them and from the configuration file: the program either
ends with some output, or it runs until it is interrupted.

Options stand in front of the command, and each of them at most once. `--quiet` asks for fewer messages in
the log and changes nothing that is printed.
-/

namespace PeerWarden.CommandLine

/-! ## Arguments -/

/-- What the program can do. -/
inductive Command where
  /-- Runs both cycles until the program is interrupted. -/
  | run
  /-- Loads the configuration and checks its rules. -/
  | checkConfig
  /-- Prints the default configuration. -/
  | defaultConfig
  deriving DecidableEq, Repr

/-- The command with a name. -/
def Command.ofName? : String → Option Command
  | "run" => some .run
  | "check-config" => some .checkConfig
  | "default-config" => some .defaultConfig
  | _ => none

/-- What the arguments ask for. -/
inductive Demand where
  | execute (command : Command) (path : String)
  | help
  | version
  /-- The arguments make no sense. -/
  | unclear
  deriving DecidableEq, Repr

/-- The configuration file that is looked for when no option names one. -/
def defaultPath : String := "config.toml"

/-- The options that were given so far. -/
structure Options where
  path? : Option String := none
  quiet : Bool := false

namespace Options

/-- The path of the configuration file. -/
def path (o : Options) : String := o.path?.getD defaultPath

/-- Notes a path, unless there is one already. -/
def withPath? (o : Options) (path : String) : Option Options :=
  if o.path?.isSome then none else some { o with path? := some path }

/-- Notes the wish for quiet, unless it was noted already. -/
def withQuiet? (o : Options) : Option Options := if o.quiet then none else some { o with quiet := true }

end Options

/-- An argument, by its form. -/
inductive Argument where
  /-- Ends the options. -/
  | separator
  | quiet
  | help
  | version
  /-- Names the configuration file, in this argument or in the next one. -/
  | config (path? : Option String)
  | command (name : String)
  | unknown
  deriving DecidableEq, Repr

namespace Argument

/-- The form of an option with one dash. A path may follow its letter, with or without an equals sign. -/
def ofShort : List Char → Argument
  | ['c'] => config none
  | 'c' :: '=' :: path => config (some (String.ofList path))
  | 'c' :: path => config (some (String.ofList path))
  | 'h' :: _ => help
  | 'V' :: _ => version
  | _ => unknown

/-- The form of an option with two dashes. -/
def ofLong (name : List Char) : Argument :=
  if name = "quiet".toList then quiet
  else if name = "help".toList then help
  else if name = "version".toList then version
  else if name = "config".toList then config none
  else if "config=".toList.isPrefixOf name then config (some (String.ofList (name.drop "config=".length)))
  else unknown

/-- The form of an argument. A single dash is no option. -/
def ofString (s : String) : Argument :=
  match s.toList with
  | ['-', '-'] => separator
  | '-' :: '-' :: name => ofLong name
  | '-' :: c :: rest => ofShort (c :: rest)
  | _ => command s

/-- Whether an argument can be the value of the option in front of it. -/
def isValue (s : String) : Bool :=
  match ofString s with
  | command _ => true
  | _ => false

end Argument

/-- What is asked for behind a command. A command has no options but the one for help. -/
def Demand.ofRest (demand : Demand) : List String → Demand
  | [] => demand
  | arg :: rest =>
    match Argument.ofString arg with
    | .separator => if rest.isEmpty then demand else .unclear
    | .help => .help
    | _ => .unclear

/-- What is asked for behind the command `help`: at most the name of one command. -/
def Demand.ofHelp : List String → Demand
  | [] => .help
  | [name] => if (Command.ofName? name).isSome ∨ name = "help" then .help else .unclear
  | _ => .unclear

/-- What the arguments ask for, after some options. Without a command the program runs. -/
def Demand.ofArguments (o : Options) : List String → Demand
  | [] => .execute .run o.path
  | arg :: rest =>
    match Argument.ofString arg with
    | .separator => if rest.isEmpty then .execute .run o.path else .unclear
    | .quiet => o.withQuiet?.elim .unclear (ofArguments · rest)
    | .help => .help
    | .version => .version
    | .config (some path) => (o.withPath? path).elim .unclear (ofArguments · rest)
    | .config none =>
      match rest with
      | path :: rest =>
        if Argument.isValue path then (o.withPath? path).elim .unclear (ofArguments · rest) else .unclear
      | [] => .unclear
    | .command name =>
      match Command.ofName? name with
      | some command => (Demand.execute command o.path).ofRest rest
      | none => if name = "help" then .ofHelp rest else .unclear
    | .unknown => .unclear

/-! ## Files -/

/-- What is found under a path. -/
inductive File where
  | absent
  | directory
  /-- There is something that must not be read. -/
  | refused (cause : String)
  | contents (bytes : ByteArray)

/-- Why the program cannot go on. -/
inductive Obstacle where
  | missingFile (path : String)
  | unreadableFile (path cause : String)
  | badConfig (defect : Config.Defect)
  | badEndpoint (bind : String) (defect : Endpoint.Defect)
  /-- The program breaks off before it runs. -/
  | crashed (fault : Fault)
  /-- The machine cannot give so many bytes. -/
  | outOfMemory (bytes : Nat)

namespace Obstacle

/-- What is reported about an obstacle. -/
def message : Obstacle → String
  | missingFile path => s!"config file {path} does not exist"
  | unreadableFile path _ => s!"couldn't read config file {path}"
  | badConfig defect => defect.message
  | badEndpoint bind defect => s!"could not start metrics server on {bind}: {defect.message}"
  | crashed fault => fault.message
  | outOfMemory bytes => s!"memory allocation of {bytes} bytes failed"

/-- What lies behind an obstacle, where that is told apart. -/
def cause? : Obstacle → Option String
  | unreadableFile _ cause => some cause
  | badConfig defect => defect.cause?
  | _ => none

end Obstacle

/-- The configuration at a path. If the default path leads nowhere, the default configuration is taken. -/
def loadConfig (files : String → File) (path : String) : Except Obstacle Config :=
  match files path with
  -- Only the default path may lead nowhere.
  | .absent => if path = defaultPath then .ok {} else .error (.missingFile path)
  | .directory => .error (.unreadableFile path "Is a directory (os error 21)")
  | .refused cause => .error (.unreadableFile path cause)
  | .contents bytes =>
    match String.fromUTF8? bytes with
    | none => .error (.unreadableFile path "stream did not contain valid UTF-8")
    | some text => (Config.load text).mapError .badConfig

/-! ## Checks before the start -/

/-- Refuses a configuration whose metrics cannot be served. -/
def checkEndpoint (c : Config.Metrics) : Except Obstacle Unit :=
  match if c.enabled then Endpoint.defect? c.bind else none with
  | some defect => .error (.badEndpoint c.bind defect)
  | none => .ok ()

/-- The memory of a machine, in bytes: 32 GiB. -/
def machineBytes : Nat := 34359738368

/-- Refuses a configuration whose history has no room. -/
def checkRoom (c : Config.Congestion) : Except Obstacle Unit :=
  let bytes := History.bytes c.historyCapacity
  if !History.hasRoom c.historyCapacity then .error (.crashed .historyTooLarge)
  else if machineBytes < bytes then .error (.outOfMemory bytes)
  else .ok ()

/-! ## Outcomes -/

/-- How the program ends. -/
structure Outcome where
  /-- A program that is aborted has none. -/
  exitCode : Option Nat := some 0
  stdout : String := ""
  stderr : String := ""
  deriving DecidableEq, Repr

namespace Outcome

/-- The end at an obstacle that is reported with its cause. -/
def reported (o : Obstacle) : Outcome :=
  let cause := match o.cause? with
    | none => ""
    | some cause => "\nCaused by:\n    " ++ cause ++ "\n"
  { exitCode := some 1, stderr := "Error: " ++ o.message ++ "\n" ++ cause }

/-- What is added to the report of a sudden end. -/
def backtraceHint : String := "note: run with `RUST_BACKTRACE=1` environment variable to display a backtrace\n"

/-- The end at an obstacle. -/
def ofObstacle : Obstacle → Outcome
  | .crashed fault => { exitCode := some 101, stderr := fault.message ++ "\n" ++ backtraceHint }
  | .outOfMemory bytes =>
    { exitCode := none, stderr := (Obstacle.outOfMemory bytes).message ++ "\n" ++ backtraceHint }
  | o => reported o

/-- The end when the arguments make no sense. -/
def unclear : Outcome := { exitCode := some 2, stderr := "error: the arguments make no sense, try --help\n" }

/-- The end after a running program was interrupted. -/
def interrupted : Outcome := {}

end Outcome

/-- What follows from the arguments. -/
inductive Launch where
  | finished (outcome : Outcome)
  /-- The cycles run until the program is interrupted. -/
  | running (config : Config)

/-- The text for `--help`. -/
def helpText : String :=
  "Usage: peerguard [-c PATH] [--quiet] [run | check-config | default-config]\n"

/-- The text for `--version`. -/
def versionText : String := "peerguard 0.1.0\n"

/-- Executes a command with a configuration file. -/
def execute (files : String → File) (path : String) : Command → Except Obstacle Launch
  | .defaultConfig => return .finished { stdout := (Config.print? {}).getD "" }
  | .checkConfig => do
    let _ ← loadConfig files path
    return .finished { stdout := s!"✅ configuration OK ({path})\n" }
  | .run => do
    let config ← loadConfig files path
    checkRoom config.congestion
    checkEndpoint config.metrics
    return .running config

/-- What follows from a demand. -/
def launch (files : String → File) : Demand → Launch
  | .execute command path =>
    match execute files path command with
    | .ok l => l
    | .error o => .finished (.ofObstacle o)
  | .help => .finished { stdout := helpText }
  | .version => .finished { stdout := versionText }
  | .unclear => .finished .unclear

/-- What follows from the arguments. -/
def launchWith (files : String → File) (args : List String) : Launch := launch files (.ofArguments {} args)

end PeerWarden.CommandLine
