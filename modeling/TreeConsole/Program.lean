import TreeConsole.Editor.External
import TreeConsole.Settings.Arguments
import TreeConsole.Shell
import TreeConsole.Telemetry.Journal
import TreeConsole.Tree.Client
import TreeConsole.Tree.Seed

/-!
# The program

A whole run of the program, from its command line, its input and the files on the disk to what it
writes and how it ends. The order of the steps decides which of two faults is reported: the command
line, the settings, the seed, the telemetry, and then the commands.

A run is a function of what is laid out for it. Its steps are there one by one as well, for whoever
reads the input line by line.
-/

namespace TreeConsole

/-- The name of the program, which is also the part that speaks in its logs. -/
def programName : String := "treesh"

/-- What a run is given. -/
structure Invocation where
  /-- The arguments, the name of the program left out. -/
  arguments : List String
  input : Bytes
  disk : Disk
  /-- The variables of the environment that name an editor. -/
  visual : Option String
  editor : Option String
  /-- The programs that can be started. -/
  programs : Programs
  clock : Clock
  stamps : Nat → Stamp

/-- What a run leaves behind. -/
structure RunReport where
  /-- The exit status; a run that goes on for ever has none. -/
  status : Option Nat
  transcript : List Event
  /-- What was written for the operator. -/
  complaints : List String
  disk : Disk
  deriving Inhabited

namespace RunReport

/-- What was written for the user. -/
def output (r : RunReport) : Bytes := r.transcript.flatMap Event.output

/-- The report of a run that only writes a text. -/
def saying (v : Invocation) (status : Nat) (text : String) (complaints : List String) : RunReport :=
  { status := some status, transcript := [.wrote (Utf8.ofText text)], complaints,
    disk := v.disk }

end RunReport

namespace Program

/-! ### Texts of the program -/

/-- The version of the program. -/
def versionText : String := programName ++ " 0.1.0\n"

/-- The options with what they are for. -/
def optionLines : List (String × String) :=
  [("      --config <CONFIG>", "TOML configuration file"),
    ("      --write", "Start with writes enabled"),
    ("      --seed <SEED>",
      "JSON document mapping node paths to payloads, loaded before the first command"),
    ("      --log-file <LOG_FILE>", "JSON-lines session log"),
    ("      --log-level <LOG_LEVEL>", "Minimum logged level (debug, info, warn, error)"),
    ("      --event-log <EVENT_LOG>", "Audit log receiving one event per change"),
    ("  -c, --command <COMMANDS>",
      "Runs this command instead of prompting; repeat to run several in order"),
    ("      --continue-on-error", "Keeps running `-c` commands after a failure"),
    ("  -h, --help", "Print help"),
    ("  -V, --version", "Print version")]

/-- The help of the program. -/
def helpText : String :=
  let column := (optionLines.map fun l => l.1.length).foldr max 0 + 2
  "Interactive shell for hierarchical key-value trees\n\nUsage: " ++ programName ++
    " [OPTIONS]\n\nOptions:\n" ++
    String.join (optionLines.map fun l =>
      String.ofList (Text.padded column l.1.toList) ++ l.2 ++ "\n")

/-- The failure that a command line of the wrong form is answered with. -/
def usageFailure : String := "error: unusable arguments"

/-! ### What a run starts with -/

/-- The settings of a run: those of a file, if one is named, under those of the command line. -/
def settingsOf (d : Disk) (a : Arguments) : Except Failure Settings :=
  match a.config with
  | none => .ok (Settings.override {} a.overrides)
  | some path =>
    match Settings.load d path with
    | .error e => .error (e.failure path)
    | .ok s => .ok (s.override a.overrides)

/-- The fields of a seed document. -/
def seedFields? (bytes : Bytes) : Option (List (String × Json)) :=
  match (Utf8.toText? bytes).bind Json.parse? with
  | some (.obj fields) => some fields
  | _ => none

/-- Why a seed cannot be had. -/
inductive SeedError where
  | unreadable
  | malformed
  | refused (error : NodeError)
  deriving DecidableEq, Repr

/-- What is said of a seed document, by its path. -/
def SeedError.failure (path : String) : SeedError → Failure
  | .unreadable => .of ("reading seed document " ++ path)
  | .malformed => .of ("parsing seed document " ++ path)
  | .refused e => (Failure.of e.message).within ("seeding from " ++ path)

/-- The tree of a seed document. -/
def loadSeed (clock : Clock) (d : Disk) (path : String) : Except SeedError Tree :=
  match d.read path with
  | .error _ => .error .unreadable
  | .ok bytes =>
    if (Utf8.toText? bytes).isNone then .error .unreadable
    else
      match seedFields? bytes with
      | none => .error .malformed
      | some fields =>
        match Tree.ofSeed clock fields with
        | .error e => .error (.refused e)
        | .ok t => .ok t

/-- The tree that a run starts with. -/
def treeOf (clock : Clock) (d : Disk) (a : Arguments) : Except Failure Tree :=
  match a.seed with
  | none => .ok (.empty clock)
  | some path => (loadSeed clock d path).mapError (SeedError.failure path)

/-- Does a step that may change a disk if something is there to do it with. -/
def withOptional {α : Type} (x : Option String) (d : Disk)
    (f : String → Disk → Except Failure (α × Disk)) : Except Failure (Option α × Disk) :=
  match x with
  | none => .ok (none, d)
  | some path => (f path d).map fun r => (some r.1, r.2)

/-- The telemetry that settings ask for, and the disk with its files. The folder of the audit file
is made before the log is opened. -/
def telemetryOf (stamps : Nat → Stamp) (s : Settings) (d : Disk) :
    Except Failure (Telemetry Journal × Disk) := do
  let level ← s.level.mapError fun e => .of e.message
  -- A folder made for the audit file stays when the log cannot be opened.
  let (publisher, d) ← withOptional s.eventPath d Journal.openPublisher
  let (log, d) ← (withOptional s.logPath d fun path => Journal.openLog path level).mapError
    fun f => f.within "initialising telemetry"
  return ({ module := programName, log, publisher, stamp := Journal.stamp stamps }, d)

/-! ### The run -/

/-- The state of a run. -/
abbrev State := Shell.State Tree Unit Unit Journal

/-- The shell of a run. -/
def shellOf (v : Invocation) (s : Settings) (telemetry : Telemetry Journal) :
    Shell Tree Unit Unit Journal where
  runner :=
    { client := Tree.client v.clock
      confirmer := Confirmer.onTerminal.onFirst
      editor := .external v.programs (Editor.ofEnvironment v.visual v.editor)
      telemetry := some telemetry }
  quitDefault := s.quitDefault

/-- The state that a run starts in. -/
def startOf (v : Invocation) (s : Settings) (t : Tree) (d : Disk) : State where
  desk := { store := t, session := .start s.readOnly, editor := () }
  asker := (.ofInput v.input, ())
  trail := .onDisk d 1
  complaints := []

/-- A run after everything but its lines. -/
structure Prepared where
  arguments : Arguments
  settings : Settings
  shell : Shell Tree Unit Unit Journal
  state : State

/-- Everything up to the lines of a run. -/
def prepare (v : Invocation) (a : Arguments) : Except Failure Prepared := do
  let settings ← settingsOf v.disk a
  let tree ← treeOf v.clock v.disk a
  let (telemetry, disk) ← telemetryOf v.stamps settings v.disk
  return {
    arguments := a
    settings
    shell := shellOf v settings telemetry
    state := startOf v settings tree disk }

/-- Whether a run is given its lines on the command line. -/
def Prepared.isScripted (p : Prepared) : Bool := !p.arguments.commands.isEmpty

/-- Runs the lines of the command line. -/
def Prepared.runScript (p : Prepared) (w : State) : Shell.Ended × State :=
  p.shell.runScript p.arguments.commands p.arguments.goOnAfterError w

/-- Introduces the server, unless the settings are against it. -/
def Prepared.introduce (p : Prepared) (w : State) : Shell.Ended × State :=
  if p.settings.banner then p.shell.printBanner w else (.ok (), w)

/-- What the shell of a run does: the lines of the command line, or else a conversation. -/
def Prepared.converse (p : Prepared) : Option Shell.Ended × State :=
  if p.isScripted then
    let r := p.runScript p.state
    (some r.1, r.2)
  else
    match p.introduce p.state with
    | (.error f, w) => (some (.error f), w)
    | (.ok _, w) => p.shell.interact w

/-- How a failure that ends the program is reported. -/
def complaint (f : Failure) : String := "Error: " ++ f.report

/-- The report of a run that came to a conversation. -/
def finish (ended : Option Shell.Ended) (w : State) : RunReport where
  status := ended.map fun
    | .ok _ => 0
    | .error _ => 1
  transcript := (Shell.terminal w).transcript
  complaints := w.complaints ++ match ended with
    | some (.error f) => [complaint f]
    | _ => []
  disk := w.trail.disk

/-- Runs the program. -/
def run (v : Invocation) : RunReport :=
  match Arguments.parse v.arguments with
  | .error .help => .saying v 0 helpText []
  | .error .version => .saying v 0 versionText []
  | .error _ => .saying v 2 "" [usageFailure]
  | .ok a =>
    match prepare v a with
    | .error f => .saying v 1 "" [complaint f]
    | .ok p => finish p.converse.1 p.converse.2

end Program
end TreeConsole
