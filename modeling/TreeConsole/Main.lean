import Std.Time.DateTime.Timestamp
import TreeConsole.Main.SmallProgram
import TreeConsole.Program

/-!
# The command

The program with a real terminal and real files. All decisions are made by `Program`: what is here
reads files before they are needed, asks the terminal for a line when a step comes to the end of
what was typed so far and does the step again with that line, and puts what a step wrote where it
belongs. How wide the real terminal is it does not know.
-/

namespace TreeConsole.Console

/-! ### Files -/

/-- What is really at a path. -/
def probe (path : String) : IO (Option DiskItem) := do
  try
    let real ← IO.FS.realPath path
    if ← real.isDir then return some .folder
    return some (.file (← IO.FS.readBinFile real).toList)
  catch _ => return none

/-- A place as a path from the root. -/
def pathOf (place : Place) : String := "/" ++ "/".intercalate place

/-- A disk with what is really there on the way to a path. -/
def load (d : Disk) (path : String) : IO Disk := do
  let parts := d.start path ++ Disk.pathParts path
  let mut disk := d
  for i in List.range parts.length do
    match disk.follow [] (parts.take (i + 1)) with
    | .error _ => return disk
    | .ok place =>
      if (Disk.fixture? place).isNone then
        if let some item ← probe (pathOf place) then
          disk := disk.put place item
  return disk

/-- A disk with what is really there on the way to some paths. -/
def loadAll (d : Disk) (paths : List (Option String)) : IO Disk :=
  (paths.filterMap id).foldlM load d

/-- Adds bytes to a real file. -/
def append (path : String) (bytes : Bytes) : IO Unit := do
  let handle ← IO.FS.Handle.mk path .append
  handle.write ⟨bytes.toArray⟩

/-- Adds to the real files what they lack. -/
def save (before after : Disk) : IO Unit := do
  for (place, item) in after.items.reverse do
    let path := pathOf place
    match before.item? place, item with
    | some (.file old), .file new =>
      if old.length < new.length then append path (new.drop old.length)
    | none, .file new => append path new
    | none, .folder => IO.FS.createDirAll path
    | _, _ => pure ()

/-! ### The terminal -/

/-- Reads a line from the terminal; no bytes are its end. -/
partial def readLine (input : IO.FS.Stream) (line : Bytes) : IO Bytes := do
  let chunk := (← input.read 1).toList
  if chunk.isEmpty || chunk == [Utf8.lineFeed] then return line ++ chunk
  readLine input (line ++ chunk)

/-- The time. -/
def now : IO Instant := do
  let t ← Std.Time.Timestamp.now
  return .ofMillis t.toMillisecondsSinceUnixEpoch.toInt

/-- A run whose changes and stamps from here on are of this moment. -/
def retimed (p : Program.Prepared) (drawn : Nat) : IO Program.Prepared := do
  let time ← now
  let millis := Int64.ofInt (time.seconds * 1000 + time.nanos / 1000000)
  let random := (← IO.getRandomBytes (USize.ofNat (32 * (p.arguments.commands.length + 1)))).toList
  let stamps := fun n => ⟨time, eventId (random.drop (16 * (n - drawn)))⟩
  let runner := { p.shell.runner with
    client := Tree.client fun _ => millis
    telemetry := p.shell.runner.telemetry.map fun t => { t with stamp := Journal.stamp stamps } }
  return { p with shell := { p.shell with runner } }

/-- Shows what was written, some of which was shown before. -/
def present (events : List Event) (shown : Nat) : IO Nat := do
  let bytes := events.flatMap Event.output
  let output ← IO.getStdout
  output.write ⟨(bytes.drop shown).toArray⟩
  output.flush
  return bytes.length

/-- Does a step. When it comes to the end of the input before the terminal does, a line is read and
the step is done again from the start; nothing of the first attempt is kept. -/
partial def doStep {α : Type} (step : Program.State → α × Program.State) (w : Program.State)
    (ended : Bool) (shown : Nat) : IO (α × Program.State × Bool) := do
  let r := step w
  let old := (Shell.terminal w).transcript.length
  let events := (Shell.terminal r.2).transcript.drop old
  let sure := events.takeWhile fun e => e ≠ .read .endOfInput
  -- The step never asked for more than was there, so it counts as done.
  if ended || sure.length = events.length then
    let _ ← present events shown
    for complaint in r.2.complaints.drop w.complaints.length do
      IO.eprintln complaint
    save w.trail.disk r.2.trail.disk
    return (r.1, r.2, ended)
  -- What was written before the missing line is sure, and the user has to see it first.
  let shown ← present sure shown
  let line ← readLine (← IO.getStdin) []
  let t := Shell.terminal w
  let w := Shell.withTerminal w
    { t with incoming := t.incoming ++ (if line.isEmpty then [] else [.ofBytes line]) }
  doStep step w line.isEmpty shown

/-! ### The run -/

/-- Talks until the shell ends. -/
partial def talk (p : Program.Prepared) (w : Program.State) (ended : Bool) : IO Shell.Ended := do
  let p ← retimed p w.trail.drawn
  match ← doStep p.shell.step w ended 0 with
  | (.goOn, w, ended) => talk p w ended
  | (.leave, _, _) => return .ok ()
  | (.stop f, _, _) => return .error f

/-- Runs the lines of the command line, or talks. -/
def perform (p : Program.Prepared) : IO Shell.Ended := do
  let p ← retimed p p.state.trail.drawn
  if p.isScripted then return (← doStep p.runScript p.state false 0).1
  match ← doStep p.introduce p.state false 0 with
  | (.error f, _, _) => return .error f
  | (.ok _, w, ended) => talk p w ended

/-- What the program is called with. -/
def invocation (arguments : List String) (disk : Disk) : IO Invocation := do
  let time ← now
  return {
    arguments
    input := []
    disk
    visual := ← IO.getEnv "VISUAL"
    editor := ← IO.getEnv "EDITOR"
    programs := SmallProgram.find
    clock := fun _ => Int64.ofInt (time.seconds * 1000 + time.nanos / 1000000)
    stamps := fun _ => ⟨time, eventId []⟩ }

/-- Runs the program up to its exit status. -/
def run (arguments : List String) : IO UInt32 := do
  let report (r : RunReport) : IO UInt32 := do
    let _ ← present r.transcript 0
    r.complaints.forM IO.eprintln
    return UInt32.ofNat (r.status.getD 1)
  match Arguments.parse arguments with
  | .error _ => report (Program.run (← invocation arguments .empty))
  | .ok a =>
    let here := (Disk.pathParts (← IO.currentDir).toString).filter (· ≠ "")
    let disk ← loadAll { items := [], here } [a.config, a.seed, a.logFile, a.eventLog]
    let disk ← match Program.settingsOf disk a with
      | .ok s => loadAll disk [s.logPath, s.eventPath]
      | .error _ => pure disk
    let v ← invocation arguments disk
    match Program.prepare v a with
    | .error f => report (.saying v 1 "" [Program.complaint f])
    | .ok p =>
      save disk p.state.trail.disk
      match ← perform p with
      | .ok _ => return 0
      | .error f =>
        IO.eprintln (Program.complaint f)
        return 1

end TreeConsole.Console

/-- The program. -/
def main (arguments : List String) : IO UInt32 := TreeConsole.Console.run arguments
