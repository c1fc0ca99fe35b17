import TreeConsole.Audit.Backlog
import TreeConsole.Disk
import TreeConsole.Telemetry.Basic

/-!
# Journals

The places where telemetry ends up: files of a disk, one line for each record or event, and a
backlog of events in memory. A journal also remembers how many stamps were drawn, so that each is
drawn once.
-/

namespace TreeConsole

/-- Where records and events end up. -/
structure Journal where
  disk : Disk
  backlog : Backlog
  /-- How many stamps were drawn. -/
  drawn : Nat
  deriving Inhabited

namespace Journal

/-- A journal on a disk, with a backlog. -/
def onDisk (disk : Disk) (capacity : Nat) : Journal := ⟨disk, .ofCapacity capacity, 0⟩

/-- Draws the next of some stamps. -/
def stamp (stamps : Nat → Stamp) (j : Journal) : Stamp × Journal :=
  (stamps j.drawn, { j with drawn := j.drawn + 1 })

/-- Adds bytes to a file of the journal, once it is open. -/
def append (path : String) (bytes : Bytes) (what : String) : Attempt Journal := fun j =>
  match j.disk.append path [] with
  | .error e => (.error ((Failure.of e.message).within (what ++ " " ++ path)), j)
  | .ok disk =>
    -- A file that could be opened stays, also when nothing can be written to it.
    match disk.append path bytes with
    | .error e => (.error (.of e.message), { j with disk })
    | .ok disk => (.ok (), { j with disk })

/-- Opens a log file, and makes it and its folder where they are missing. -/
def openLog (path : String) (least : LogLevel) (d : Disk) : Except Failure (Log Journal × Disk) :=
  match d.makeParent path with
  | .error e =>
    .error ((Failure.of e.message).within
      ("creating log directory " ++ (Disk.parentPath? path).getD ""))
  | .ok d =>
    match d.append path [] with
    | .error e => .error ((Failure.of e.message).within ("opening log file " ++ path))
    | .ok d => .ok (⟨least, fun r => append path r.line "opening log file"⟩, d)

/-- A publisher that adds events to a file; only its folder is made in advance. -/
def openPublisher (path : String) (d : Disk) : Except Failure (Publisher Journal × Disk) :=
  match d.makeParent path with
  | .error e =>
    .error ((Failure.of e.message).within
      ("creating event log directory " ++ (Disk.parentPath? path).getD ""))
  | .ok d => .ok (⟨fun e => append path e.line "opening event log"⟩, d)

/-- The publisher that keeps events in memory. -/
def memoryPublisher : Publisher Journal where
  publish e j := (.ok (), { j with backlog := j.backlog.publish e })

end Journal
end TreeConsole
