import TreeConsole.Audit.Event
import TreeConsole.Command.Policy
import TreeConsole.Failure
import TreeConsole.Log.Record
import TreeConsole.Outcome
import TreeConsole.Session

/-!
# Telemetry

What is told of each line: a log record always, and an audit event when the line changed something.
Where records and events go is up to a log and a publisher over some state; either may be missing,
and either may fail. The record is written before the event, so a log that fails keeps the event
back.

Main statements: `event?_eq_none_of_not_proceed`, and `report_of_silent`, that without a log and a
publisher nothing happens.
-/

namespace TreeConsole

/-- What happened to one line. -/
structure LineReport where
  /-- The number of the line. -/
  index : UInt64
  /-- Whether the session is read-only after the line. -/
  readOnly : Bool
  /-- The command, if the line was one. -/
  command : Option Command
  result : Except ShellError Outcome

namespace LineReport

/-- How grave what happened is. -/
def level (r : LineReport) : LogLevel :=
  match r.result with
  | .ok _ => .info
  | .error e => if e.isRecoverable then .warn else .error

/-- What happened as fields of a log record, in the order of their names. -/
def metadata (r : LineReport) : List (String × Json) :=
  let index := ("index", Json.num (.int r.index.toNat))
  let keyword := ("keyword", match r.command with
    | some c => Json.str c.keyword.word
    | none => .null)
  let readOnly := ("read_only", Json.bool r.readOnly)
  match r.result with
  | .ok outcome => [index, keyword, ("outcome", .str outcome.label), readOnly]
  | .error e => [("detail", .str e.message), ("error", .str e.kind), index, keyword, readOnly]

/-- The type of the events that tell of a change of the store. -/
def mutationType : String := "tree.mutation"

/-- The type of the events that tell of a change between reading and writing. -/
def writeModeType : String := "shell.write_mode"

/-- The event that tells of what happened, by its type and payload, if there is something to
tell. -/
def event? (r : LineReport) : Option (String × Json) :=
  match r.command, r.result with
  | some c, .ok (.proceed reply) =>
    match reply with
    -- An editor that changed nothing is no change of the store.
    | .unchanged _ => none
    | _ =>
      if c.keyword = .toggleWrite then
        some (writeModeType,
          .obj [("index", .num (.int r.index.toNat)), ("read_only", .bool r.readOnly)])
      else if c.keyword.mutates then
        some (mutationType,
          .obj [("index", .num (.int r.index.toNat)), ("keyword", .str c.keyword.word),
            ("path", match c.arg? 0 with
              | some path => .str path
              | none => .null)])
      else none
  | _, _ => none

/-- Only a line that went through has an event. -/
theorem event?_eq_none_of_not_proceed {r : LineReport}
    (h : ∀ reply, r.result ≠ .ok (.proceed reply)) : r.event? = none := by
  unfold event?
  split
  · rename_i _ _ c reply _ hr
    exact absurd hr (h reply)
  · rfl

end LineReport

/-- Work on a state that can fail, for a reason that goes to the user. -/
abbrev Attempt (τ : Type) := τ → Except Failure Unit × τ

/-- Where log records go. -/
structure Log (τ : Type) where
  /-- Records below this level are passed over. -/
  least : LogLevel
  write : LogRecord → Attempt τ

/-- Where audit events go. -/
structure Publisher (τ : Type) where
  publish : AuditEvent → Attempt τ

/-- What is told of the lines of a shell, and where. -/
structure Telemetry (τ : Type) where
  /-- The part of the program that speaks. -/
  module : String
  log : Option (Log τ)
  publisher : Option (Publisher τ)
  /-- Draws the next stamp. -/
  stamp : τ → Stamp × τ

namespace Telemetry

variable {τ : Type}

/-- Writes a log record, if there is a log that keeps its level. -/
def record (m : Telemetry τ) (level : LogLevel) (message : String) (metadata : Json) :
    Attempt τ := fun t =>
  match m.log with
  | none => (.ok (), t)
  | some log =>
    -- A stamp is drawn for a record that is passed over as well.
    let (stamp, t) := m.stamp t
    let r : LogRecord := ⟨stamp.time, m.module, level, message, []⟩
    if log.least.allows level then log.write (r.withMetadata metadata) t else (.ok (), t)

/-- Publishes an event, if there is a publisher. -/
def publish (m : Telemetry τ) (type : String) (payload : Json) : Attempt τ := fun t =>
  match m.publisher with
  | none => (.ok (), t)
  | some publisher =>
    let (stamp, t) := m.stamp t
    publisher.publish (.stamped stamp m.module type payload) t

/-- The message of the records that tell of a line. -/
def lineMessage : String := "shell.command"

/-- Tells of a line. -/
def report (m : Telemetry τ) (r : LineReport) : Attempt τ := fun t =>
  match m.record r.level lineMessage (.obj r.metadata) t with
  | (.error e, t) => (.error e, t)
  | (.ok _, t) =>
    match r.event? with
    | none => (.ok (), t)
    | some (type, payload) => m.publish type payload t

/-- A listing of what telemetry does. -/
def listing (m : Telemetry τ) : String :=
  "ShellTelemetry \x7b module: " ++ Text.quoted m.module ++
    ", logging: " ++ toString m.log.isSome ++
    ", events: " ++ toString m.publisher.isSome ++ " \x7d"

theorem report_of_silent {m : Telemetry τ} (hlog : m.log = none) (hpub : m.publisher = none)
    (r : LineReport) (t : τ) : m.report r t = (.ok (), t) := by
  simp only [report, record, hlog, publish, hpub]
  split <;> rfl

end Telemetry
end TreeConsole
