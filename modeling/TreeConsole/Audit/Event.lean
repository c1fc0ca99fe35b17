import TreeConsole.Calendar.Rfc3339
import TreeConsole.Json.Printer
import TreeConsole.Json.Shape
import TreeConsole.Text.Utf8

/-!
# Audit events

What is published of a change: an identifier, who made it, of what kind it is, when, and what else
there is to know. An event is written as one line of JSON with its fields in a fixed order.

Main statement: `line_eq`.
-/

namespace TreeConsole

/-- A published event. -/
structure AuditEvent where
  id : String
  source : String
  type : String
  timestamp : String
  payload : Json
  deriving Repr, Inhabited

/-- What marks a record or an event as made here and now. -/
structure Stamp where
  time : Instant
  id : String
  deriving DecidableEq, Repr, Inhabited

/-- An identifier made from sixteen random bytes: a UUID of version 4 behind a short mark. -/
def eventId (random : Bytes) : String :=
  let bytes := (List.range 16).map fun i =>
    let b := (random[i]?.getD 0).toNat
    if i = 6 then b % 16 + 0x40 else if i = 8 then b % 64 + 0x80 else b
  "evt-" ++ String.ofList (bytes.zipIdx.flatMap fun b =>
    (if [4, 6, 8, 10].contains b.2 then ['-'] else []) ++
      [Json.hexDigit (b.1 / 16), Json.hexDigit (b.1 % 16)])

namespace AuditEvent

/-- The event of a source, with a stamp. -/
def stamped (stamp : Stamp) (source type : String) (payload : Json) : AuditEvent where
  id := stamp.id
  source
  type
  timestamp := stamp.time.rfc3339Offset
  payload

/-- An event as JSON. -/
def toJson (e : AuditEvent) : Json :=
  .obj
    [("id", .str e.id), ("source", .str e.source), ("event_type", .str e.type),
      ("timestamp", .str e.timestamp), ("payload", e.payload)]

/-- An event as a line of a file. -/
def line (e : AuditEvent) : Bytes := Utf8.encode (e.toJson.compactChars ++ ['\n'])

/-- Reads an event from JSON. -/
def ofJson : Json → Shaped AuditEvent :=
  Json.asRecord "EventRecord"
    [("id", Json.checking Json.asString), ("source", Json.checking Json.asString),
      ("event_type", Json.checking Json.asString), ("timestamp", Json.checking Json.asString),
      ("payload", fun _ => .ok ())]
    fun source => do
      let id ← source.field "id" 0 Json.asString none
      let origin ← source.field "source" 1 Json.asString none
      let type ← source.field "event_type" 2 Json.asString none
      let timestamp ← source.field "timestamp" 3 Json.asString none
      let payload ← source.field "payload" 4 .ok (some .null)
      return { id, source := origin, type, timestamp, payload }

/-- A line is the compact text of the event and a line feed. -/
theorem line_eq (e : AuditEvent) : e.line = Utf8.ofText e.toJson.compact ++ [Utf8.lineFeed] := by
  simp only [line, Utf8.ofText, Utf8.encode, Json.compact, String.toList_ofList,
    List.flatMap_append]
  rfl

end AuditEvent
end TreeConsole
