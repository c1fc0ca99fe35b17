import TreeConsole.Calendar.Rfc3339
import TreeConsole.Json.Shape
import TreeConsole.Text.Utf8
import TreeConsole.Log.Level

/-!
# Log records

A record of a log is one line of JSON: when, by which part of the program, how grave, a message, and
the details as fields in the order of their names. A record without details has no field for them.

Main statement: `line_eq`.
-/

namespace TreeConsole

/-- One entry of a log. -/
structure LogRecord where
  time : Instant
  /-- The part of the program that speaks. -/
  module : String
  level : LogLevel
  message : String
  /-- The details, in the order of their names. -/
  metadata : List (String × Json)
  deriving Repr, Inhabited

namespace LogRecord

/-- The record with one detail more; an old detail of that name is replaced. -/
def withField (r : LogRecord) (key : String) (value : Json) : LogRecord :=
  { r with metadata := Json.insertField key value r.metadata }

/-- The record with the fields of an object as details. Any other value is ignored. -/
def withMetadata (r : LogRecord) : Json → LogRecord
  | .obj fields => fields.foldl (fun r f => r.withField f.1 f.2) r
  | _ => r

/-- A record as JSON. -/
def toJson (r : LogRecord) : Json :=
  .obj <|
    [("timestamp", .str r.time.rfc3339), ("module", .str r.module), ("level", .str r.level.title),
      ("message", .str r.message)] ++
    if r.metadata.isEmpty then [] else [("metadata", .obj r.metadata)]

/-- A record as a line of a file. -/
def line (r : LogRecord) : Bytes := Utf8.encode (r.toJson.compactChars ++ ['\n'])

/-- Reads a time. -/
def asTime : Json → Shaped Instant
  | .str s =>
    match Instant.parse s with
    | .ok t => .ok t
    | .error e => .error (.malformed e.message)
  | v => .error (v.mistyped "an RFC 3339 formatted date and time string")

/-- Reads a level by its name in records. -/
def asLevel : Json → Shaped LogLevel :=
  Json.asVariant (LogLevel.all.map fun l => (l.title, l))

/-- Reads a record from JSON. -/
def ofJson : Json → Shaped LogRecord :=
  Json.asRecord "LogRecord"
    [("timestamp", Json.checking asTime), ("module", Json.checking Json.asString),
      ("level", Json.checking asLevel), ("message", Json.checking Json.asString),
      ("metadata", Json.checking Json.asMap)]
    fun source => do
      let time ← source.field "timestamp" 0 asTime none
      let module ← source.field "module" 1 Json.asString none
      let level ← source.field "level" 2 asLevel none
      let message ← source.field "message" 3 Json.asString none
      let metadata ← source.field "metadata" 4 Json.asMap (some [])
      return { time, module, level, message, metadata }

/-- A line is the compact text of the record and a line feed. -/
theorem line_eq (r : LogRecord) : r.line = Utf8.ofText r.toJson.compact ++ [Utf8.lineFeed] := by
  simp only [line, Utf8.ofText, Utf8.encode, Json.compact, String.toList_ofList,
    List.flatMap_append]
  rfl

end LogRecord
end TreeConsole
