import TreeConsole.Audit.Event
import TreeConsole.Log.Record
import TreeConsole.Proofs.Calendar.Rfc3339
import TreeConsole.Proofs.Json.Framing
import TreeConsole.Proofs.Json.RoundTrip
import TreeConsole.Proofs.Text.Encoding

/-!
# Records and events as lines

A log record and an audit event are written as one line each, whatever their texts are: the line
feed at the end is the only one. The line is read back as it was written when the details hold no
floating-point number and do not nest deeper than the reader goes.

## Main definitions

* `Json.ofLine?` — the value on a line
* `LogRecord.IsReadable` and `AuditEvent.IsReadable` — what is written without loss

## Main results

* `LogRecord.ofLine?_line` — a record is read back, at the time that clocks show
* `AuditEvent.ofLine?_line` — an event is read back as it was
-/

namespace TreeConsole

/-! ### Lines -/

/-- A line feed at the end, and no other. -/
def IsLine (bytes : Bytes) : Prop :=
  ∃ body, bytes = body ++ [Utf8.lineFeed] ∧ Utf8.lineFeed ∉ body

/-- Lines that stand one after the other are told apart again. -/
theorem lines_flatMap_of_isLine {α : Type} {line : α → Bytes} (h : ∀ a, IsLine (line a))
    (entries : List α) : Utf8.lines (entries.flatMap line) = entries.map line := by
  induction entries with
  | nil => rfl
  | cons a entries ih =>
    obtain ⟨body, hbody, hnone⟩ := h a
    rw [List.flatMap_cons, List.map_cons, ← ih, hbody, List.append_assoc, List.singleton_append,
      Utf8.lines_append_lineFeed hnone]

namespace Json

/-- The value on a line, if it is one. -/
def ofLine? (bytes : Bytes) : Option Json := (Utf8.toText? bytes).bind parse?

/-- No value breaks out of the line it is written on. -/
theorem isLine_compactChars (v : Json) : IsLine (Utf8.encode (compactChars v ++ ['\n'])) := by
  refine ⟨Utf8.encode (compactChars v), Utf8.encode_append (compactChars v) ['\n'], fun h => ?_⟩
  exact lineFeed_not_mem_compactChars v (Utf8.lineFeed_mem_encode_iff.mp h)

theorem toText?_encode (cs : List Char) :
    Utf8.toText? (Utf8.encode cs) = some (String.ofList cs) := by
  simp only [Utf8.toText?, Utf8.decode_encode, if_true]

/-- An object is read from its line with its fields in order. -/
theorem ofLine?_obj {fields : List (String × Json)} (h : HoldExact fields)
    (hdepth : (obj fields).depth ≤ nestingLimit) :
    ofLine? (Utf8.encode (compactChars (.obj fields) ++ ['\n'])) = some (ofFields fields) := by
  have hgap : ∀ c ∈ ['\n'], isGap c := by
    intro c hc
    rw [List.mem_singleton.mp hc]
    rfl
  rw [ofLine?, toText?_encode, Option.bind_some, parse?_compactChars_obj h hdepth hgap]

end Json

/-! ### Log records -/

namespace LogRecord

/-- The record on a line, if it is one. -/
def ofLine? (bytes : Bytes) : Option LogRecord :=
  (Json.ofLine? bytes).bind fun v => (ofJson v).toOption

/-- A record that is written without loss: its time has a written form, its details are in order
and hold no other numbers than integers of 64 bits, and it does not nest too deep. -/
def IsReadable (r : LogRecord) : Prop :=
  r.time.IsWritable ∧ (Json.obj r.metadata).IsExact ∧ r.toJson.depth ≤ Json.nestingLimit

/-- The record as it is read back: its time is as clocks show it. -/
def settled (r : LogRecord) : LogRecord := { r with time := r.time.settled }

theorem isLine_line (r : LogRecord) : IsLine r.line := Json.isLine_compactChars r.toJson

/-- Details are added one field after the other, each where its key belongs. -/
theorem withMetadata_obj (r : LogRecord) (fields : List (String × Json)) :
    r.withMetadata (.obj fields) =
      { r with metadata := fields.foldl (fun fs f => Json.insertField f.1 f.2 fs) r.metadata } := by
  unfold withMetadata
  induction fields generalizing r with
  | nil => rfl
  | cons f fields ih => exact ih (r.withField f.1 f.2)

theorem level_withMetadata (r : LogRecord) (metadata : Json) :
    (r.withMetadata metadata).level = r.level := by
  cases metadata with
  | obj fields => rw [withMetadata_obj]
  | _ => rfl

/-- A record whose details are the fields of an object in order. -/
theorem withMetadata_of_isExact {r : LogRecord} (hnone : r.metadata = [])
    {fields : List (String × Json)} (h : (Json.obj fields).IsExact) :
    r.withMetadata (.obj fields) = { r with metadata := fields } := by
  have hsorted := Json.ofFields_of_pairwise h.1
  rw [Json.ofFields] at hsorted
  rw [withMetadata_obj, hnone, Json.obj.inj hsorted]

theorem asLevel_title (l : LogLevel) : asLevel (.str l.title) = .ok l := by
  cases l <;> rfl

theorem asTime_rfc3339 {t : Instant} (h : t.IsWritable) :
    asTime (.str t.rfc3339) = .ok t.settled := by
  rw [asTime, Instant.parse_rfc3339 h]

/-- The fields of a record in the order of their names. -/
def sortedFields (r : LogRecord) : List (String × Json) :=
  [("level", .str r.level.title), ("message", .str r.message)] ++
    (if r.metadata.isEmpty then [] else [("metadata", .obj r.metadata)]) ++
      [("module", .str r.module), ("timestamp", .str r.time.rfc3339)]

/-- The sorted fields make the record. -/
theorem ofJson_sortedFields {r : LogRecord} (h : r.time.IsWritable) :
    ofJson (.obj r.sortedFields) = .ok r.settled := by
  -- Without details there is no field for them, and none are what is read.
  by_cases hnone : r.metadata = []
  · simp [hnone, sortedFields, ofJson, Json.asRecord, Json.checkFields, Json.checking,
      Json.asString, Json.RecordSource.field, List.lookup_cons, asLevel_title, asTime_rfc3339 h,
      Except.map, bind, Except.bind, pure, Except.pure, settled]
  · simp [hnone, sortedFields, ofJson, Json.asRecord, Json.checkFields, Json.checking,
      Json.asString, Json.asMap, Json.RecordSource.field, List.lookup_cons, asLevel_title,
      asTime_rfc3339 h, Except.map, bind, Except.bind, pure, Except.pure, settled]

/-- A record is written as an object whose fields are exact when its details are. -/
theorem toJson_eq_obj {r : LogRecord} (h : (Json.obj r.metadata).IsExact) :
    ∃ fields, r.toJson = .obj fields ∧ Json.HoldExact fields ∧
      Json.ofFields fields = .obj r.sortedFields := by
  refine ⟨_, rfl, ?_, ?_⟩
  · by_cases hnone : r.metadata = []
    · simp [hnone, Json.HoldExact, Json.IsExact]
    · simpa [hnone, Json.HoldExact, Json.IsExact] using h
  · unfold Json.ofFields sortedFields
    split <;> simp (disch := decide) only [List.cons_append, List.nil_append, List.foldl_cons,
      List.foldl_nil, Json.insertField_nil, Json.insertField_of_lt, Json.insertField_of_gt]

theorem depth_toJson_le (r : LogRecord) : r.toJson.depth ≤ (Json.obj r.metadata).depth + 1 := by
  unfold toJson
  split <;> simp [Json.depth, Json.fieldsDepth]

/-- A record is read back from its line. -/
theorem ofLine?_line {r : LogRecord} (h : r.IsReadable) : ofLine? r.line = some r.settled := by
  obtain ⟨htime, hexact, hdepth⟩ := h
  obtain ⟨fields, hfields, hhold, hsorted⟩ := toJson_eq_obj hexact
  have hread := Json.ofLine?_obj hhold (hfields ▸ hdepth)
  rw [ofLine?, line, hfields, hread, Option.bind_some, hsorted, ofJson_sortedFields htime]
  rfl

end LogRecord

/-! ### Audit events -/

namespace AuditEvent

/-- The event on a line, if it is one. -/
def ofLine? (bytes : Bytes) : Option AuditEvent :=
  (Json.ofLine? bytes).bind fun v => (ofJson v).toOption

/-- An event that is written without loss: its payload is in order and holds no other numbers than
integers of 64 bits, and the event does not nest too deep. -/
def IsReadable (e : AuditEvent) : Prop :=
  e.payload.IsExact ∧ e.toJson.depth ≤ Json.nestingLimit

theorem isLine_line (e : AuditEvent) : IsLine e.line := Json.isLine_compactChars e.toJson

/-- The fields of an event in the order of their names. -/
def sortedFields (e : AuditEvent) : List (String × Json) :=
  [("event_type", .str e.type), ("id", .str e.id), ("payload", e.payload),
    ("source", .str e.source), ("timestamp", .str e.timestamp)]

theorem ofJson_sortedFields (e : AuditEvent) : ofJson (.obj e.sortedFields) = .ok e := by
  simp [sortedFields, ofJson, Json.asRecord, Json.checkFields, Json.checking, Json.asString,
    Json.RecordSource.field, List.lookup_cons, Except.map, bind, Except.bind, pure, Except.pure]

theorem toJson_eq_obj {e : AuditEvent} (h : e.payload.IsExact) :
    ∃ fields, e.toJson = .obj fields ∧ Json.HoldExact fields ∧
      Json.ofFields fields = .obj e.sortedFields := by
  refine ⟨_, rfl, ?_, ?_⟩
  · simpa [Json.HoldExact, Json.IsExact] using h
  · unfold Json.ofFields sortedFields
    simp (disch := decide) only [List.foldl_cons, List.foldl_nil, Json.insertField_nil,
      Json.insertField_of_lt, Json.insertField_of_gt]

theorem depth_toJson (e : AuditEvent) : e.toJson.depth = e.payload.depth + 1 := by
  simp [toJson, Json.depth, Json.fieldsDepth]

/-- An event is read back from its line. -/
theorem ofLine?_line {e : AuditEvent} (h : e.IsReadable) : ofLine? e.line = some e := by
  obtain ⟨hexact, hdepth⟩ := h
  obtain ⟨fields, hfields, hhold, hsorted⟩ := toJson_eq_obj hexact
  have hread := Json.ofLine?_obj hhold (hfields ▸ hdepth)
  rw [ofLine?, line, hfields, hread, Option.bind_some, hsorted, ofJson_sortedFields]
  rfl

end AuditEvent
end TreeConsole
