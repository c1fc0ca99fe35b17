import Mathlib.Data.List.Forall2
import TreeConsole.Proofs.Disk.Appending
import TreeConsole.Proofs.Telemetry.Lines
import TreeConsole.Telemetry.Journal

/-!
# Files of records and events

A log and a publisher over files add one line for each record that the level of the log lets through
and for each event. Whatever these hold, the lines stand apart from each other in the file, and each
is read back. One step adds the line of one entry to what the file holds; over a whole sequence the
file is the lines of its entries.

## Main definitions

* `Log.offer` — gives a record to a log, and tells whether the log kept it
* `inTurn` — the same work for one entry after the other
* `IsLedger` — a file that is one line for each of some entries

## Main results

* `Telemetry.record_eq_offer` — telemetry gives its records to its log
* `LineReport.isReadable_record` and `LineReport.isReadable_stamped` — what telemetry writes of a
  line is always read back
* `Journal.inTurn_of_step` — what a file holds after a sequence of entries
* `Journal.files_intact` — the files of a log and of a publisher hold what they were given
-/

namespace TreeConsole

variable {α β τ : Type}

/-! ### One record -/

/-- Gives a record to a log, and tells whether the log kept it. -/
def Log.offer (log : Log τ) (r : LogRecord) (t : τ) : Except Failure Bool × τ :=
  if log.least.allows r.level then ((log.write r t).1.map fun _ => true, (log.write r t).2)
  else (.ok false, t)

/-- Telemetry gives each of its records, with a stamp, to its log. -/
theorem Telemetry.record_eq_offer {m : Telemetry τ} {log : Log τ} (hlog : m.log = some log)
    (level : LogLevel) (message : String) (metadata : Json) (t : τ) :
    m.record level message metadata t =
      let r : LogRecord := ⟨(m.stamp t).1.time, m.module, level, message, []⟩
      ((log.offer (r.withMetadata metadata) (m.stamp t).2).1.map fun _ => (),
        (log.offer (r.withMetadata metadata) (m.stamp t).2).2) := by
  simp only [Telemetry.record, hlog, Log.offer, LogRecord.level_withMetadata]
  split
  · rcases log.write _ _ with ⟨_ | _, t⟩ <;> rfl
  · rfl

/-! ### What telemetry tells of a line -/

namespace LineReport

theorem isWord_index (r : LineReport) : Json.IsWord r.index.toNat := by
  have hlt := r.index.toNat_lt
  unfold Json.IsWord Json.wordBound
  omega

theorem isExact_metadata (r : LineReport) : (Json.obj r.metadata).IsExact := by
  have hindex := r.isWord_index
  unfold metadata
  rcases r.result with e | outcome
  · refine ⟨by simp only [List.map_cons, List.map_nil]; decide, ?_⟩
    rcases r.command with _ | c <;> simp [Json.HoldExact, Json.IsExact, hindex]
  · refine ⟨by simp only [List.map_cons, List.map_nil]; decide, ?_⟩
    rcases r.command with _ | c <;> simp [Json.HoldExact, Json.IsExact, hindex]

theorem depth_metadata (r : LineReport) : (Json.obj r.metadata).depth = 1 := by
  unfold metadata
  rcases r.result with e | outcome <;> rcases r.command with _ | c <;> rfl

theorem isExact_of_event? {r : LineReport} {type : String} {payload : Json}
    (h : r.event? = some (type, payload)) : payload.IsExact ∧ payload.depth = 1 := by
  have hindex := r.isWord_index
  unfold event? at h
  repeat' split at h
  all_goals cases h
  all_goals refine ⟨⟨by simp only [List.map_cons, List.map_nil]; decide, ?_⟩, ?_⟩
  all_goals simp [Json.IsExact, Json.HoldExact, hindex, Json.depth, Json.fieldsDepth]

/-- Every record that tells of a line is written without loss. -/
theorem isReadable_record {time : Instant} (h : time.IsWritable) (module message : String)
    (r : LineReport) :
    ((⟨time, module, r.level, message, []⟩ : LogRecord).withMetadata
      (.obj r.metadata)).IsReadable := by
  rw [LogRecord.withMetadata_of_isExact rfl r.isExact_metadata]
  refine ⟨h, r.isExact_metadata, Nat.le_trans (LogRecord.depth_toJson_le _) ?_⟩
  rw [r.depth_metadata]
  decide

/-- So is every event that tells of a line. -/
theorem isReadable_stamped {r : LineReport} {type : String} {payload : Json}
    (h : r.event? = some (type, payload)) (stamp : Stamp) (source : String) :
    (AuditEvent.stamped stamp source type payload).IsReadable := by
  obtain ⟨hexact, hdepth⟩ := isExact_of_event? h
  refine ⟨hexact, ?_⟩
  rw [AuditEvent.depth_toJson]
  exact Nat.le_trans (Nat.succ_le_succ (Nat.le_of_eq hdepth)) (by decide)

end LineReport

/-! ### One entry after the other -/

/-- Does the same work for one entry after the other; gives the answers in their order. -/
def inTurn (work : α → τ → β × τ) : List α → τ → List β × τ
  | [], t => ([], t)
  | a :: as, t => ((work a t).1 :: (inTurn work as (work a t).2).1, (inTurn work as (work a t).2).2)

/-- A file that is one line for each of some entries, in their order. -/
structure IsLedger (line : α → Bytes) (entries : List α) (content : Bytes) : Prop where
  content_eq : content = entries.flatMap line
  lines_eq : Utf8.lines content = entries.map line
  isLine : ∀ l ∈ Utf8.lines content, IsLine l

theorem isLedger_flatMap {line : α → Bytes} (h : ∀ a, IsLine (line a)) (entries : List α) :
    IsLedger line entries (entries.flatMap line) where
  content_eq := rfl
  lines_eq := lines_flatMap_of_isLine h entries
  isLine := by
    rw [lines_flatMap_of_isLine h entries]
    exact List.forall_mem_map.mpr fun a _ => h a

/-- What holds of the line of each entry holds of the lines of the file. -/
theorem IsLedger.forall₂ {line : α → Bytes} {entries : List α} {content : Bytes}
    (h : IsLedger line entries content) {R : Bytes → α → Prop}
    (hline : ∀ a ∈ entries, R (line a) a) : List.Forall₂ R (Utf8.lines content) entries := by
  rw [h.lines_eq, List.forall₂_map_left_iff, List.forall₂_same]
  exact hline

namespace Journal

variable {path : String} {content : Bytes} {j : Journal}

/-- A journal adds to a file that can be read. -/
theorem append_of_read (h : j.disk.read path = .ok content) (bytes : Bytes) (what : String) :
    (append path bytes what j).1 = .ok () ∧
      (append path bytes what j).2.disk.read path = .ok (content ++ bytes) := by
  obtain ⟨opened, hopen, hstill⟩ := Disk.read_append h []
  rw [List.append_nil] at hstill
  obtain ⟨d, happend, hread⟩ := Disk.read_append hstill bytes
  have hdone : append path bytes what j = (.ok (), { j with disk := d }) := by
    simp only [append, hopen, happend]
  rw [hdone]
  exact ⟨rfl, hread⟩

/-- Where each entry adds some bytes to a file, a sequence of entries adds those of all. -/
theorem inTurn_of_step {work : α → Journal → β × Journal} {answer : α → β} {text : α → Bytes}
    (hstep : ∀ a {j : Journal} {content : Bytes}, j.disk.read path = .ok content →
      (work a j).1 = answer a ∧ (work a j).2.disk.read path = .ok (content ++ text a))
    (entries : List α) (h : j.disk.read path = .ok content) :
    (inTurn work entries j).1 = entries.map answer ∧
      (inTurn work entries j).2.disk.read path = .ok (content ++ entries.flatMap text) := by
  -- What the file holds grows from step to step, so the statement is about any content.
  induction entries generalizing j content with
  | nil => exact ⟨rfl, by rw [List.flatMap_nil, List.append_nil]; exact h⟩
  | cons a entries ih =>
    obtain ⟨hanswer, hread⟩ := hstep a h
    obtain ⟨hanswers, hall⟩ := ih hread
    simp only [inTurn, List.map_cons, List.flatMap_cons, hanswer, hanswers, hall,
      List.append_assoc, and_self]

/-! ### Logs and publishers over files -/

theorem openLog_eq_ok {least : LogLevel} {log : Log Journal} {d d' : Disk}
    (h : openLog path least d = .ok (log, d')) :
    log = ⟨least, fun r => append path r.line "opening log file"⟩ := by
  unfold openLog at h
  split at h
  · cases h
  · split at h
    · cases h
    · cases h
      rfl

theorem openPublisher_eq_ok {publisher : Publisher Journal} {d d' : Disk}
    (h : openPublisher path d = .ok (publisher, d')) :
    publisher = ⟨fun e => append path e.line "opening event log"⟩ := by
  unfold openPublisher at h
  split at h
  · cases h
  · cases h
    rfl

/-- A log over a file adds the line of a record that its level lets through, and nothing for any
other; it tells which of the two it did. -/
theorem offer_of_read {least : LogLevel} {log : Log Journal} {d d' : Disk}
    (hlog : openLog path least d = .ok (log, d')) (r : LogRecord)
    (h : j.disk.read path = .ok content) :
    (log.offer r j).1 = .ok (least.allows r.level) ∧
      (log.offer r j).2.disk.read path =
        .ok (content ++ if least.allows r.level then r.line else []) := by
  obtain ⟨hok, hread⟩ := append_of_read h r.line "opening log file"
  rw [openLog_eq_ok hlog]
  unfold Log.offer
  dsimp only
  cases least.allows r.level with
  | true => exact ⟨congrArg (Except.map fun _ => true) hok, hread⟩
  | false =>
    rw [if_neg Bool.false_ne_true, if_neg Bool.false_ne_true, List.append_nil]
    exact ⟨rfl, h⟩

/-- A publisher over a file adds the line of every event. -/
theorem publish_of_read {publisher : Publisher Journal} {d d' : Disk}
    (hpublisher : openPublisher path d = .ok (publisher, d')) (e : AuditEvent) {j : Journal}
    {content : Bytes} (h : j.disk.read path = .ok content) :
    (publisher.publish e j).1 = .ok () ∧
      (publisher.publish e j).2.disk.read path = .ok (content ++ e.line) := by
  rw [openPublisher_eq_ok hpublisher]
  exact append_of_read h e.line "opening event log"

theorem flatMap_ite (p : α → Bool) (text : α → Bytes) (entries : List α) :
    (entries.flatMap fun a => if p a then text a else []) = (entries.filter p).flatMap text := by
  induction entries with
  | nil => rfl
  | cons a entries ih =>
    rw [List.flatMap_cons, ih, List.filter_cons]
    split <;> rfl

/-- The file of a log holds one line for each record that its level lets through, and the file of a
publisher one for each event, in their order and whatever they hold. The log tells which records it
kept. A line gives back its record or event when that is written without loss. -/
theorem files_intact {logPath eventPath : String} {least : LogLevel} {log : Log Journal}
    {publisher : Publisher Journal} {d d' e e' : Disk}
    (hlog : openLog logPath least d = .ok (log, d'))
    (hpublisher : openPublisher eventPath e = .ok (publisher, e')) {j k : Journal}
    (hj : j.disk.read logPath = .ok []) (hk : k.disk.read eventPath = .ok [])
    (records : List LogRecord) (events : List AuditEvent) :
    (∃ content, (inTurn log.offer records j).2.disk.read logPath = .ok content ∧
      (inTurn log.offer records j).1 = records.map (fun r => .ok (least.allows r.level)) ∧
      IsLedger LogRecord.line (records.filter fun r => least.allows r.level) content ∧
      List.Forall₂ (fun l r => r.IsReadable → LogRecord.ofLine? l = some r.settled)
        (Utf8.lines content) (records.filter fun r => least.allows r.level)) ∧
    (∃ content, (inTurn publisher.publish events k).2.disk.read eventPath = .ok content ∧
      (inTurn publisher.publish events k).1 = events.map (fun _ => .ok ()) ∧
      IsLedger AuditEvent.line events content ∧
      List.Forall₂ (fun l e => e.IsReadable → AuditEvent.ofLine? l = some e)
        (Utf8.lines content) events) := by
  constructor
  · obtain ⟨hanswers, hread⟩ :=
      inTurn_of_step (fun r _ _ h => offer_of_read hlog r h) records hj
    rw [List.nil_append, flatMap_ite fun r : LogRecord => least.allows r.level] at hread
    have hledger := isLedger_flatMap LogRecord.isLine_line
      (records.filter fun r => least.allows r.level)
    exact ⟨_, hread, hanswers, hledger, hledger.forall₂ fun r _ h => LogRecord.ofLine?_line h⟩
  · obtain ⟨hanswers, hread⟩ := inTurn_of_step (publish_of_read hpublisher) events hk
    rw [List.nil_append] at hread
    have hledger := isLedger_flatMap AuditEvent.isLine_line events
    exact ⟨_, hread, hanswers, hledger, hledger.forall₂ fun e _ h => AuditEvent.ofLine?_line h⟩

/-- Two files with nothing in them. -/
def blankDisk : Disk where
  items := [(["session.log"], .file []), (["events.log"], .file [])]

/-- A record whose texts hold line ends, quotes and controls. -/
def awkwardRecord : LogRecord where
  time := ⟨1700000000, 5000000⟩
  module := "shell\n"
  level := .warn
  message := "a \"quoted\"\r\nline\x00"
  metadata := [("key\n", .arr [.num (.int (-1)), .str "\t"])]

/-- An event of the same kind. -/
def awkwardEvent : AuditEvent where
  id := "evt-\n"
  source := "runner"
  type := "tree.mutation"
  timestamp := "2023-11-14T22:13:20+00:00"
  payload := .obj [("path", .str "/a\n\x7b")]

/-- A record and an event full of line ends, quotes and controls come back from their files. -/
theorem files_intact_awkward :
    (awkwardRecord.IsReadable ∧ awkwardEvent.IsReadable) ∧
      ∃ log publisher d e, openLog "session.log" .info blankDisk = .ok (log, d) ∧
        openPublisher "events.log" blankDisk = .ok (publisher, e) ∧
        blankDisk.read "session.log" = .ok [] ∧ blankDisk.read "events.log" = .ok [] ∧
        (∃ content,
          (inTurn log.offer [awkwardRecord] (onDisk blankDisk 1)).2.disk.read "session.log" =
            .ok content ∧
          (Utf8.lines content).map LogRecord.ofLine? = [some awkwardRecord.settled]) ∧
        ∃ content,
          (inTurn publisher.publish [awkwardEvent] (onDisk blankDisk 1)).2.disk.read
            "events.log" = .ok content ∧
          (Utf8.lines content).map AuditEvent.ofLine? = [some awkwardEvent] := by
  have hword : Json.IsWord (-1) := by decide
  have hrecord : awkwardRecord.IsReadable :=
    ⟨by decide +kernel, ⟨List.pairwise_singleton _ _, ⟨hword, trivial, trivial⟩, trivial⟩,
      by decide +kernel⟩
  have hevent : awkwardEvent.IsReadable :=
    ⟨⟨List.pairwise_singleton _ _, trivial, trivial⟩, by decide +kernel⟩
  have hlog : (onDisk blankDisk 1).disk.read "session.log" = .ok [] := by decide +kernel
  have hevents : (onDisk blankDisk 1).disk.read "events.log" = .ok [] := by decide +kernel
  obtain ⟨log, d, hopen⟩ :
    ∃ log d, openLog "session.log" .info blankDisk = .ok (log, d) := ⟨_, _, rfl⟩
  obtain ⟨publisher, e, hopen'⟩ :
    ∃ publisher e, openPublisher "events.log" blankDisk = .ok (publisher, e) := ⟨_, _, rfl⟩
  obtain ⟨⟨content, hread, -, hledger, hback⟩, content', hread', -, hledger', hback'⟩ :=
    files_intact hopen hopen' hlog hevents [awkwardRecord] [awkwardEvent]
  have hkept : [awkwardRecord].filter (fun r => LogLevel.info.allows r.level) =
      [awkwardRecord] := rfl
  rw [hkept] at hledger hback
  rw [hledger.lines_eq] at hback
  rw [hledger'.lines_eq] at hback'
  refine ⟨⟨hrecord, hevent⟩, log, publisher, d, e, hopen, hopen', hlog, hevents,
    ⟨content, hread, ?_⟩, content', hread', ?_⟩
  · rw [hledger.lines_eq]
    cases hback with
    | cons h _ => exact congrArg (fun r => [r]) (h hrecord)
  · rw [hledger'.lines_eq]
    cases hback' with
    | cons h _ => exact congrArg (fun e => [e]) (h hevent)

end Journal
end TreeConsole
