import TreeConsole.Proofs.Runner.Audit
import TreeConsole.Proofs.Shell.Dialogue
import TreeConsole.Proofs.Telemetry.Files

/-!
# Logged runs

The log of a run tells of every line, in order: how it ended, what it was a command of, its number
and the mode after it. Blank lines, lines that are no command and lines that are refused, declined
or fail are told of like the others. The level of the log decides which of these records are kept,
by how grave what happened is, and nothing else does.

What it means that a log holds some records is left open. The records may be kept in memory, or they
may be lines of a file among other files.

## Main definitions

* `Telemetry.LogsTo` — telemetry whose log keeps what it is given, behind what it holds
* `Turn.Traced` — a record that tells what became of a line

## Main results

* `Telemetry.LogsTo.report` — what the log holds after one report
* `Runner.log_run` — what it holds after one line
* `Runner.run_traced` — the log of a run is a trace of it
-/

namespace TreeConsole

variable {σ κ ε τ : Type} {line : String}

/-! ### Logs that keep what they are given -/

/-- Telemetry with a log of some least level that writes every record it is given behind those that
it holds. Nothing else that telemetry does takes any of them away. -/
structure Telemetry.LogsTo (m : Telemetry τ) (least : LogLevel)
    (Holds : τ → List LogRecord → Prop) : Prop where
  writes : ∃ log, m.log = some log ∧ log.least = least ∧ ∀ record t kept, Holds t kept →
    (log.write record t).1 = .ok () ∧ Holds (log.write record t).2 (kept ++ [record])
  stamps : ∀ t kept, Holds t kept → Holds (m.stamp t).2 kept
  publishes : ∀ p ∈ m.publisher, ∀ e t kept, Holds t kept → Holds (p.publish e t).2 kept

namespace Telemetry.LogsTo

variable {m : Telemetry τ} {least : LogLevel} {Holds : τ → List LogRecord → Prop} {t : τ}
  {kept : List LogRecord}

theorem publish (h : m.LogsTo least Holds) (ht : Holds t kept) (type : String) (payload : Json) :
    Holds (m.publish type payload t).2 kept := by
  unfold Telemetry.publish
  cases hp : m.publisher with
  | none => exact ht
  | some p => exact h.publishes p hp _ _ _ (h.stamps t kept ht)

/-- Of a report there is one record, if its level is not below that of the log. -/
theorem report (h : m.LogsTo least Holds) (ht : Holds t kept) (report : LineReport) :
    ∃ time, Holds (m.report report t).2
      (kept ++ if least.allows report.level then
        [⟨time, m.module, report.level, lineMessage, report.metadata⟩] else []) := by
  obtain ⟨log, hlog, rfl, hwrites⟩ := h.writes
  have hstamp := h.stamps t kept ht
  have hmetadata : (⟨(m.stamp t).1.time, m.module, report.level, lineMessage, []⟩ :
      LogRecord).withMetadata (.obj report.metadata) =
        ⟨(m.stamp t).1.time, m.module, report.level, lineMessage, report.metadata⟩ :=
    LogRecord.withMetadata_of_isExact rfl report.isExact_metadata
  have hrecorded : ∃ t', m.record report.level lineMessage (.obj report.metadata) t = (.ok (), t') ∧
      Holds t' (kept ++ if log.least.allows report.level then
        [⟨(m.stamp t).1.time, m.module, report.level, lineMessage, report.metadata⟩] else []) := by
    unfold Telemetry.record
    simp only [hlog, hmetadata]
    by_cases hallowed : log.least.allows report.level = true
    · obtain ⟨hok, hholds⟩ := hwrites
        ⟨(m.stamp t).1.time, m.module, report.level, lineMessage, report.metadata⟩ _ kept hstamp
      rw [if_pos hallowed, if_pos hallowed]
      exact ⟨_, Prod.ext hok rfl, hholds⟩
    · rw [if_neg hallowed, if_neg hallowed, List.append_nil]
      exact ⟨_, rfl, hstamp⟩
  obtain ⟨t', hrecord, hholds⟩ := hrecorded
  refine ⟨(m.stamp t).1.time, ?_⟩
  simp only [Telemetry.report, hrecord]
  cases report.event? with
  | none => exact hholds
  | some e => exact h.publish hholds e.1 e.2

end Telemetry.LogsTo

/-! ### Records of turns -/

namespace Turn

/-- How grave it is what became of a line. -/
def level (u : Turn σ κ ε τ) : LogLevel :=
  match u.result with
  | .ok _ => .info
  | .error e => if e.isRecoverable then .warn else .error

/-- The command of a line by its word, if the line is one. -/
def keyword (u : Turn σ κ ε τ) : Json :=
  match validate u.line with
  | .ok k => .str k.word
  | .error _ => .null

/-- What is told of a line with some number. -/
def details (u : Turn σ κ ε τ) (index : UInt64) : List (String × Json) :=
  match u.result with
  | .ok outcome =>
    [("index", .num (.int index.toNat)), ("keyword", u.keyword), ("outcome", .str outcome.label),
      ("read_only", .bool u.after.session.readOnly)]
  | .error e =>
    [("detail", .str e.message), ("error", .str e.kind), ("index", .num (.int index.toNat)),
      ("keyword", u.keyword), ("read_only", .bool u.after.session.readOnly)]

/-- A record that tells what became of a line with some number. -/
structure Traced (u : Turn σ κ ε τ) (module : String) (index : UInt64) (record : LogRecord) :
    Prop where
  module_eq : record.module = module
  message_eq : record.message = "shell.command"
  level_eq : record.level = u.level
  metadata_eq : record.metadata = u.details index

end Turn

namespace Runner

variable {r : Runner σ κ ε τ} {m : Telemetry τ} {least : LogLevel}
  {Holds : τ → List LogRecord → Prop} {w : World σ κ ε τ} {kept : List LogRecord}

/-- The command that telemetry is told of is the one that the check saw. -/
theorem keyword_turn (r : Runner σ κ ε τ) (line : String) (w : World σ κ ε τ) :
    (r.turn line w).keyword =
      (r.reportOf line w).command.elim .null fun c => .str c.keyword.word := by
  have hturn : (r.turn line w).line = line := rfl
  unfold Turn.keyword
  rw [hturn]
  cases hcommand : (r.reportOf line w).command with
  | some c => rw [Command.validate_of_ofLine (command_reportOf.mp hcommand), Option.elim_some]
  | none =>
    cases hline : validate line with
    | error e => rfl
    | ok k =>
      obtain ⟨token, rest, -, -, hok⟩ := Command.ofLine_of_validate hline
      rw [command_reportOf.mpr hok] at hcommand
      cases hcommand

theorem metadata_reportOf (r : Runner σ κ ε τ) (line : String) (w : World σ κ ε τ) :
    (r.reportOf line w).metadata = (r.turn line w).details w.session.index := by
  have hresult : (r.turn line w).result = (r.reportOf line w).result := rfl
  have hindex : w.session.index = (r.reportOf line w).index := rfl
  have hmode : (r.turn line w).after.session.readOnly = (r.reportOf line w).readOnly :=
    (r.readOnly_reportOf line w).symm
  unfold LineReport.metadata Turn.details
  rw [r.keyword_turn line w, hresult, hindex, hmode]
  cases (r.reportOf line w).command <;> rfl

/-- A line adds its record to the log, if its level is not below that of the log. -/
theorem log_run (h : m.LogsTo least Holds) (hr : r.telemetry = some m) (line : String)
    (hw : Holds w.trail kept) :
    ∃ time, Holds (r.run line w).2.trail (kept ++ if least.allows (r.turn line w).level then
      [⟨time, m.module, (r.turn line w).level, Telemetry.lineMessage,
        (r.turn line w).details w.session.index⟩] else []) := by
  obtain ⟨time, hholds⟩ := h.report hw (r.reportOf line w)
  rw [r.metadata_reportOf line w] at hholds
  rw [trail_run hr]
  exact ⟨time, hholds⟩

/-- What the log holds after a run whose first line has a place among others. -/
theorem traced_from (h : m.LogsTo least Holds) (hr : r.telemetry = some m) (lines : List String)
    (hw : Holds w.trail kept) {start : UInt64} {place : Nat}
    (hplace : w.session.index = start + UInt64.ofNat place) :
    ∃ records, Holds (r.finish lines w).trail (kept ++ records) ∧
      List.Forall₂ (fun u record => u.1.Traced m.module (start + UInt64.ofNat u.2) record)
        (((r.turns lines w).zipIdx place).filter fun u => least.allows u.1.level) records := by
  -- The number in the session and the place in the run go on together, from any start.
  induction lines generalizing w kept place with
  | nil => exact ⟨[], (List.append_nil kept).symm ▸ hw, .nil⟩
  | cons line lines ih =>
    obtain ⟨time, hholds⟩ := log_run h hr line hw
    have hnext : (r.run line w).2.session.index = start + UInt64.ofNat (place + 1) := by
      rw [r.index_run, hplace, UInt64.ofNat_add, UInt64.add_assoc]
      rfl
    obtain ⟨records, hrest, htraced⟩ := ih hholds hnext
    rw [List.append_assoc] at hrest
    refine ⟨_, hrest, ?_⟩
    rw [turns, List.zipIdx_cons, List.filter_cons]
    by_cases hallowed : least.allows (r.turn line w).level = true
    · rw [if_pos hallowed, if_pos hallowed]
      exact .cons ⟨rfl, rfl, rfl, hplace ▸ rfl⟩ htraced
    · rw [if_neg hallowed, if_neg hallowed]
      exact htraced

/-- A log that writes every record is a trace of the run. It holds one record for each line whose
level is not below that of the log, in the order of the lines, and no other; and the record tells
how the line ended, its number, its command and the mode after it. -/
theorem run_traced (client : Client σ) (confirmer : Confirmer κ) (editor : Editor ε)
    (h : m.LogsTo least Holds) (lines : List String) (w : World σ κ ε τ)
    (hw : Holds w.trail kept) :
    let r : Runner σ κ ε τ := ⟨client, confirmer, editor, some m⟩
    ∃ records, Holds (r.finish lines w).trail (kept ++ records) ∧
      List.Forall₂ (fun u record =>
          u.1.Traced m.module (w.session.index + UInt64.ofNat u.2) record)
        ((r.turns lines w).zipIdx.filter fun u => least.allows u.1.level) records :=
  traced_from h rfl lines hw (UInt64.add_zero _).symm

end Runner

/-! ### Logs over files -/

/-- The log over a file that can be read keeps what it is given, as lines of that file. Events go to
memory. -/
theorem Journal.logsTo_append (path module what : String) (least : LogLevel)
    (stamps : Nat → Stamp) :
    Telemetry.LogsTo
      ⟨module, some ⟨least, fun record => append path record.line what⟩, some memoryPublisher,
        stamp stamps⟩
      least fun j kept => j.disk.read path = .ok (kept.flatMap LogRecord.line) where
  writes := by
    refine ⟨_, rfl, rfl, fun record j kept hread => ?_⟩
    obtain ⟨hok, hadded⟩ := append_of_read hread record.line what
    rw [List.flatMap_append, List.flatMap_singleton]
    exact ⟨hok, hadded⟩
  stamps := fun _ _ hread => hread
  publishes := by
    rintro p hp e j kept hread
    cases hp
    exact hread

/-- What a record says, field by field. -/
def LogRecord.shown (r : LogRecord) : String × List (String × String) :=
  (r.level.title, r.metadata.map fun f => (f.1, f.2.compact))

/-- A blank line and a change of the mode are passed over; a line that is no command, a command
whose editor fails, and one that is refused are told of, in this order and with their numbers. -/
theorem Runner.run_traced_grove :
    let m : Telemetry Journal :=
      ⟨"treesh", some ⟨.warn, fun r => Journal.append "session.log" r.line "opening log file"⟩,
        some Journal.memoryPublisher, Journal.stamp fun _ => default⟩
    let r : Runner Tree Unit Unit Journal :=
      ⟨Tree.client default, .assumeDefault, ⟨fun _ _ e => (.error (.editor "crashed"), e)⟩, some m⟩
    let w : World Tree Unit Unit Journal :=
      ⟨⟨Tree.grove, { Session.start false with index := 7 }, ()⟩, (), .onDisk Journal.blankDisk 1,
        []⟩
    ∃ records : List LogRecord,
      (r.finish [" ", "bogus", "edit /p2", "toggle_write", "create /q"] w).trail.disk.read
          "session.log" = .ok (records.flatMap LogRecord.line) ∧
        records.map LogRecord.shown =
          [("WARN", [("detail", "\"Command 'bogus' not found\""), ("error", "\"unknown_command\""),
            ("index", "8"), ("keyword", "null"), ("read_only", "false")]),
          ("ERROR", [("detail", "\"editor failure: crashed\""), ("error", "\"editor\""),
            ("index", "9"), ("keyword", "\"edit\""), ("read_only", "false")]),
          ("WARN", [("detail", "\"Cannot run `create` in read-only mode. " ++
              "Run `toggle_write` to enable writes.\""), ("error", "\"unauthorized_write\""),
            ("index", "11"), ("keyword", "\"create\""), ("read_only", "true")])] := by
  intro m r w
  have hlogs : m.LogsTo .warn fun j kept =>
      j.disk.read "session.log" = .ok (kept.flatMap LogRecord.line) :=
    Journal.logsTo_append _ _ _ _ _
  have hblank : w.trail.disk.read "session.log" =
      .ok (([] : List LogRecord).flatMap LogRecord.line) := by
    decide +kernel
  obtain ⟨records, hread, htraced⟩ := run_traced r.client r.confirmer r.editor hlogs
    [" ", "bogus", "edit /p2", "toggle_write", "create /q"] w hblank
  refine ⟨records, hread, ?_⟩
  -- What the records say is what there is to say of the turns.
  have hshown : records.map LogRecord.shown =
      ((((r.turns [" ", "bogus", "edit /p2", "toggle_write", "create /q"] w).zipIdx).filter
        fun u => LogLevel.warn.allows u.1.level).map fun u => (u.1.level.title,
          (u.1.details (w.session.index + UInt64.ofNat u.2)).map fun f => (f.1, f.2.compact))) := by
    rw [← List.forall₂_eq_eq_eq, List.forall₂_map_left_iff, List.forall₂_map_right_iff]
    refine List.Forall₂.flip (htraced.imp fun u record htold => ?_)
    exact Prod.ext (congrArg LogLevel.title htold.level_eq)
      (congrArg (List.map _) htold.metadata_eq)
  rw [hshown]
  decide +kernel

end TreeConsole
