import TreeConsole.Proofs.Runner.Likeness

/-!
# Ledgers of events

To say which events were published, the publisher is made to keep a ledger: each event that is
taken is put at its end. The ledger is written and never read, so that a run with a ledger is the
run itself, line by line. Where log and publisher take everything they are given, one line adds to
the ledger the event of its report, if the report has one, and nothing else.

## Main definitions

* `Telemetry.ledgered`, and `Runner.ledgered` — telemetry that keeps a ledger of events
* `Telemetry.Accepts` — telemetry that takes everything it is given
* `Runner.reportOf` — what telemetry is told of a line

## Main results

* `Runner.ledgered_looksLike` — keeping a ledger makes no difference to a run
* `Runner.ledger_run` — what a line adds to the ledger
-/

namespace TreeConsole

variable {σ κ ε τ ι : Type}

/-- A log over the first part of a state. -/
def Log.onFirst (log : Log τ) : Log (τ × ι) where
  least := log.least
  write record t := ((log.write record t.1).1, (log.write record t.1).2, t.2)

/-- The publisher that keeps a ledger of the events that another took. -/
def Publisher.ledgered (p : Publisher τ) : Publisher (τ × List AuditEvent) where
  publish e t :=
    match p.publish e t.1 with
    | (.ok _, s) => (.ok (), s, t.2 ++ [e])
    | (.error f, s) => (.error f, s, t.2)

namespace Telemetry

/-- The telemetry whose publisher keeps a ledger. -/
def ledgered (m : Telemetry τ) : Telemetry (τ × List AuditEvent) where
  module := m.module
  log := m.log.map Log.onFirst
  publisher := m.publisher.map Publisher.ledgered
  stamp t := ((m.stamp t.1).1, (m.stamp t.1).2, t.2)

variable {m : Telemetry τ} {t : τ × List AuditEvent}

/-! ### The ledger makes no difference -/

theorem record_ledgered (m : Telemetry τ) (level : LogLevel) (message : String) (metadata : Json)
    (t : τ × List AuditEvent) :
    m.ledgered.record level message metadata t =
      ((m.record level message metadata t.1).1, (m.record level message metadata t.1).2, t.2) := by
  unfold record ledgered
  cases m.log with
  | none => rfl
  | some log =>
    simp only [Option.map_some, Log.onFirst]
    split <;> rfl

theorem publish_ledgered (m : Telemetry τ) (type : String) (payload : Json)
    (t : τ × List AuditEvent) :
    m.publish type payload t.1 =
      ((m.ledgered.publish type payload t).1, (m.ledgered.publish type payload t).2.1) := by
  unfold publish ledgered
  cases m.publisher with
  | none => rfl
  | some p =>
    simp only [Option.map_some, Publisher.ledgered]
    split <;> simp_all

theorem report_ledgered (m : Telemetry τ) (report : LineReport) (t : τ × List AuditEvent) :
    m.report report t.1 =
      ((m.ledgered.report report t).1, (m.ledgered.report report t).2.1) := by
  simp only [Telemetry.report, record_ledgered]
  rcases m.record report.level lineMessage (.obj report.metadata) t.1 with ⟨_ | _, s⟩
  · rfl
  · cases report.event? with
    | none => rfl
    | some e => exact m.publish_ledgered e.1 e.2 (s, t.2)

end Telemetry

/-! ### Telemetry that accepts everything -/

/-- Work that goes through in every good state and leaves a good one. -/
def Attempt.Succeeds (Good : τ → Prop) (a : Attempt τ) : Prop :=
  ∀ t, Good t → (a t).1 = .ok () ∧ Good (a t).2

/-- Telemetry whose log writes every record and whose publisher takes every event, as long as they
are in good states; then they stay in these. -/
structure Telemetry.Accepts (m : Telemetry τ) (Good : τ → Prop) : Prop where
  stamps : ∀ t, Good t → Good (m.stamp t).2
  logs : ∀ log ∈ m.log, ∀ record, Attempt.Succeeds Good (log.write record)
  publishes : ∃ p, m.publisher = some p ∧ ∀ e, Attempt.Succeeds Good (p.publish e)

namespace Telemetry.Accepts

variable {m : Telemetry τ} {Good : τ → Prop} {t : τ × List AuditEvent}

theorem record (h : m.Accepts Good) (level : LogLevel) (message : String) (metadata : Json) :
    Attempt.Succeeds Good (m.record level message metadata) := by
  intro t ht
  unfold Telemetry.record
  cases hlog : m.log with
  | none => exact ⟨rfl, ht⟩
  | some log =>
    have hstamp : Good (m.stamp t).2 := h.stamps t ht
    dsimp only
    split
    · exact h.logs log hlog _ _ hstamp
    · exact ⟨rfl, hstamp⟩

/-- An event that is published is put down with a stamp. -/
theorem publish (h : m.Accepts Good) (ht : Good t.1) (type : String) (payload : Json) :
    ∃ s stamp, Good s ∧ m.ledgered.publish type payload t =
      (.ok (), s, t.2 ++ [.stamped stamp m.module type payload]) := by
  obtain ⟨p, hp, haccepts⟩ := h.publishes
  obtain ⟨hok, hgood⟩ :=
    haccepts (.stamped (m.stamp t.1).1 m.module type payload) _ (h.stamps t.1 ht)
  refine ⟨_, (m.stamp t.1).1, hgood, ?_⟩
  simp only [Telemetry.publish, ledgered, hp, Option.map_some, Publisher.ledgered]
  rcases hpublish : p.publish (.stamped (m.stamp t.1).1 m.module type payload) (m.stamp t.1).2
    with ⟨_ | _, s⟩
  · rw [hpublish] at hok
    cases hok
  · rfl

/-- What is put down of a report is its event, if it has one. -/
theorem report (h : m.Accepts Good) (ht : Good t.1) (report : LineReport) :
    ∃ s stamp, Good s ∧ m.ledgered.report report t =
      (.ok (), s, t.2 ++ report.event?.toList.map fun e => .stamped stamp m.module e.1 e.2) := by
  obtain ⟨hok, hgood⟩ := h.record report.level lineMessage (.obj report.metadata) t.1 ht
  simp only [Telemetry.report, record_ledgered, hok]
  cases report.event? with
  | none => exact ⟨_, (m.stamp t.1).1, hgood, by simp⟩
  | some e =>
    obtain ⟨s, stamp, hs, hpublish⟩ :=
      h.publish (t := ((m.record report.level lineMessage (.obj report.metadata) t.1).2, t.2))
        hgood e.1 e.2
    exact ⟨s, stamp, hs, hpublish⟩

end Telemetry.Accepts

/-! ### Lines -/

namespace Runner

/-- The runner whose telemetry keeps a ledger. -/
def ledgered (r : Runner σ κ ε τ) : Runner σ κ ε (τ × List AuditEvent) where
  client := r.client
  confirmer := r.confirmer
  editor := r.editor
  telemetry := r.telemetry.map Telemetry.ledgered

/-- What telemetry is told of a line. -/
def reportOf (r : Runner σ κ ε τ) (line : String) (w : World σ κ ε τ) : LineReport where
  index := w.session.index
  readOnly := (r.answer line w).2.2.session.readOnly
  command := (r.answer line w).1
  result := (r.answer line w).2.1

variable {r : Runner σ κ ε τ}

theorem run_eq (r : Runner σ κ ε τ) (line : String) (w : World σ κ ε τ) :
    r.run line w =
      ((r.answer line w).2.1, (r.tell (r.reportOf line w) (r.answer line w).2.2).advance) := rfl

/-- Nothing is told of a line before it is done. -/
theorem trail_answer (r : Runner σ κ ε τ) (line : String) (w : World σ κ ε τ) :
    (r.answer line w).2.2.trail = w.trail := by
  unfold answer
  split
  · rfl
  · cases Command.ofLine line with
    | error e => rfl
    | ok c =>
      simp only [dispatch]
      split
      · rfl
      · split
        · rfl
        · split <;> rfl

/-- All that is written in the course of a line is what its report leads to. -/
theorem trail_run {m : Telemetry τ} {r : Runner σ κ ε τ} (hr : r.telemetry = some m)
    (line : String) (w : World σ κ ε τ) :
    (r.run line w).2.trail = (m.report (r.reportOf line w) w.trail).2 := by
  rw [run_eq, ← r.trail_answer line w]
  simp only [World.advance, World.mapSession, tell, hr]
  split <;> next hreport => rw [hreport]

/-- A run with a ledger looks like one without. -/
theorem ledgered_looksLike (r : Runner σ κ ε τ) : LooksLike id Prod.fst r.ledgered r where
  client := rfl
  editor := rfl
  ask := fun _ _ => rfl
  tell := by
    intro report w
    have htrail : (w.map id Prod.fst).trail = w.trail.1 := rfl
    unfold tell ledgered
    cases r.telemetry with
    | none => rfl
    | some m =>
      simp only [htrail, m.report_ledgered, Option.map_some]
      rcases m.ledgered.report report w.trail with ⟨_ | _, t⟩ <;> rfl

/-- Where everything is accepted a line adds to the ledger the event of its report, if it has
one. -/
theorem ledger_run {m : Telemetry τ} {Good : τ → Prop} (line : String) (h : m.Accepts Good)
    (hr : r.telemetry = some m) {w : World σ κ ε (τ × List AuditEvent)} (hw : Good w.trail.1) :
    Good (r.ledgered.run line w).2.trail.1 ∧
      ∃ stamp, (r.ledgered.run line w).2.trail.2 = w.trail.2 ++
        (r.ledgered.reportOf line w).event?.toList.map fun e =>
          .stamped stamp m.module e.1 e.2 := by
  obtain ⟨s, stamp, hs, hreport⟩ := h.report (t := w.trail) hw (r.ledgered.reportOf line w)
  have htold : (r.ledgered.run line w).2.trail = (s, w.trail.2 ++
      (r.ledgered.reportOf line w).event?.toList.map fun e => .stamped stamp m.module e.1 e.2) := by
    have htelemetry : r.ledgered.telemetry = some m.ledgered := by
      rw [ledgered, hr, Option.map_some]
    rw [trail_run htelemetry, hreport]
  rw [htold]
  exact ⟨hs, stamp, rfl⟩

end Runner
end TreeConsole
