import TreeConsole.Proofs.Runner.Audit
import TreeConsole.Proofs.Telemetry.Files

/-!
# Events beside a log that may fail

Telemetry writes the record of a line before it publishes the event, and gives up when the record
cannot be written. The event of that line is then lost, although the line has done what it did. This
is all that a log does to events: which of its records are kept makes no difference, and neither
does whether there is one. To see this, two runs of the same lines are compared whose telemetries
have nothing to do with each other. The lines do the same in both, since nothing that a line does
depends on what was told of those before it.

## Main definitions

* `Runner.bare`, `World.bare`, `Turn.bare` — a run as it is without telemetry
* `Telemetry.Publishes` — telemetry whose publisher takes every event, whatever its log does
* `Runner.events` — the events that are published in a run
* `Runner.toldOf` — what is published of a turn

## Main results

* `Runner.map_bare_turns` — telemetry makes no difference to what lines do
* `Runner.news_events` — the events of a run, by its turns
* `Runner.events_beside_log` — two runs that differ in their logs
-/

namespace TreeConsole

variable {σ κ ε τ τ₁ τ₂ : Type}

/-! ### Runs without telemetry -/

/-- A world without what telemetry writes to. -/
def World.bare (w : World σ κ ε τ) : World σ κ ε Unit := ⟨w.desk, w.asker, (), []⟩

/-- A turn without what telemetry writes to. -/
def Turn.bare (u : Turn σ κ ε τ) : Turn σ κ ε Unit :=
  ⟨u.line, u.before.bare, u.result, u.after.bare⟩

namespace Runner

/-- A runner without telemetry. -/
def bare (r : Runner σ κ ε τ) : Runner σ κ ε Unit := ⟨r.client, r.confirmer, r.editor, none⟩

variable {r : Runner σ κ ε τ}

theorem dispatch_bare (c : Command) (w : World σ κ ε τ) :
    r.bare.dispatch c w.bare = ((r.dispatch c w).1, (r.dispatch c w).2.bare) := by
  have hsession : w.bare.session = w.session := rfl
  have hask : ∀ q, r.bare.confirmer.ask q w.bare.asker = r.confirmer.ask q w.asker := fun _ => rfl
  unfold dispatch
  rw [hsession]
  split
  · rfl
  · cases c.question? with
    | none => rfl
    | some q =>
      simp only [hask]
      rcases r.confirmer.ask q w.asker with ⟨_ | _, asker⟩ <;> rfl

theorem answer_bare (line : String) (w : World σ κ ε τ) :
    r.bare.answer line w.bare =
      ((r.answer line w).1, (r.answer line w).2.1, (r.answer line w).2.2.bare) := by
  unfold answer
  split
  · rfl
  · cases Command.ofLine line with
    | error e => rfl
    | ok c => simp only [dispatch_bare]

theorem bare_tell (report : LineReport) (w : World σ κ ε τ) : (r.tell report w).bare = w.bare := by
  simp only [World.bare, desk_tell, asker_tell]

theorem run_bare (r : Runner σ κ ε τ) (line : String) (w : World σ κ ε τ) :
    r.bare.run line w.bare = ((r.run line w).1, (r.run line w).2.bare) := by
  have hadvance : ∀ w' : World σ κ ε τ, w'.advance.bare = w'.bare.advance := fun _ => rfl
  rw [run_eq, run_eq, answer_bare, hadvance, bare_tell]
  rfl

/-- Telemetry makes no difference to what lines do. -/
theorem map_bare_turns (r : Runner σ κ ε τ) (lines : List String) (w : World σ κ ε τ) :
    (r.turns lines w).map Turn.bare = r.bare.turns lines w.bare := by
  induction lines generalizing w with
  | nil => rfl
  | cons line lines ih =>
    rw [turns, turns, List.map_cons, ih, turn, turn, run_bare]
    rfl

theorem reportOf_bare (r : Runner σ κ ε τ) (line : String) (w : World σ κ ε τ) :
    r.bare.reportOf line w.bare = r.reportOf line w := by
  simp only [reportOf, answer_bare]
  rfl

end Runner

/-! ### Events of a run -/

/-- What an event says, whenever and by whomever. -/
def AuditEvent.news (e : AuditEvent) : String × Json := (e.type, e.payload)

/-- Telemetry whose publisher takes every event, as long as it is in good states. Its log may fail,
but leaves good states good. -/
structure Telemetry.Publishes (m : Telemetry τ) (Good : τ → Prop) : Prop where
  stamps : ∀ t, Good t → Good (m.stamp t).2
  logs : ∀ log ∈ m.log, ∀ record t, Good t → Good (log.write record t).2
  publishes : ∃ p, m.publisher = some p ∧ ∀ e, Attempt.Succeeds Good (p.publish e)

namespace Telemetry.Publishes

variable {m : Telemetry τ} {Good : τ → Prop}

/-- Without its log the telemetry takes everything. -/
theorem accepts (h : m.Publishes Good) : ({ m with log := none } : Telemetry τ).Accepts Good where
  stamps := h.stamps
  logs := by
    rintro log hlog
    cases hlog
  publishes := h.publishes

theorem record (h : m.Publishes Good) {t : τ} (ht : Good t) (level : LogLevel) (message : String)
    (metadata : Json) : Good (m.record level message metadata t).2 := by
  unfold Telemetry.record
  cases hlog : m.log with
  | none => exact ht
  | some log =>
    have hstamp : Good (m.stamp t).2 := h.stamps t ht
    dsimp only
    split
    · exact h.logs log hlog _ _ hstamp
    · exact hstamp

end Telemetry.Publishes

/-- Whether a report is not told because its record could not be written. -/
def Telemetry.withholds (m : Telemetry τ) (report : LineReport) (t : τ) : Bool :=
  match (m.record report.level lineMessage (.obj report.metadata) t).1 with
  | .ok _ => false
  | .error _ => true

/-- What is put down of a report is its event, unless the record could not be written. -/
theorem Telemetry.Publishes.report {m : Telemetry τ} {Good : τ → Prop} (h : m.Publishes Good)
    {t : τ × List AuditEvent} (ht : Good t.1) (report : LineReport) :
    Good (m.ledgered.report report t).2.1 ∧
      (m.ledgered.report report t).2.2.map AuditEvent.news = t.2.map AuditEvent.news ++
        if m.withholds report t.1 then [] else report.event?.toList := by
  have hgood := h.record ht report.level Telemetry.lineMessage (.obj report.metadata)
  -- The event comes after the record, and not at all if the record failed.
  rcases hrecord : m.record report.level lineMessage (.obj report.metadata) t.1 with ⟨f | _, s⟩
  · rw [hrecord] at hgood
    simp only [Telemetry.report, record_ledgered, Telemetry.withholds, hrecord, if_true,
      List.append_nil, and_true]
    exact hgood
  · rw [hrecord] at hgood
    simp only [Telemetry.report, record_ledgered, Telemetry.withholds, hrecord]
    cases report.event? with
    | none => exact ⟨hgood, by simp⟩
    | some e =>
      obtain ⟨s', stamp, hs', hpublish⟩ := h.accepts.publish (t := (s, t.2)) hgood e.1 e.2
      have htold : m.ledgered.publish e.1 e.2 (s, t.2) =
          (.ok (), s', t.2 ++ [.stamped stamp m.module e.1 e.2]) := hpublish
      simp only [htold]
      exact ⟨hs', by simp [AuditEvent.news, AuditEvent.stamped]⟩

namespace Runner

/-- The events that are published in a run: the ledger at its end, if it is empty at the start. -/
def events (r : Runner σ κ ε τ) (lines : List String) (w : World σ κ ε τ) : List AuditEvent :=
  (r.ledgered.finish lines (w.map id fun t => (t, []))).trail.2

/-- What there is to tell of a turn. -/
def newsOf (r : Runner σ κ ε τ) (u : Turn σ κ ε τ) : Option (String × Json) :=
  (r.reportOf u.line u.before).event?

/-- Whether a turn is not told of because its record could not be written. -/
def withholds (r : Runner σ κ ε τ) (u : Turn σ κ ε τ) : Bool :=
  r.telemetry.any fun m => m.withholds (r.reportOf u.line u.before) u.before.trail

/-- What is told of a turn. -/
def toldOf (r : Runner σ κ ε τ) (u : Turn σ κ ε τ) : Option (String × Json) :=
  if r.withholds u then none else r.newsOf u

variable {r : Runner σ κ ε τ} {m : Telemetry τ} {Good : τ → Prop}

theorem reportOf_ledgered (r : Runner σ κ ε τ) (line : String)
    (w : World σ κ ε (τ × List AuditEvent)) :
    r.ledgered.reportOf line w = r.reportOf line (w.map id Prod.fst) := by
  simp only [reportOf, r.ledgered_looksLike.answer]
  rfl

/-- A line adds to the ledger what is told of it. -/
theorem news_run (h : m.Publishes Good) (hr : r.telemetry = some m) (line : String)
    {w : World σ κ ε (τ × List AuditEvent)} (hw : Good w.trail.1) :
    Good (r.ledgered.run line w).2.trail.1 ∧
      (r.ledgered.run line w).2.trail.2.map AuditEvent.news = w.trail.2.map AuditEvent.news ++
        (r.toldOf (r.turn line (w.map id Prod.fst))).toList := by
  obtain ⟨hgood, hnews⟩ := h.report hw (r.ledgered.reportOf line w)
  have htelemetry : r.ledgered.telemetry = some m.ledgered := by
    rw [ledgered, hr, Option.map_some]
  rw [trail_run htelemetry]
  refine ⟨hgood, hnews.trans (congrArg (w.trail.2.map AuditEvent.news ++ ·) ?_)⟩
  -- The log of the run with a ledger is that of the run without, so that they fail together.
  have hwithholds : r.withholds (r.turn line (w.map id Prod.fst)) =
      m.withholds (r.ledgered.reportOf line w) w.trail.1 := by
    rw [withholds, hr, reportOf_ledgered]
    rfl
  rw [toldOf, hwithholds, newsOf, reportOf_ledgered]
  split <;> rfl

/-- A run adds to the ledger what is told of its turns. -/
theorem news_finish (h : m.Publishes Good) (hr : r.telemetry = some m) (lines : List String)
    {w : World σ κ ε (τ × List AuditEvent)} (hw : Good w.trail.1) :
    (r.ledgered.finish lines w).trail.2.map AuditEvent.news = w.trail.2.map AuditEvent.news ++
      (r.turns lines (w.map id Prod.fst)).filterMap r.toldOf := by
  induction lines generalizing w with
  | nil => exact (List.append_nil _).symm
  | cons line lines ih =>
    obtain ⟨hgood, hnews⟩ := news_run h hr line hw
    have hfinish : r.ledgered.finish (line :: lines) w =
        r.ledgered.finish lines (r.ledgered.run line w).2 := rfl
    rw [hfinish, ih hgood, hnews, turns, r.ledgered_looksLike.run, List.append_assoc]
    cases htold : r.toldOf (r.turn line (w.map id Prod.fst)) with
    | none => rw [List.filterMap_cons_none htold, Option.toList_none, List.nil_append]
    | some e => rw [List.filterMap_cons_some htold, Option.toList_some, List.singleton_append]

/-- The events of a run are what is told of its turns, one after the other. -/
theorem news_events (h : m.Publishes Good) (hr : r.telemetry = some m) (lines : List String)
    {w : World σ κ ε τ} (hw : Good w.trail) :
    (r.events lines w).map AuditEvent.news = (r.turns lines w).filterMap r.toldOf :=
  news_finish h hr lines (w := w.map id fun t => (t, [])) hw

/-- What there is to tell of a turn does not depend on what was told before it. -/
theorem map_newsOf_bare (r : Runner σ κ ε τ) (lines : List String) (w : World σ κ ε τ) :
    (r.turns lines w).map r.newsOf = (r.bare.turns lines w.bare).map r.bare.newsOf := by
  rw [← map_bare_turns, List.map_map]
  exact List.map_congr_left fun u _ =>
    congrArg LineReport.event? (r.reportOf_bare u.line u.before).symm

/-- What is told is what there is to tell, without what is withheld. -/
theorem filterMap_toldOf_sublist (r : Runner σ κ ε τ) (us : List (Turn σ κ ε τ)) :
    (us.filterMap r.toldOf).Sublist ((us.map r.newsOf).filterMap id) := by
  have htold : us.filterMap r.toldOf = (us.filter fun u => !r.withholds u).filterMap r.newsOf := by
    rw [List.filterMap_filter]
    refine List.filterMap_congr fun u _ => ?_
    rw [toldOf]
    cases r.withholds u <;> rfl
  rw [htold, List.filterMap_map]
  exact List.filter_sublist.filterMap _

/-- Where nothing is withheld, all that there is to tell is told. -/
theorem filterMap_toldOf {us : List (Turn σ κ ε τ)} (h : ∀ u ∈ us, r.withholds u = false) :
    us.filterMap r.toldOf = (us.map r.newsOf).filterMap id := by
  rw [List.filterMap_map]
  refine List.filterMap_congr fun u hu => ?_
  rw [toldOf, h u hu]
  rfl

/-- Two runs of the same lines with telemetries that have nothing in common but that their
publishers take every event. The lines do the same in both, and there is the same to tell of them.
In each run the events are what there is to tell, without the lines whose record could not be
written. So a log loses events at most; and where every record that is kept is written, it makes no
difference which are kept, or whether there is a log. -/
theorem events_beside_log (client : Client σ) (confirmer : Confirmer κ) (editor : Editor ε)
    {m₁ : Telemetry τ₁} {m₂ : Telemetry τ₂} {Good₁ : τ₁ → Prop} {Good₂ : τ₂ → Prop}
    (h₁ : m₁.Publishes Good₁) (h₂ : m₂.Publishes Good₂) (lines : List String)
    (w₁ : World σ κ ε τ₁) (w₂ : World σ κ ε τ₂) (desk : w₁.desk = w₂.desk)
    (asker : w₁.asker = w₂.asker) (good₁ : Good₁ w₁.trail) (good₂ : Good₂ w₂.trail) :
    let r₁ : Runner σ κ ε τ₁ := ⟨client, confirmer, editor, some m₁⟩
    let r₂ : Runner σ κ ε τ₂ := ⟨client, confirmer, editor, some m₂⟩
    ((r₁.turns lines w₁).map Turn.bare = (r₂.turns lines w₂).map Turn.bare ∧
        (r₁.turns lines w₁).map r₁.newsOf = (r₂.turns lines w₂).map r₂.newsOf) ∧
      ((r₁.events lines w₁).map AuditEvent.news = (r₁.turns lines w₁).filterMap r₁.toldOf ∧
        (r₂.events lines w₂).map AuditEvent.news = (r₂.turns lines w₂).filterMap r₂.toldOf) ∧
      ((∀ u ∈ r₂.turns lines w₂, r₂.withholds u = false) →
        ((r₁.events lines w₁).map AuditEvent.news).Sublist
            ((r₂.events lines w₂).map AuditEvent.news) ∧
          ((∀ u ∈ r₁.turns lines w₁, r₁.withholds u = false) →
            (r₁.events lines w₁).map AuditEvent.news =
              (r₂.events lines w₂).map AuditEvent.news)) := by
  intro r₁ r₂
  have hrunner : r₁.bare = r₂.bare := rfl
  have hworld : w₁.bare = w₂.bare := by rw [World.bare, World.bare, desk, asker]
  have hnews : (r₁.turns lines w₁).map r₁.newsOf = (r₂.turns lines w₂).map r₂.newsOf := by
    refine (r₁.map_newsOf_bare lines w₁).trans ?_
    rw [hrunner, hworld]
    exact (r₂.map_newsOf_bare lines w₂).symm
  have htold₁ := news_events (r := r₁) h₁ rfl lines good₁
  have htold₂ := news_events (r := r₂) h₂ rfl lines good₂
  refine ⟨⟨?_, hnews⟩, ⟨htold₁, htold₂⟩, fun hkept₂ => ⟨?_, fun hkept₁ => ?_⟩⟩
  · rw [map_bare_turns, map_bare_turns, hrunner, hworld]
  · rw [htold₁, htold₂, filterMap_toldOf hkept₂, ← hnews]
    exact r₁.filterMap_toldOf_sublist _
  · rw [htold₁, htold₂, filterMap_toldOf hkept₂, filterMap_toldOf hkept₁, hnews]

/-- A log of warnings over a file, and no log at all: the same is told of a line that is no command,
a change of the mode, a new node and a deletion that is declined. -/
theorem events_beside_log_grove :
    let telemetry (log : Option (Log Journal)) : Telemetry Journal :=
      ⟨"treesh", log, some Journal.memoryPublisher, Journal.stamp fun _ => default⟩
    let r (log : Option (Log Journal)) : Runner Tree Unit Unit Journal :=
      ⟨Tree.client default, .assumeDefault, ⟨fun _ payload e => (.ok payload, e)⟩,
        some (telemetry log)⟩
    let log : Log Journal :=
      ⟨.warn, fun record => Journal.append "session.log" record.line "opening log file"⟩
    let w (disk : Disk) : World Tree Unit Unit Journal :=
      ⟨⟨Tree.grove, .start true, ()⟩, (), .onDisk disk 1, []⟩
    let lines := ["bogus", "toggle_write", "create /q", "delete /p2"]
    ((r (some log)).events lines (w Journal.blankDisk)).map AuditEvent.news =
        ((r none).events lines (w .empty)).map AuditEvent.news ∧
      ((r none).events lines (w .empty)).map AuditEvent.type =
        [LineReport.writeModeType, LineReport.mutationType] := by
  intro telemetry r log w lines
  have hpublishes : ∀ log, (telemetry log).Publishes fun _ => True := fun log =>
    ⟨fun _ _ => trivial, fun _ _ _ _ _ => trivial, _, rfl, fun _ _ _ => ⟨rfl, trivial⟩⟩
  obtain ⟨-, -, hsame⟩ := events_beside_log (r none).client (r none).confirmer (r none).editor
    (hpublishes (some log)) (hpublishes none) lines (w Journal.blankDisk) (w .empty) rfl rfl
    trivial trivial
  have hkept : ((r none).turns lines (w .empty)).all (fun u => !(r none).withholds u) = true := by
    decide +kernel
  have hkept' : ((r (some log)).turns lines (w Journal.blankDisk)).all
      (fun u => !(r (some log)).withholds u) = true := by
    decide +kernel
  simp only [List.all_eq_true, Bool.not_eq_true'] at hkept hkept'
  exact ⟨(hsame hkept).2 hkept', by decide +kernel⟩

/-- Beside a log on a device that is always full the event of a new node is not told. -/
theorem full_log_silences :
    let r (log : Option (Log Journal)) : Runner Tree Unit Unit Journal :=
      ⟨Tree.client default, .assumeDefault, ⟨fun _ payload e => (.ok payload, e)⟩,
        some ⟨"treesh", log, some Journal.memoryPublisher, Journal.stamp fun _ => default⟩⟩
    let w : World Tree Unit Unit Journal :=
      ⟨⟨Tree.empty default, .start false, ()⟩, (), .onDisk .empty 1, []⟩
    ∃ log, (∃ d, Journal.openLog "/dev/full" .info Disk.empty = .ok (log, d)) ∧
      ((r none).events ["create /a"] w).map AuditEvent.news ≠
        ((r (some log)).events ["create /a"] w).map AuditEvent.news ∧
      ((r none).events ["create /a"] w).map AuditEvent.type = [LineReport.mutationType] ∧
      (r (some log)).events ["create /a"] w = [] ∧
      ((r (some log)).finish ["create /a"] w).desk.store.has
        (NodePath.root.child "a" (by decide)) = true := by
  intro r w
  let log : Log Journal :=
    ⟨.info, fun record => Journal.append "/dev/full" record.line "opening log file"⟩
  have htold : ((r none).events ["create /a"] w).map AuditEvent.type =
      [LineReport.mutationType] := by
    decide +kernel
  have hsilenced : (r (some log)).events ["create /a"] w = [] := by
    rw [← List.map_eq_nil_iff (f := AuditEvent.type)]
    decide +kernel
  refine ⟨log, ⟨Disk.empty, rfl⟩, fun hsame => ?_, htold, hsilenced, by decide +kernel⟩
  rw [hsilenced, List.map_nil, List.map_eq_nil_iff] at hsame
  rw [hsame] at htold
  cases htold

end Runner
end TreeConsole
