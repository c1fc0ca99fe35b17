import Mathlib.Data.List.Forall2
import TreeConsole.Proofs.Runner.Failure
import TreeConsole.Proofs.Runner.Gate
import TreeConsole.Proofs.Runner.Readings
import TreeConsole.Proofs.Runner.Sessions
import TreeConsole.Proofs.Telemetry.Ledger
import TreeConsole.Telemetry.Journal

/-!
# Audited runs

The events that are published of a run tell, line by line and in order, which lines wrote to the
tree and which changed the mode. A line that changes the tree is told of by exactly one event. The
converse is not claimed: a writing command that goes through is told of although it may have found
the tree as it was to be. But a line that fails, is declined, or says that nothing was changed is
not told of.

## Main definitions

* `Turn.Wrote` — a writing command went through and did not say that it changed nothing
* `Turn.Audited` — a turn of which the right events are told

## Main results

* `Runner.wrote_of_store_ne` — a line that changes a tree is a writing command that went through
* `Tree.Reachable.runs_audited` — every turn of every run is audited
-/

namespace TreeConsole

open Act (Keeps Spares)

variable {σ κ ε τ : Type} {line : String} {k : Keyword} {c : Command}

/-! ### Reports with an event -/

namespace LineReport

variable {r : LineReport} {path : String}

/-- The line was a command that went through and did not say that it changed nothing. -/
def Carries (r : LineReport) (c : Command) : Prop :=
  r.command = some c ∧ ∃ reply, r.result = .ok (.proceed reply) ∧ ∀ text, reply ≠ .unchanged text

theorem event?_of_mutates (h : r.Carries c) (hc : c.keyword.mutates = true)
    (hpath : c.arg? 0 = some path) :
    r.event? = some (mutationType, .obj [("index", .num (.int r.index.toNat)),
      ("keyword", .str c.keyword.word), ("path", .str path)]) := by
  obtain ⟨hcommand, reply, hresult, hreply⟩ := h
  have hmode : c.keyword ≠ .toggleWrite := by
    intro hmode
    rw [hmode] at hc
    cases hc
  unfold event?
  cases reply with
  | unchanged text => exact absurd rfl (hreply text)
  | empty | text | payload => simp [hcommand, hresult, hmode, hc, hpath]

theorem event?_of_toggleWrite (h : r.Carries c) (hc : c.keyword = .toggleWrite) :
    r.event? = some (writeModeType,
      .obj [("index", .num (.int r.index.toNat)), ("read_only", .bool r.readOnly)]) := by
  obtain ⟨hcommand, reply, hresult, hreply⟩ := h
  unfold event?
  cases reply with
  | unchanged text => exact absurd rfl (hreply text)
  | empty | text | payload => simp [hcommand, hresult, hc]

/-- Only a report of such a command has an event. -/
theorem exists_carries_of_event? {e : String × Json} (h : r.event? = some e) :
    ∃ c, r.Carries c ∧ (c.keyword = .toggleWrite ∨ c.keyword.mutates = true) := by
  unfold event? at h
  split at h
  · rename_i c reply hcommand hresult
    refine ⟨c, ⟨hcommand, reply, hresult, ?_⟩, ?_⟩
    · rintro text rfl
      cases h
    · by_contra hneither
      rw [not_or] at hneither
      cases reply <;> simp_all
  · cases h

end LineReport

namespace Runner

variable {r : Runner σ κ ε τ} {w : World σ κ ε τ}

/-- Telemetry is told of a command if the line was one. -/
theorem command_reportOf : (r.reportOf line w).command = some c ↔ Command.ofLine line = .ok c := by
  have hcommand : (r.reportOf line w).command = (r.answer line w).1 := rfl
  rw [hcommand]
  unfold answer
  by_cases hblank : Text.isBlankText line = true
  · rw [if_pos hblank]
    refine ⟨fun h => (by cases h), fun h => ?_⟩
    rw [isBlankText_of_validate (Command.validate_of_ofLine h)] at hblank
    cases hblank
  · rw [if_neg hblank]
    cases Command.ofLine line <;> simp

/-- The mode that is told is the one after the line. -/
theorem readOnly_reportOf (r : Runner σ κ ε τ) (line : String) (w : World σ κ ε τ) :
    (r.reportOf line w).readOnly = (r.run line w).2.session.readOnly := by
  have hsession := r.session_tell (r.reportOf line w) (r.answer line w).2.2
  rw [run_eq]
  exact (congrArg Session.readOnly hsession).symm

/-! ### Lines that change the mode -/

theorem run_of_toggleWrite (r : Runner σ κ ε τ) (w : World σ κ ε τ)
    (h : validate line = .ok .toggleWrite) :
    (∃ text, (r.run line w).1 = .ok (.proceed (.text text))) ∧
      (r.run line w).2.session.readOnly = !w.session.readOnly := by
  obtain ⟨token, rest, -, -, hok⟩ := Command.ofLine_of_validate h
  rw [(run_of_ofLine (r := r) (w := w) hok).1, session_run, Session.readOnly_after, if_pos h]
  exact ⟨⟨_, rfl⟩, rfl⟩

end Runner

/-! ### Lines that change a tree -/

section Trees

variable {client : Client σ} {editor : Editor ε} {clock : Clock} {t : Tree} {P : σ → Prop}

theorem request_keeps_store {q : Request} (hq : q.mutates = false) :
    Keeps (fun d : Desk Tree ε => d.store = t) (Desk.request (Tree.client clock) q) := by
  rintro d rfl
  rw [Desk.run_request]
  exact Tree.client_answer_snd_of_reads clock q d.store hq

theorem request_spares_store (ht : t.Sound) (q : Request) :
    Spares (fun d : Desk Tree ε => d.store = t) (Desk.request (Tree.client clock) q) := by
  rintro d rfl e he
  rw [Desk.run_request] at he ⊢
  cases ha : ((Tree.client clock).answer q d.store).1 with
  | error e' => exact Tree.Call.eq_of_run_error (c := .ask q) ht (fun _ heq => by cases heq) ha
  | ok a =>
    rw [ha] at he
    cases he

theorem openEditor_keeps_store (editor : Editor ε) (path : String) (payload : Bytes) :
    Keeps (fun d : Desk σ ε => P d.store) (Desk.openEditor editor path payload) := by
  intro d hd
  rw [Desk.run_openEditor]
  exact hd

theorem updateSession_keeps_store (f : Session → Session) :
    Keeps (fun d : Desk σ ε => P d.store) (Desk.updateSession f) := fun _ hd => hd

namespace Runner

variable {r : Runner Tree κ ε τ} {w : World Tree κ ε τ}

/-- A line leads from a reachable tree to a reachable tree. -/
theorem reachable_run (hr : r.client = Tree.client clock) (hw : w.desk.store.Reachable)
    (line : String) : (r.run line w).2.desk.store.Reachable := by
  obtain ⟨result, d, asker, hcourse, -, -, hdesk⟩ := r.run_course line w
  rw [hdesk]
  cases hcourse with
  | blank | malformed | refused | declined => exact hw
  | @done c =>
    have hkeeps : Keeps (fun d : Desk Tree ε => d.store.Reachable)
        (c.handle r.client r.editor) := by
      refine c.handle_keeps (fun q _ d hd => ?_) (fun _ => openEditor_keeps_store r.editor)
        fun _ => updateSession_keeps_store _
      rw [Desk.run_request, hr]
      exact hd.call clock (.ask q)
    exact hkeeps w.desk hw

/-- A line with a result that promises that nothing was changed leaves the tree as it was. -/
theorem store_run_of_idle (hr : r.client = Tree.client clock) (hw : w.desk.store.Sound)
    (h : Idle (r.run line w).1) : (r.run line w).2.desk.store = w.desk.store := by
  obtain ⟨result, d, asker, hcourse, hresult, -, hdesk⟩ := r.run_course line w
  rw [hresult] at h
  rw [hdesk]
  cases hcourse with
  | blank | malformed | refused | declined => rfl
  | @done c =>
    rw [hr] at h ⊢
    exact c.handle_idle (fun q => request_keeps_store) (request_spares_store hw)
      (openEditor_keeps_store (P := (· = w.desk.store)) r.editor) w.desk rfl h

/-- A line that is no writing command leaves the tree as it was. -/
theorem store_run_of_reads (hr : r.client = Tree.client clock)
    (h : ∀ k, validate line = .ok k → k.mutates = false) :
    (r.run line w).2.desk.store = w.desk.store := by
  obtain ⟨result, d, asker, hcourse, -, -, hdesk⟩ := r.run_course line w
  rw [hdesk]
  cases hcourse with
  | blank | malformed | refused | declined => rfl
  | @done c _ hline =>
    have hreads : c.keyword.mutates = false := h _ (Command.validate_of_ofLine hline)
    rw [hr]
    exact c.handle_keeps (fun q hq => request_keeps_store (Keyword.reads_of_mayRequest hreads hq))
      (fun _ => openEditor_keeps_store (P := (· = w.desk.store)) r.editor)
      (fun _ => updateSession_keeps_store (P := (· = w.desk.store)) _) w.desk rfl

/-- A writing command does not end the session. -/
theorem run_ne_terminate (h : validate line = .ok k) (hk : k.mutates = true) :
    (r.run line w).1 ≠ .ok .terminate := by
  rw [ne_eq, run_eq_terminate_iff]
  rintro ⟨k', hk', h'⟩
  cases h.symm.trans h'
  rw [(Keyword.idle_of_leaving hk').1] at hk
  cases hk

end Runner
end Trees

/-! ### Turns -/

namespace Turn

/-- A writing command went through, and it did not say that it changed nothing. -/
def Wrote (u : Turn σ κ ε τ) (k : Keyword) : Prop :=
  k ∈ [Keyword.create, .set, .delete, .rmr, .edit] ∧ validate u.line = .ok k ∧
    ∃ reply, u.result = .ok (.proceed reply) ∧ ∀ text, reply ≠ .unchanged text

/-- A turn of which the right events are told. -/
structure Audited (module : String) (u : Turn Tree κ ε τ) (told : List AuditEvent) : Prop where
  /-- Of a command that wrote one event is told, with the number of the line, the command word and
  the first argument. -/
  wrote : ∀ k, u.Wrote k → ∃ stamp path rest, (scan u.line).tail.map Token.text = path :: rest ∧
    told = [.stamped stamp module LineReport.mutationType
      (.obj [("index", .num (.int u.before.session.index.toNat)), ("keyword", .str k.word),
        ("path", .str path)])]
  /-- Of a change of the mode one event is told, with the number of the line and the new mode. -/
  switched : validate u.line = .ok .toggleWrite →
    u.after.session.readOnly = !u.before.session.readOnly ∧
      ∃ stamp, told = [.stamped stamp module LineReport.writeModeType
        (.obj [("index", .num (.int u.before.session.index.toNat)),
          ("read_only", .bool u.after.session.readOnly)])]
  /-- Of anything else nothing is told. -/
  silent : (∀ k, ¬ u.Wrote k) → validate u.line ≠ .ok .toggleWrite → told = []
  /-- A change of the tree is covered by one event. -/
  covered : u.after.desk.store ≠ u.before.desk.store →
    ∃ e, told = [e] ∧ e.type = LineReport.mutationType
  /-- A line that was refused, failed, was declined or says that nothing was changed is covered by
  none. -/
  uncovered : Idle u.result → told = []

end Turn

namespace Runner

variable {r : Runner Tree κ ε τ} {w : World Tree κ ε τ} {clock : Clock}

theorem not_idle_of_wrote {u : Turn σ κ ε τ} (h : u.Wrote k) : ¬ Idle u.result := by
  obtain ⟨-, -, reply, hresult, hreply⟩ := h
  rw [hresult]
  cases reply with
  | unchanged text => exact absurd rfl (hreply text)
  | empty | text | payload => exact id

/-- A line that changes a tree is a writing command that went through. -/
theorem wrote_of_store_ne (hr : r.client = Tree.client clock) (hw : w.desk.store.Sound)
    (h : (r.run line w).2.desk.store ≠ w.desk.store) : ∃ k, (r.turn line w).Wrote k := by
  obtain ⟨k, hline, hk⟩ : ∃ k, validate line = .ok k ∧ k.mutates = true := by
    by_contra hnone
    refine h (store_run_of_reads hr fun k hline => ?_)
    rw [← Bool.not_eq_true]
    exact fun hk => hnone ⟨k, hline, hk⟩
  have hbusy : ¬ Idle (r.run line w).1 := fun hidle => h (store_run_of_idle hr hw hidle)
  have hstays := run_ne_terminate (r := r) (w := w) hline hk
  refine ⟨k, Keyword.mutates_iff_mem.mp hk, hline, ?_⟩
  rcases hresult : (r.run line w).1 with e | reply | _ | _
  · rw [hresult] at hbusy
    exact absurd trivial hbusy
  · rw [hresult] at hbusy
    refine ⟨reply, hresult, ?_⟩
    rintro text rfl
    exact hbusy trivial
  · rw [hresult] at hbusy
    exact absurd trivial hbusy
  · exact absurd hresult hstays

/-- A writing command has a first argument. -/
theorem ofLine_of_mutates (hk : k.mutates = true) (h : validate line = .ok k) :
    ∃ path rest, (scan line).tail.map Token.text = path :: rest ∧
      Command.ofLine line = .ok ⟨k, path :: rest⟩ := by
  obtain ⟨token, tokens, hscan, -, hok⟩ := Command.ofLine_of_validate h
  have hslot : k.slots[0]? = some (.required .path) := by
    cases k <;> first | rfl | cases hk
  obtain ⟨path, hpath, -⟩ := Command.exists_arg_of_ofLine hok hslot rfl
  rw [hscan, List.tail_cons]
  cases tokens with
  | nil => cases hpath
  | cons t tokens => exact ⟨t.text, tokens.map Token.text, rfl, hok⟩

/-! ### Events of lines -/

section Events

variable {r : Runner σ κ ε τ} {w : World σ κ ε τ}

theorem event?_of_wrote (h : (r.turn line w).Wrote k) :
    ∃ path rest, (scan line).tail.map Token.text = path :: rest ∧
      (r.reportOf line w).event? = some (LineReport.mutationType,
        .obj [("index", .num (.int w.session.index.toNat)), ("keyword", .str k.word),
          ("path", .str path)]) := by
  obtain ⟨hmem, hline, hreply⟩ := h
  have hk := Keyword.mutates_iff_mem.mpr hmem
  obtain ⟨path, rest, hargs, hok⟩ := ofLine_of_mutates hk hline
  have hcarries : (r.reportOf line w).Carries ⟨k, path :: rest⟩ :=
    ⟨command_reportOf.mpr hok, hreply⟩
  exact ⟨path, rest, hargs, LineReport.event?_of_mutates hcarries hk rfl⟩

theorem event?_of_switched (line : String) (h : validate line = .ok .toggleWrite) :
    (r.reportOf line w).event? = some (LineReport.writeModeType,
      .obj [("index", .num (.int w.session.index.toNat)),
        ("read_only", .bool (r.run line w).2.session.readOnly)]) := by
  obtain ⟨token, rest, -, -, hok⟩ := Command.ofLine_of_validate h
  obtain ⟨⟨text, hresult⟩, -⟩ := r.run_of_toggleWrite w h
  have hcarries : (r.reportOf line w).Carries ⟨.toggleWrite, rest.map Token.text⟩ :=
    ⟨command_reportOf.mpr hok, .text text, hresult, fun _ => Reply.noConfusion⟩
  rw [LineReport.event?_of_toggleWrite hcarries rfl, readOnly_reportOf]
  rfl

/-- Whatever has an event is one of these two. -/
theorem event?_of_silent (hwrote : ∀ k, ¬ (r.turn line w).Wrote k)
    (hmode : validate line ≠ .ok .toggleWrite) : (r.reportOf line w).event? = none := by
  by_contra hsome
  obtain ⟨e, he⟩ := Option.ne_none_iff_exists'.mp hsome
  obtain ⟨c, ⟨hcommand, hreply⟩, hc⟩ := LineReport.exists_carries_of_event? he
  have hline := Command.validate_of_ofLine (command_reportOf.mp hcommand)
  rcases hc with hc | hc
  · exact hmode (hc ▸ hline)
  · exact hwrote c.keyword ⟨Keyword.mutates_iff_mem.mp hc, hline, hreply⟩

theorem event?_of_idle (line : String) (h : Idle (r.run line w).1) :
    (r.reportOf line w).event? = none := by
  refine event?_of_silent (fun k hk => not_idle_of_wrote hk h) fun hline => ?_
  obtain ⟨⟨text, hresult⟩, -⟩ := r.run_of_toggleWrite w hline
  rw [hresult] at h
  exact h

end Events

/-- The event of the report of a line is what has to be told of it. -/
theorem audited_of_report (hr : r.client = Tree.client clock) (hw : w.desk.store.Sound)
    (module : String) (stamp : Stamp) (line : String) :
    (r.turn line w).Audited module
      ((r.reportOf line w).event?.toList.map fun e => .stamped stamp module e.1 e.2) where
  wrote := by
    intro k hk
    obtain ⟨path, rest, hargs, hevent⟩ := event?_of_wrote hk
    rw [hevent]
    exact ⟨stamp, path, rest, hargs, rfl⟩
  switched := by
    intro hline
    rw [event?_of_switched line hline]
    exact ⟨(r.run_of_toggleWrite w hline).2, stamp, rfl⟩
  silent := by
    intro hwrote hmode
    rw [event?_of_silent hwrote hmode]
    rfl
  covered := by
    intro hchanged
    obtain ⟨k, hk⟩ := wrote_of_store_ne hr hw hchanged
    obtain ⟨path, rest, -, hevent⟩ := event?_of_wrote hk
    rw [hevent]
    exact ⟨_, rfl, rfl⟩
  uncovered := by
    intro hidle
    rw [event?_of_idle line hidle]
    rfl

/-- What the lines of a run add to the ledger is what has to be told of its turns. -/
theorem audited_turns {m : Telemetry τ} {Good : τ → Prop} {r : Runner Tree κ ε τ}
    (h : m.Accepts Good) (hr : r.client = Tree.client clock) (hm : r.telemetry = some m)
    (lines : List String) {w : World Tree κ ε (τ × List AuditEvent)}
    (hw : w.desk.store.Reachable) (hgood : Good w.trail.1) :
    ∃ told, (r.ledgered.finish lines w).trail.2 = w.trail.2 ++ told.flatten ∧
      List.Forall₂ (Turn.Audited m.module) (r.ledgered.turns lines w) told := by
  induction lines generalizing w with
  | nil => exact ⟨[], (List.append_nil _).symm, .nil⟩
  | cons line lines ih =>
    obtain ⟨hgood', stamp, hadded⟩ := ledger_run line h hm hgood
    -- The ledger of the other lines begins where that of the first one ends.
    obtain ⟨told, hledger, htold⟩ := ih (reachable_run (r := r.ledgered) hr hw line) hgood'
    refine ⟨_, ?_, .cons (audited_of_report (r := r.ledgered) hr hw.sound _ stamp line) htold⟩
    have hfinish : r.ledgered.finish (line :: lines) w =
        r.ledgered.finish lines (r.ledgered.run line w).2 := rfl
    rw [hfinish, hledger, hadded, List.flatten_cons, List.append_assoc]

end Runner

end TreeConsole
