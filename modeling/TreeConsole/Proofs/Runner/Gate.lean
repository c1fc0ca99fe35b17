import TreeConsole.Proofs.Runner.Recording
import TreeConsole.Proofs.Tree.Refinement

/-!
# The gate before writing

A session is read-only or it is not, and a line can change that. Whatever is run, and in whatever
order, a request that can change the store is made only for a line that is a command of the writing
sort, and only if the session was not read-only when the line was begun. A writing command that
comes upon a read-only session is turned away before anybody is asked anything.

## Main definitions

* `Turn.Gated` — a turn in which nothing passed the gate that should not have

## Main results

* `Runner.requests_of_run` — the requests of a line are those of its command
* `Runner.runs_gated` — every turn of every run is gated; a run that cannot open the gate leaves a
  tree as it was
-/

namespace TreeConsole

open Act (Keeps)

/-- A turn in which nothing passed the gate that should not have. -/
structure Turn.Gated {σ κ ε τ : Type} (u : RecordedTurn σ κ ε τ) : Prop where
  /-- A request that can change the store is made only for a writing command, and only in a session
  that was not read-only before. -/
  writes : ∃ made, u.after.desk.store.2 = u.before.desk.store.2 ++ made ∧
    ∀ q ∈ made, q.mutates = true → u.before.session.readOnly = false ∧
      ∃ k ∈ [Keyword.create, .set, .delete, .rmr, .edit], validate u.line = .ok k
  /-- A writing command that is turned away has made no request, put no question, and opened no
  editor. -/
  refused : ∀ k ∈ [Keyword.create, .set, .delete, .rmr, .edit], validate u.line = .ok k →
    u.before.session.readOnly = true →
      u.result = .error (.unauthorizedWrite k) ∧ u.after.desk.store = u.before.desk.store ∧
        u.after.asker = u.before.asker ∧ u.after.desk.editor = u.before.desk.editor

theorem Keyword.mutates_iff_mem {k : Keyword} :
    k.mutates = true ↔ k ∈ [Keyword.create, .set, .delete, .rmr, .edit] := by
  cases k <;> decide

/-! ### Lists of requests -/

section Lists

variable {σ ε : Type} {client : Client σ} {editor : Editor (ε × List (String × Bytes))}

/-- Since a list was kept, only requests of a sort were added to it. -/
def Desk.Asked (log : List Request) (allowed : Request → Bool) (d : RecordedDesk σ ε) : Prop :=
  ∃ made, d.store.2 = log ++ made ∧ ∀ q ∈ made, allowed q = true

variable {log : List Request} {allowed : Request → Bool}

theorem Desk.asked_none (d : RecordedDesk σ ε) (allowed : Request → Bool) :
    d.Asked d.store.2 allowed :=
  ⟨[], (List.append_nil _).symm, fun _ hq => absurd hq List.not_mem_nil⟩

theorem recorded_keeps_asked {q : Request} (hq : allowed q = true) :
    Keeps (fun d : RecordedDesk σ ε => d.Asked log allowed) (Desk.request client.recorded q) := by
  rintro d ⟨made, hlog, hmade⟩
  rw [Desk.run_request]
  refine ⟨made ++ [q], ?_, fun q' hq' => ?_⟩
  · rw [← List.append_assoc, ← hlog]
    rfl
  · rcases List.mem_append.mp hq' with hq' | hq'
    · exact hmade q' hq'
    · rw [List.mem_singleton.mp hq']
      exact hq

/-- The requests that a command makes are among those that it may make. -/
theorem Command.handle_keeps_asked (c : Command) :
    Keeps (fun d : RecordedDesk σ ε => d.Asked log c.keyword.mayRequest)
      (c.handle client.recorded editor) := by
  refine c.handle_keeps (fun q hq => recorded_keeps_asked hq) (fun _ path payload => ?_) fun _ => ?_
  · intro d hd
    rw [Desk.run_openEditor]
    exact hd
  · exact Act.keeps_update fun d hd => hd

end Lists

namespace Runner

variable {σ κ ε τ : Type} {r : Runner σ κ ε τ} {line : String}

/-- The requests of a line are those of the command that it is, and if that is a writing command
the session was not read-only. -/
theorem requests_of_run (r : Runner σ κ ε τ) (line : String) (w : RecordedWorld σ κ ε τ) :
    ∃ made, (r.recorded.run line w).2.desk.store.2 = w.desk.store.2 ++ made ∧
      ∀ q ∈ made, ∃ k, validate line = .ok k ∧ k.mayRequest q = true ∧
        (k.mutates = true → w.session.readOnly = false) := by
  obtain ⟨result, d, asker, hcourse, -, -, hdesk⟩ := r.recorded.run_course line w
  rw [hdesk]
  cases hcourse with
  | blank | malformed | refused | declined =>
    exact ⟨[], (List.append_nil _).symm, fun q hq => by cases hq⟩
  | done hline allowed consent =>
    obtain ⟨made, hlog, hmade⟩ := Command.handle_keeps_asked _ w.desk (Desk.asked_none w.desk _)
    refine ⟨made, hlog, fun q hq => ⟨_, Command.validate_of_ofLine hline, hmade q hq, allowed⟩⟩

/-- A writing command in a read-only session is turned away, with nothing asked of anybody. -/
theorem run_of_refused {w : World σ κ ε τ} {k : Keyword} (hk : k.mutates = true)
    (hline : validate line = .ok k) (hw : w.session.readOnly = true) :
    (r.run line w).1 = .error (.unauthorizedWrite k) ∧
      (r.run line w).2.desk = { w.desk with session := w.session.advance } ∧
      (r.run line w).2.asker = w.asker := by
  obtain ⟨result, d, asker, hcourse, hresult, hasker, hdesk⟩ := r.run_course line w
  rw [hresult, hasker, hdesk]
  obtain ⟨token, rest, -, -, hcommand⟩ := Command.ofLine_of_validate hline
  have hshut : ¬ (k.mutates = true → w.session.readOnly = false) := by
    rw [hk, hw]
    simp
  -- The line is the command, and the gate is shut: only one course is left.
  cases hcourse with
  | blank h =>
    rw [isBlankText_of_validate hline] at h
    cases h
  | malformed _ h =>
    rw [hcommand] at h
    cases h
  | refused h =>
    rw [hcommand] at h
    cases h
    exact ⟨rfl, rfl, rfl⟩
  | declined h allowed | done h allowed =>
    rw [hcommand] at h
    cases h
    exact absurd allowed hshut

theorem gated_turn (r : Runner σ κ ε τ) (line : String) (w : RecordedWorld σ κ ε τ) :
    (r.recorded.turn line w).Gated where
  writes := by
    obtain ⟨made, hlog, hmade⟩ := r.requests_of_run line w
    refine ⟨made, hlog, fun q hq hmutates => ?_⟩
    obtain ⟨k, hline, hmay, hopen⟩ := hmade q hq
    have hk : k.mutates = true := Keyword.mutates_of_mayRequest hmay hmutates
    exact ⟨hopen hk, k, Keyword.mutates_iff_mem.mp hk, hline⟩
  refused := by
    intro k hk hline hw
    obtain ⟨hresult, hdesk, hasker⟩ :=
      run_of_refused (r := r.recorded) (Keyword.mutates_iff_mem.mpr hk) hline hw
    have hstore := congrArg Desk.store hdesk
    have heditor := congrArg Desk.editor hdesk
    exact ⟨hresult, hstore, hasker, heditor⟩

/-! ### Trees behind a shut gate -/

/-- In a read-only session a line that is not `toggle_write` leaves a tree as it was and the session
read-only. -/
theorem run_of_readOnly {r : Runner Tree κ ε τ} {clock : Clock} {w : World Tree κ ε τ} {t : Tree}
    (hr : r.client = Tree.client clock) (hline : validate line ≠ .ok .toggleWrite)
    (hw : w.session.readOnly = true ∧ w.desk.store = t) :
    (r.run line w).2.session.readOnly = true ∧ (r.run line w).2.desk.store = t := by
  obtain ⟨result, d, asker, hcourse, -, -, hdesk⟩ := r.run_course line w
  rw [World.session, hdesk]
  cases hcourse with
  | blank | malformed | refused | declined => exact hw
  | @done c _ h allowed =>
    have hreads : c.keyword.mutates = false := by
      rw [← Bool.not_eq_true]
      intro hc
      rw [hw.1] at allowed
      cases allowed hc
    have hkeeps : Keeps (fun d : Desk Tree ε => d.session.readOnly = true ∧ d.store = t)
        (c.handle r.client r.editor) := by
      refine c.handle_keeps (fun q hq d hd => ?_) (fun hedit => ?_) fun htoggle => ?_
      · -- A command that got through the shut gate asks for nothing that changes the tree.
        have hq' : q.mutates = false := Keyword.reads_of_mayRequest hreads hq
        rw [Desk.run_request, hr]
        exact ⟨hd.1, (Tree.client_answer_snd_of_reads clock q d.store hq').trans hd.2⟩
      · rw [hedit] at hreads
        cases hreads
      · exact absurd (htoggle ▸ Command.validate_of_ofLine h) hline
    exact hkeeps w.desk hw

/-- The parties of a run may keep lists, which change nothing in it, and by these lists every turn
is gated. A run over a tree that starts read-only and has no line that is `toggle_write` leaves the
tree as it was. -/
theorem runs_gated {κ' ε' τ' : Type} (r : Runner σ κ ε τ) (lines : List String) :
    (∀ w, (r.recorded.turns lines w).map Turn.forget = r.turns lines w.forget ∧
        ∀ u ∈ r.recorded.turns lines w, u.Gated) ∧
      ∀ (clock : Clock) (confirmer : Confirmer κ') (editor : Editor ε')
        (telemetry : Option (Telemetry τ')) (w : World Tree κ' ε' τ'),
        w.session.readOnly = true → (∀ line ∈ lines, validate line ≠ .ok .toggleWrite) →
          let r' : Runner Tree κ' ε' τ' := ⟨Tree.client clock, confirmer, editor, telemetry⟩
          (r'.finish lines w).desk.store = w.desk.store := by
  refine ⟨fun w => ⟨r.map_forget_turns lines w, fun u hu => ?_⟩, ?_⟩
  · rw [eq_turn_of_mem hu]
    exact r.gated_turn u.line u.before
  · intro clock confirmer editor telemetry w hw hlines r'
    have hkeeps : (r'.finish lines w).session.readOnly = true ∧
        (r'.finish lines w).desk.store = w.desk.store :=
      finish_keeps (P := fun w' => w'.session.readOnly = true ∧ w'.desk.store = w.desk.store)
        (fun line hline _ hw' => run_of_readOnly rfl (hlines line hline) hw') ⟨hw, rfl⟩
    exact hkeeps.2

/-- Nobody is asked about a deletion in a read-only session, although the answer would be yes. -/
theorem runs_gated_grove :
    let r : Runner Tree (List Bool) Unit Unit :=
      ⟨Tree.client default, .scripted, ⟨fun _ payload e => (.ok payload, e)⟩, none⟩
    let w : RecordedWorld Tree (List Bool) Unit Unit :=
      ⟨⟨(Tree.grove, []), .start true, ((), [])⟩, ([true], []), (), []⟩
    let lines := ["rmr /p", "create /q", "get /p2"]
    let u := r.recorded.turn "rmr /p" w
    u.result = .error (.unauthorizedWrite .rmr) ∧ u.after.desk.store = (Tree.grove, []) ∧
      u.after.asker = ([true], []) ∧ (r.finish lines w.forget).desk.store = Tree.grove := by
  intro r w lines u
  obtain ⟨hturns, hfinish⟩ := r.runs_gated lines
  have hlines : ∀ line ∈ lines, validate line ≠ .ok .toggleWrite := by decide +kernel
  have hvalid : validate "rmr /p" = .ok .rmr := by decide +kernel
  have hgated : u.Gated := (hturns w).2 u List.mem_cons_self
  obtain ⟨hresult, hstore, hasker, -⟩ := hgated.refused .rmr (by decide) hvalid rfl
  exact ⟨hresult, hstore, hasker, hfinish default .scripted _ none w.forget rfl hlines⟩

end Runner
end TreeConsole
