import TreeConsole.Proofs.Question.Console
import TreeConsole.Proofs.Runner.Gate

/-!
# Deletions and consent

A node is deleted only by a line that is a deletion, in a session that may write, and only after one
question that names the very path that is then deleted. No other line puts a question. Where the
question is put to a user, deleting takes a line that says yes, read after the question was written:
no failure of the input or the output, and no end of it, ever stands for consent.

## Main definitions

* `Question.deletion` — the question before a deletion
* `Turn.Confirmed` — a turn in which nothing was deleted without being asked about

## Main results

* `Runner.confirmed_turn` — every turn is of this sort
* `Runner.deletions_confirmed` — and over any means of writing and reading a deletion takes a yes
  that was read
-/

namespace TreeConsole

variable {σ κ ε τ : Type} {line path : String} {k : Keyword} {recursive : Bool}

/-- The question before a node is deleted, alone or with everything below it. -/
def Question.deletion (path : String) (recursive : Bool) : Question where
  message := "Are you sure you want to delete " ++ path ++
    if recursive then " and all its children?" else "?"
  default := false

/-- A turn in which nothing was deleted without being asked about. -/
structure Turn.Confirmed (confirmer : Confirmer κ) (u : RecordedTurn σ κ ε τ) : Prop where
  /-- A deletion in a session that may write puts one question, and what comes of it is settled by
  the answer: nothing at all, or one request to delete the path that the question names. -/
  asked : ∀ k ∈ [Keyword.delete, .rmr], validate u.line = .ok k →
    u.before.session.readOnly = false → ∃ path, (scan u.line).tail.map Token.text = [path] ∧
      let q := Question.deletion path (k = .rmr)
      let a := confirmer.ask q u.before.asker.1
      u.after.asker = (a.2, u.before.asker.2 ++ [q]) ∧
        (a.1 = false → u.result = .ok .declined ∧ u.after.desk.store = u.before.desk.store) ∧
        (a.1 = true →
          u.after.desk.store.2 = u.before.desk.store.2 ++ [.deleteNode path (k = .rmr)])
  /-- Any other line puts no question and deletes nothing. -/
  unasked : (∀ k ∈ [Keyword.delete, .rmr], validate u.line = .ok k →
      u.before.session.readOnly = true) →
    u.after.asker = u.before.asker ∧
      ∃ made, u.after.desk.store.2 = u.before.desk.store.2 ++ made ∧
        ∀ path recursive, .deleteNode path recursive ∉ made

theorem Keyword.asks_iff_mem : k.asks = true ↔ k ∈ [Keyword.delete, .rmr] := by
  cases k <;> decide

theorem Keyword.asks_of_mayRequest (h : k.mayRequest (.deleteNode path recursive) = true) :
    k.asks = true := by
  cases k <;> first | rfl | cases h

/-! ### Lines that are deletions -/

namespace Command

/-- A line that is a deletion has one argument. -/
theorem ofLine_of_deletion (hk : k.asks = true) (h : validate line = .ok k) :
    ∃ path, (scan line).tail.map Token.text = [path] ∧ ofLine line = .ok ⟨k, [path]⟩ := by
  obtain ⟨token, rest, hscan, hfills, hok⟩ := ofLine_of_validate h
  have hslots : k.slots = [.required .path] := by
    cases k <;> first | rfl | cases hk
  rw [hslots] at hfills
  obtain ⟨t, rfl⟩ : ∃ t, rest = [t] := by
    rcases rest with _ | ⟨t, _ | ⟨t', rest⟩⟩
    · cases hfills
    · exact ⟨t, rfl⟩
    · simp [fills, Slot.required] at hfills
  rw [hscan]
  exact ⟨t.text, rfl, hok⟩

theorem question?_of_deletion (hk : k.asks = true) :
    question? ⟨k, [path]⟩ = some (.deletion path (k = .rmr)) := by
  cases k <;> first | rfl | cases hk

/-- A deletion makes one request. -/
theorem run_handle_of_deletion (hk : k.asks = true) (path : String) (client : Client σ)
    (editor : Editor ε) (d : Desk σ ε) :
    ((handle client editor ⟨k, [path]⟩).run d).2 =
      { d with store := (client.answer (.deleteNode path (k = .rmr)) d.store).2 } := by
  have hremove : handle client editor ⟨k, [path]⟩ =
      Desk.request client (.deleteNode path (k = .rmr)) >>= fun _ => pure silent := by
    cases k <;> first | rfl | cases hk
  rw [hremove]
  have hrequest := Desk.run_request client (.deleteNode path (k = .rmr)) d
  rcases hanswer : (client.answer (.deleteNode path (k = .rmr)) d.store).1 with e | a
  · rw [hanswer] at hrequest
    rw [Act.bind_of_error hrequest]
  · rw [hanswer] at hrequest
    rw [Act.bind_of_ok hrequest]
    rfl

end Command

namespace Runner

/-- A deletion in a session that may write is carried out or declined, as the answer says. -/
theorem dispatch_of_deletion {r : Runner σ κ ε τ} {w : World σ κ ε τ} (hk : k.asks = true)
    (hw : w.session.readOnly = false) :
    r.dispatch ⟨k, [path]⟩ w =
      match r.confirmer.ask (.deletion path (k = .rmr)) w.asker with
      | (true, asker) => r.perform ⟨k, [path]⟩ { w with asker }
      | (false, asker) => (.ok .declined, { w with asker }) := by
  simp only [dispatch, hw, Bool.and_false, Command.question?_of_deletion hk]
  rfl

/-- A line that is no deletion, or comes upon a read-only session, leaves the asker alone. -/
theorem asker_run_of_unasked {r : Runner σ κ ε τ} {w : World σ κ ε τ}
    (h : ∀ k ∈ [Keyword.delete, .rmr], validate line = .ok k → w.session.readOnly = true) :
    (r.run line w).2.asker = w.asker := by
  obtain ⟨result, d, asker, hcourse, -, hasker, -⟩ := r.run_course line w
  rw [hasker]
  -- A command that asks would have to be a deletion that got through the gate.
  have hquestion : ∀ c : Command, Command.ofLine line = .ok c →
      (c.keyword.mutates = true → w.session.readOnly = false) → c.question? = none := by
    intro c hline allowed
    rw [← Option.not_isSome_iff_eq_none, Command.isSome_question?]
    intro hasks
    have hw := h c.keyword (Keyword.asks_iff_mem.mp hasks) (Command.validate_of_ofLine hline)
    rw [allowed (Keyword.asks_imp_mutates hasks)] at hw
    cases hw
  cases hcourse with
  | blank | malformed | refused => rfl
  | declined hline allowed hq =>
    rw [hquestion _ hline allowed] at hq
    cases hq
  | done hline allowed consent =>
    rw [Consent, hquestion _ hline allowed] at consent
    exact consent

/-- In a session that may write a line that is a deletion puts its question. A no leaves the store
alone; a yes makes one request of it, about the path that the question names. -/
theorem run_of_deletion {r : Runner σ κ ε τ} {w : World σ κ ε τ} (hk : k.asks = true)
    (hline : validate line = .ok k) (hw : w.session.readOnly = false) :
    ∃ path, (scan line).tail.map Token.text = [path] ∧
      let a := r.confirmer.ask (.deletion path (k = .rmr)) w.asker
      (r.run line w).2.asker = a.2 ∧
        (a.1 = false →
          (r.run line w).1 = .ok .declined ∧ (r.run line w).2.desk.store = w.desk.store) ∧
        (a.1 = true → (r.run line w).2.desk.store =
          (r.client.answer (.deleteNode path (k = .rmr)) w.desk.store).2) := by
  obtain ⟨path, hargs, hok⟩ := Command.ofLine_of_deletion hk hline
  obtain ⟨hresult, hasker, hdesk⟩ := run_of_ofLine (r := r) (w := w) hok
  have hstore := congrArg Desk.store hdesk
  rw [dispatch_of_deletion hk hw] at hresult hasker hstore
  refine ⟨path, hargs, ?_⟩
  rcases ha : r.confirmer.ask (.deletion path (k = .rmr)) w.asker with ⟨_ | _, asker⟩
  · rw [ha] at hresult hasker hstore
    exact ⟨hasker, fun _ => ⟨hresult, hstore⟩, fun hyes => by cases hyes⟩
  · rw [ha] at hasker hstore
    have hhandle := Command.run_handle_of_deletion hk path r.client r.editor w.desk
    exact ⟨hasker, fun hno => (by cases hno), fun _ => hstore.trans (congrArg Desk.store hhandle)⟩

/-- Only a line that is a deletion, in a session that may write, requests that something be
deleted. -/
theorem deletion_of_made {r : Runner σ κ ε τ} {w : RecordedWorld σ κ ε τ} {made : List Request}
    (hlog : (r.recorded.run line w).2.desk.store.2 = w.desk.store.2 ++ made)
    (hmem : .deleteNode path recursive ∈ made) :
    ∃ k, k.asks = true ∧ validate line = .ok k ∧ w.session.readOnly = false := by
  obtain ⟨made', hlog', hmade⟩ := r.requests_of_run line w
  obtain rfl : made = made' := List.append_cancel_left (hlog.symm.trans hlog')
  obtain ⟨k, hline, hmay, hopen⟩ := hmade _ hmem
  have hk := Keyword.asks_of_mayRequest hmay
  exact ⟨k, hk, hline, hopen (Keyword.asks_imp_mutates hk)⟩

theorem confirmed_turn (r : Runner σ κ ε τ) (line : String) (w : RecordedWorld σ κ ε τ) :
    (r.recorded.turn line w).Confirmed r.confirmer where
  asked := by
    intro k hk hline hw
    obtain ⟨path, hargs, hasker, hno, hyes⟩ :=
      run_of_deletion (r := r.recorded) (Keyword.asks_iff_mem.mpr hk) hline hw
    exact ⟨path, hargs, hasker, hno, fun ha => congrArg Prod.snd (hyes ha)⟩
  unasked := by
    intro h
    obtain ⟨made, hlog, -⟩ := r.requests_of_run line w
    refine ⟨asker_run_of_unasked h, made, hlog, fun path recursive hmem => ?_⟩
    obtain ⟨k, hk, hline, hw⟩ := deletion_of_made hlog hmem
    have hshut : w.session.readOnly = true := h k (Keyword.asks_iff_mem.mp hk) hline
    rw [hw] at hshut
    cases hshut

/-- Over any means of writing and reading, a request to delete something is made only after a yes
that was read once the question about it had been written out. -/
theorem says_yes_of_made {ι : Type} {c : Console ι} {r : Runner σ ι ε τ} {w : RecordedWorld σ ι ε τ}
    {made : List Request} (hr : r.confirmer = .onConsole c)
    (hlog : (r.recorded.run line w).2.desk.store.2 = w.desk.store.2 ++ made)
    (hmem : .deleteNode path recursive ∈ made) :
    c.SaysYes (.deletion path recursive) w.asker.1 (r.recorded.run line w).2.asker.1 := by
  obtain ⟨k, hk, hline, hw⟩ := deletion_of_made hlog hmem
  obtain ⟨path', -, hasker, hno, hyes⟩ := run_of_deletion (r := r.recorded) hk hline hw
  rw [hasker]
  rcases ha : r.confirmer.ask (.deletion path' (k = .rmr)) w.asker.1 with ⟨_ | _, asker⟩
  · -- A no leaves the list as it was, and then nothing was requested.
    have hstore := (hno (congrArg Prod.fst ha)).2
    rw [hstore, List.self_eq_append_right] at hlog
    rw [hlog] at hmem
    cases hmem
  · have hstore := congrArg Prod.snd (hyes (congrArg Prod.fst ha))
    obtain rfl : made = [.deleteNode path' (k = .rmr)] :=
      List.append_cancel_left (hlog.symm.trans hstore)
    cases List.mem_singleton.mp hmem
    have hafter : (r.recorded.confirmer.ask (.deletion path (k = .rmr)) w.asker).2.1 = asker :=
      congrArg Prod.snd ha
    rw [hr] at ha
    rw [hafter]
    exact Confirmer.says_yes_of_onConsole rfl ha

/-- Whoever is asked, a turn is one in which nothing was deleted without being asked about. Where
questions are put over some means of writing and reading, a request to delete something is made only
after a yes that was read once the question about it had been written out. -/
theorem deletions_confirmed (r : Runner σ κ ε τ) (line : String) :
    (∀ w, r.run line w.forget = ((r.recorded.run line w).1, (r.recorded.run line w).2.forget) ∧
      (r.recorded.turn line w).Confirmed r.confirmer) ∧
    ∀ {ι : Type} (c : Console ι) (w : RecordedWorld σ ι ε τ),
      let u := Runner.recorded ⟨r.client, .onConsole c, r.editor, r.telemetry⟩ |>.turn line w
      ∀ made path recursive, u.after.desk.store.2 = u.before.desk.store.2 ++ made →
        .deleteNode path recursive ∈ made →
          c.SaysYes (.deletion path recursive) u.before.asker.1 u.after.asker.1 :=
  ⟨fun w => ⟨r.run_forget line w, r.confirmed_turn line w⟩,
    fun _ _ _ _ _ hlog hmem => says_yes_of_made rfl hlog hmem⟩

/-- A deletion goes through at the second answer, which is a yes; the first was no answer. -/
theorem deletions_confirmed_grove :
    let r : Runner Tree Terminal Unit Unit :=
      ⟨Tree.client default, .onConsole .terminal, ⟨fun _ payload e => (.ok payload, e)⟩, none⟩
    let asked := Terminal.ofReadings
      [.line [0x3f, 0x0a] (by decide), .line [0x59, 0x65, 0x73, 0x0a] (by decide)]
    let w : RecordedWorld Tree Terminal Unit Unit :=
      ⟨⟨(Tree.grove, []), .start false, ((), [])⟩, (asked, []), (), []⟩
    let u := r.recorded.turn "rmr /p" w
    u.after.asker.2 = [.deletion "/p" true] ∧
      u.after.desk.store.2 = [.deleteNode "/p" true] ∧
      Console.terminal.SaysYes (.deletion "/p" true) asked u.after.asker.1 := by
  intro r asked w u
  have hline : validate "rmr /p" = .ok .rmr := by decide +kernel
  have hargs : (scan "rmr /p").tail.map Token.text = ["/p"] := by decide +kernel
  have hanswer : (Confirmer.onTerminal.ask (.deletion "/p" true) asked).1 = true := by
    decide +kernel
  obtain ⟨hturns, hyes⟩ := r.deletions_confirmed "rmr /p"
  obtain ⟨path, hpath, hasker, -, hmade⟩ := (hturns w).2.asked .rmr (by decide) hline rfl
  cases hargs.symm.trans hpath
  have hmade' : u.after.desk.store.2 = [.deleteNode "/p" true] := by
    refine hmade ?_
    rw [show r.confirmer = .onTerminal from Confirmer.onConsole_terminal]
    exact hanswer
  exact ⟨congrArg Prod.snd hasker, hmade',
    hyes .terminal w [.deleteNode "/p" true] "/p" true hmade' List.mem_cons_self⟩

end Runner
end TreeConsole
