import TreeConsole.Proofs.Runner.Audit
import TreeConsole.Proofs.Runner.Obstacle
import TreeConsole.Proofs.Shell.Running

/-!
# What ends a conversation with a failure

A conversation over a tree ends with a failure in the turn in which its terminal or its editor
fails, and in no other. A line that cannot be run is complained of and the next one is read, since
nothing that a tree refuses makes the tree unusable. A reading that was interrupted is no failure
either; it is a question to the user.

## Main definitions

* `Shell.Breakdown` — what can end a conversation with a failure

## Main results

* `Shell.breakdown_of_step` — a turn that stops with a failure broke down
* `Shell.breakdown_of_interactFor` — a conversation that ends with a failure broke down in a turn
* `Tree.Reachable.failures_have_causes` — why lines fail, and why conversations end
-/

namespace TreeConsole

variable {κ ε τ : Type} {clock : Clock}

namespace Shell

variable {s : Shell Tree κ ε τ} {w : State Tree κ ε τ} {f : Failure}

/-- What can end a conversation with a failure. -/
inductive Breakdown (s : Shell Tree κ ε τ) (w : State Tree κ ε τ) : Failure → Prop
  /-- The prompt could not be written, or not be written out. -/
  | prompt (lost : (prompt w).1 = false) : Breakdown s w closed
  /-- A line could not be read, and the reading was not just interrupted. -/
  | reading {reason : String} (written : (prompt w).1 = true)
    (failed : (listen w).1 = .failed reason) :
    Breakdown s w ((Failure.of reason).within "reading command")
  /-- There was no line, and the question whether to leave could not be put. -/
  | silence (silent : (listen w).1 = .interrupted ∨ (listen w).1 = .endOfInput)
    (lost : (writeLine "" (listen w).2).1 = false) : Breakdown s w closed
  /-- A line failed and the complaint could not be written. -/
  | complaint {u : Turn Tree (Terminal × κ) ε τ} {e : ShellError} (ran : s.turn? w = some u)
    (result : u.result = .error e) (lost : (writeLine e.shown u.after).1 = false) :
    Breakdown s w closed
  /-- The editor failed in such a way that the shell cannot go on. -/
  | editor {u : Turn Tree (Terminal × κ) ε τ} {e : ShellError} (ran : s.turn? w = some u)
    (failed : s.runner.EditorFails u.line u.before e) (lost : e.isRecoverable = false) :
    Breakdown s w ((Failure.of e.message).within "shell session aborted")

theorem breakdown_of_confirmQuit (silent : (listen w).1 = .interrupted ∨ (listen w).1 = .endOfInput)
    (h : (s.confirmQuit (listen w).2).1 = .stop f) : s.Breakdown w f := by
  unfold confirmQuit at h
  rcases hwrite : writeLine "" (listen w).2 with ⟨_ | _, w'⟩
  · simp only [hwrite] at h
    cases h
    exact .silence silent (by rw [hwrite])
  · -- Whatever is answered, the conversation goes on or is left.
    simp only [hwrite] at h
    split at h <;> cases h

/-- A turn that stops with a failure broke down. -/
theorem breakdown_of_step (hr : s.runner.client = Tree.client clock) (hs : w.desk.store.Sound)
    (h : (s.step w).1 = .stop f) : s.Breakdown w f := by
  cases hturn : s.turn? w with
  | some u =>
    obtain ⟨hu, hstep⟩ := step_of_turn?_eq_some hturn
    rw [hstep, conclude] at h
    cases hresult : u.result with
    | ok outcome =>
      simp only [hresult] at h
      split at h <;> cases h
    | error e =>
      simp only [hresult] at h
      split at h
      · rcases hwrite : writeLine e.shown u.after with ⟨_ | _, w'⟩
        · simp only [hwrite] at h
          cases h
          exact .complaint hturn hresult (by rw [hwrite])
        · simp only [hwrite] at h
          cases h
      · -- Of all the causes of a failure only the editor is beyond recovery.
        next hlost =>
        rw [Bool.not_eq_true] at hlost
        have hrun : (s.runner.run u.line u.before).1 = .error e := by
          rw [hu] at hresult
          rw [hu]
          exact hresult
        have hsound : u.before.desk.store.Sound := by
          rw [hu]
          exact hs
        have hfailed := (Runner.cause_of_run hr hsound hrun).editor_failed hlost
        cases h
        exact .editor hturn hfailed hlost
  | none =>
    -- No line was run, so it was the prompt, the reading or the question whether to leave.
    rw [step_eq] at h
    split at h
    · next hwritten =>
      rw [turn?, if_pos hwritten, Option.map_eq_none_iff] at hturn
      cases hread : (listen w).1 with
      | line bytes _ =>
        rw [hread] at hturn
        cases hturn
      | interrupted =>
        simp only [hread] at h
        exact breakdown_of_confirmQuit (Or.inl hread) h
      | endOfInput =>
        simp only [hread] at h
        exact breakdown_of_confirmQuit (Or.inr hread) h
      | failed reason =>
        simp only [hread] at h
        cases h
        exact .reading hwritten hread
    · next hlost =>
      cases h
      exact .prompt (Bool.not_eq_true _ ▸ hlost)

/-- A turn leads from a reachable tree to a reachable tree. -/
theorem reachable_step (hr : s.runner.client = Tree.client clock)
    (hw : w.desk.store.Reachable) : (s.step w).2.desk.store.Reachable := by
  cases hturn : s.turn? w with
  | some u =>
    obtain ⟨hu, hstep⟩ := step_of_turn?_eq_some hturn
    rw [hstep, store_conclude, hu]
    exact Runner.reachable_run (w := (listen w).2) hr hw u.line
  | none =>
    rw [(step_of_turn?_eq_none hturn).2]
    exact hw

/-- A conversation that ends with a failure broke down in the turn after some turns in which it went
on. -/
theorem breakdown_of_interactFor (hr : s.runner.client = Tree.client clock)
    (hw : w.desk.store.Reachable) {turns : Nat}
    (h : (s.interactFor turns w).1 = some (.error f)) :
    ∃ n < turns, ∃ w', s.interactFor n w = (none, w') ∧ w'.desk.store.Reachable ∧
      s.Breakdown w' f := by
  -- Each turn that goes on leaves a reachable tree to the next.
  induction turns generalizing w with
  | zero => cases h
  | succ turns ih =>
    have hstore := reachable_step (s := s) hr hw
    rcases hstep : s.step w with ⟨_ | _ | f', w'⟩
    · rw [interactFor_succ s turns w w' hstep] at h
      rw [hstep] at hstore
      obtain ⟨n, hn, w'', hfor, hbreakdown⟩ := ih hstore h
      exact ⟨n + 1, Nat.succ_lt_succ hn, w'', (interactFor_succ s n w w' hstep).trans hfor,
        hbreakdown⟩
    · rw [interactFor_of_leave s turns w w' hstep] at h
      cases h
    · rw [interactFor_of_stop s turns w w' hstep] at h
      cases h
      exact ⟨0, Nat.succ_pos turns, w, rfl, hw,
        breakdown_of_step hr hw.sound (congrArg Prod.fst hstep)⟩

end Shell

namespace Tree

variable {t : Tree}

/-- A line that fails on a reachable tree has one of the causes, and only an editor that failed
makes the shell give up. If the editor fails with the failure that is meant for editors and with no
other, a failure of the tree is passed on only if it is about a text that cannot be used, and a node
with children is complained of only when it is to be deleted. A conversation over the tree therefore
ends with a failure only in a turn in which its terminal or its editor failed. -/
theorem Reachable.failures_have_causes (h : Reachable t) (clock : Clock) (editor : Editor ε)
    (telemetry : Option (Telemetry τ)) :
    (∀ (confirmer : Confirmer κ) (line : String) (w : World Tree κ ε τ), w.desk.store = t →
      let r : Runner Tree κ ε τ := ⟨client clock, confirmer, editor, telemetry⟩
      ∀ e, (r.run line w).1 = .error e → r.Cause line w e ∧
        (e.isRecoverable = false → r.EditorFails line w e) ∧
        (editor.FailsAsEditor →
          (∀ failure, e = .client failure → ∃ text, failure = .invalidPath text) ∧
          (∀ path, e = .nodeNotEmpty path → validate line = .ok .delete) ∧
          (e.isRecoverable = false → ∃ reason, e = .editor reason))) ∧
    ∀ (confirmer : Confirmer (Terminal × κ)) (quitDefault : Bool) (w : Shell.State Tree κ ε τ),
      w.desk.store = t →
      let s : Shell Tree κ ε τ := ⟨⟨client clock, confirmer, editor, telemetry⟩, quitDefault⟩
      ∀ turns f, (s.interactFor turns w).1 = some (.error f) →
        ∃ n < turns, ∃ w', s.interactFor n w = (none, w') ∧ w'.desk.store.Reachable ∧
          s.Breakdown w' f := by
  constructor
  · rintro confirmer line w rfl r e hfails
    have hcause := Runner.cause_of_run (r := r) rfl h.sound hfails
    refine ⟨hcause, hcause.editor_failed, fun heditor => ?_⟩
    rcases hcause.editorFails_or with
      ⟨_, _, _, _, -, -, -, hfailed⟩ | ⟨hrecoverable, hclient, hnode⟩
    · obtain ⟨reason, rfl⟩ := heditor _ _ _ _ hfailed
      exact ⟨nofun, nofun, fun _ => ⟨reason, rfl⟩⟩
    · refine ⟨hclient, hnode, fun hlost => ?_⟩
      rw [hrecoverable] at hlost
      cases hlost
  · rintro confirmer quitDefault w rfl s turns f hfails
    exact Shell.breakdown_of_interactFor (s := s) rfl h hfails

/-- The editor crashes on a node: the line fails with that, and the conversation ends in its second
turn, after a node with children was not deleted in the first. -/
theorem failures_have_causes_grove :
    let crash : Editor Unit := ⟨fun _ _ e => (.error (.editor "crashed"), e)⟩
    let r : Runner Tree Unit Unit Unit := ⟨client default, .assumeDefault, crash, none⟩
    let s : Shell Tree Unit Unit Unit :=
      ⟨⟨client default, Confirmer.onTerminal.onFirst, crash, none⟩, true⟩
    let w : World Tree Unit Unit Unit := ⟨⟨grove, .start false, ()⟩, (), (), []⟩
    let w' : Shell.State Tree Unit Unit Unit :=
      ⟨⟨grove, .start false, ()⟩, (.ofInput (Utf8.ofText "delete /p\ny\nedit /p2\n"), ()), (), []⟩
    let f := (Failure.of "editor failure: crashed").within "shell session aborted"
    crash.FailsAsEditor ∧ ((r.run "edit /p2" w).1 = .error (.editor "crashed") ∧
        r.EditorFails "edit /p2" w (.editor "crashed")) ∧
      (s.interactFor 3 w').1 = some (.error f) ∧
        ∃ n < 3, ∃ w'', s.interactFor n w' = (none, w'') ∧ s.Breakdown w'' f := by
  intro crash r s w w' f
  obtain ⟨hlines, hconversations⟩ :=
    @Reachable.failures_have_causes Unit Unit Unit grove reachable_grove default crash none
  have hcrash : crash.FailsAsEditor := by
    intro path payload s e h
    cases h
    exact ⟨"crashed", rfl⟩
  have hline : (r.run "edit /p2" w).1 = .error (.editor "crashed") := by decide +kernel
  have hends : (s.interactFor 3 w').1 = some (.error f) := by decide +kernel
  obtain ⟨n, hn, w'', hfor, -, hbreakdown⟩ :=
    hconversations Confirmer.onTerminal.onFirst true w' rfl 3 f hends
  obtain ⟨-, hfailed, hcauses⟩ := hlines .assumeDefault "edit /p2" w rfl _ hline
  obtain ⟨reason, heq⟩ := (hcauses hcrash).2.2 rfl
  cases heq
  exact ⟨hcrash, ⟨hline, hfailed rfl⟩, hends, n, hn, w'', hfor, hbreakdown⟩

end Tree
end TreeConsole
