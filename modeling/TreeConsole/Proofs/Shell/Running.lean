import TreeConsole.Proofs.Shell.Ending

/-!
# The lines that a conversation runs

A turn of a conversation runs the line that is read behind its prompt, if the prompt could be
written and there was a line, and then shows what the line led to. Nothing else in a turn takes the
runner: what was run is told in full by the turns at which a line was.

## Main definitions

* `Shell.turn?` — the line that a turn runs, with what it finds and what it leads to
* `Shell.turnsFor`, `Shell.linesFor` — the lines that so many turns run
* `Shell.conclude` — what is shown for a line

## Main results

* `Shell.step_of_turn?_eq_some` — a turn runs that line, once
* `Shell.step_of_turn?_eq_none` — or it is the same with any runner
* `Shell.linesFor_prefix` — more turns run more lines
-/

namespace TreeConsole.Shell

variable {σ κ ε τ : Type} {s : Shell σ κ ε τ} {w w' : State σ κ ε τ}
  {u : Turn σ (Terminal × κ) ε τ}

/-! ### The line that a turn runs -/

/-- What is shown for a line that was run, and what comes after it. -/
def conclude (u : Turn σ (Terminal × κ) ε τ) : Next × State σ κ ε τ :=
  match u.result with
  | .ok outcome => (if outcome = .terminate then .leave else .goOn, say outcome.shown? u.after)
  | .error e =>
    if e.isRecoverable then
      match writeLine e.shown u.after with
      | (true, w) => (.goOn, w)
      | (false, w) => (.stop closed, w)
    else (.stop ((Failure.of e.message).within "shell session aborted"), u.after)

/-- The line that a turn of a conversation runs, with what it finds and what it leads to. -/
def turn? (s : Shell σ κ ε τ) (w : State σ κ ε τ) : Option (Turn σ (Terminal × κ) ε τ) :=
  if (prompt w).1 then
    (lineOf? (listen w).1).map fun line => s.runner.turn line (listen w).2
  else none

/-- The lines that so many turns of a conversation run. -/
def turnsFor (s : Shell σ κ ε τ) : Nat → State σ κ ε τ → List (Turn σ (Terminal × κ) ε τ)
  | 0, _ => []
  | turns + 1, w =>
    (s.turn? w).toList ++
      match s.step w with
      | (.goOn, w') => turnsFor s turns w'
      | (.leave, _) | (.stop _, _) => []

/-- The lines alone. -/
def linesFor (s : Shell σ κ ε τ) (turns : Nat) (w : State σ κ ε τ) : List String :=
  (s.turnsFor turns w).map Turn.line

theorem respond_eq_conclude (s : Shell σ κ ε τ) (line : String) (w : State σ κ ε τ) :
    s.respond line w = conclude (s.runner.turn line w) := by
  rcases hrun : s.runner.run line w with ⟨e | outcome, w'⟩
  · rcases hwrite : writeLine e.shown w' with ⟨_ | _, w₁⟩ <;>
      simp only [respond, execute_of_error hrun, conclude, Runner.turn, hrun, hwrite]
  · simp only [respond_of_ok hrun, conclude, Runner.turn, hrun]

/-- What a turn does, by what is read behind its prompt. -/
theorem step_eq (s : Shell σ κ ε τ) (w : State σ κ ε τ) :
    s.step w =
      if (prompt w).1 then
        match (listen w).1 with
        | .failed reason => (.stop ((Failure.of reason).within "reading command"), (listen w).2)
        | .interrupted | .endOfInput => s.confirmQuit (listen w).2
        | .line bytes _ => s.respond (withoutLineEnd (Utf8.toText bytes)) (listen w).2
      else (.stop closed, (prompt w).2) := by
  unfold step listen
  rcases prompt w with ⟨_ | _, w'⟩ <;> rfl

/-- A turn that runs a line runs it once, and nothing is run when what it led to is shown. -/
theorem step_of_turn?_eq_some (h : s.turn? w = some u) :
    u = s.runner.turn u.line (listen w).2 ∧ s.step w = conclude u := by
  unfold turn? at h
  split at h
  case isFalse => cases h
  case isTrue hwritten =>
    obtain ⟨line, hline, rfl⟩ := Option.map_eq_some_iff.mp h
    refine ⟨rfl, ?_⟩
    rw [step_eq, if_pos hwritten, ← respond_eq_conclude]
    cases hr : (listen w).1 with
    | line bytes _ =>
      rw [hr] at hline
      cases hline
      rfl
    | interrupted | endOfInput | failed reason =>
      rw [hr] at hline
      cases hline

theorem store_confirmQuit (s : Shell σ κ ε τ) (w : State σ κ ε τ) :
    (s.confirmQuit w).2.desk.store = w.desk.store := by
  unfold confirmQuit
  rcases hw : writeLine "" w with ⟨_ | _, w₁⟩
  · exact congrArg (fun r => r.2.desk.store) hw.symm
  · have hstore : w₁.desk.store = w.desk.store := congrArg (fun r => r.2.desk.store) hw.symm
    simp only
    rcases s.quitQuestion.ask (terminal w₁) with ⟨_ | _, t⟩ <;> exact hstore

/-- A turn that runs no line would be the same with any other runner, and leaves the store alone. -/
theorem step_of_turn?_eq_none (h : s.turn? w = none) :
    (∀ r, (⟨r, s.quitDefault⟩ : Shell σ κ ε τ).step w = s.step w) ∧
      (s.step w).2.desk.store = w.desk.store := by
  simp only [step_eq]
  unfold turn? at h
  split at h
  case isFalse hfailed =>
    simp only [if_neg hfailed]
    exact ⟨fun _ => trivial, rfl⟩
  case isTrue hwritten =>
    simp only [if_pos hwritten]
    rw [Option.map_eq_none_iff] at h
    cases hr : (listen w).1 with
    | line bytes _ =>
      rw [hr] at h
      cases h
    | interrupted | endOfInput => exact ⟨fun _ => rfl, s.store_confirmQuit _⟩
    | failed reason => exact ⟨fun _ => rfl, rfl⟩

theorem store_say (reply : Option String) (w : State σ κ ε τ) :
    (say reply w).desk.store = w.desk.store := by
  cases reply <;> rfl

theorem store_conclude (u : Turn σ (Terminal × κ) ε τ) :
    (conclude u).2.desk.store = u.after.desk.store := by
  unfold conclude
  cases u.result with
  | ok outcome => exact store_say outcome.shown? u.after
  | error e =>
    simp only
    split
    · rcases hw : writeLine e.shown u.after with ⟨_ | _, w⟩ <;>
        exact congrArg (fun r => r.2.desk.store) hw.symm
    · rfl

/-! ### Conversations -/

theorem turnsFor_of_goOn (h : s.step w = (.goOn, w')) (turns : Nat) :
    s.turnsFor (turns + 1) w = (s.turn? w).toList ++ s.turnsFor turns w' := by
  simp only [turnsFor, h]

theorem turnsFor_of_ended (h : (s.step w).1 ≠ .goOn) (turns : Nat) :
    s.turnsFor (turns + 1) w = (s.turn? w).toList := by
  rcases hstep : s.step w with ⟨_ | _ | f, w'⟩
  · rw [hstep] at h
    exact absurd rfl h
  · simp only [turnsFor, hstep, List.append_nil]
  · simp only [turnsFor, hstep, List.append_nil]

theorem turnsFor_one (s : Shell σ κ ε τ) (w : State σ κ ε τ) :
    s.turnsFor 1 w = (s.turn? w).toList ∧ (s.interactFor 1 w).2 = (s.step w).2 := by
  rcases hstep : s.step w with ⟨_ | _ | f, w'⟩ <;>
    simp only [turnsFor, interactFor, hstep, List.append_nil, and_self]

/-- More turns run more lines, after those that fewer turns run. -/
theorem linesFor_prefix (s : Shell σ κ ε τ) (w : State σ κ ε τ) {turns turns' : Nat}
    (hle : turns ≤ turns') : s.linesFor turns w <+: s.linesFor turns' w := by
  refine List.IsPrefix.map Turn.line ?_
  induction turns generalizing w turns' with
  | zero => exact List.nil_prefix
  | succ turns ih =>
    obtain ⟨turns', rfl⟩ := Nat.exists_eq_add_of_le' (Nat.le_trans (Nat.succ_pos turns) hle)
    by_cases hgo : (s.step w).1 = .goOn
    · rw [turnsFor_of_goOn (Prod.ext hgo rfl), turnsFor_of_goOn (Prod.ext hgo rfl)]
      exact List.prefix_append_right_inj _ |>.mpr (ih _ (Nat.le_of_succ_le_succ hle))
    · rw [turnsFor_of_ended hgo, turnsFor_of_ended hgo]

/-- A conversation that has ended runs no more lines. -/
theorem interactFor_of_ended (h : (s.step w).1 ≠ .goOn) (turns : Nat) :
    (s.interactFor (turns + 1) w).2 = (s.step w).2 ∧ s.EndsWithin (turns + 1) w := by
  rw [EndsWithin]
  rcases hstep : s.step w with ⟨_ | _ | f, w'⟩
  · rw [hstep] at h
    exact absurd rfl h
  · rw [interactFor_of_leave s turns w w' hstep]
    exact ⟨rfl, Option.some_ne_none _⟩
  · rw [interactFor_of_stop s turns w w' hstep]
    exact ⟨rfl, Option.some_ne_none _⟩

end TreeConsole.Shell
