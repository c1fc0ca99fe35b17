import TreeConsole.Proofs.Runner.Answers
import TreeConsole.Proofs.Shell.Limit
import TreeConsole.Proofs.Shell.Running

/-!
# Conversations whose output fails

As long as a limited output takes what is written, a conversation on it keeps abreast of the same
conversation without a limit. A write that fails may hit a prompt, a reply, a complaint or a
question, and each of them takes it in its own way; but after any of them nothing more can be
written, so that the turn is the last one in which anything is done. A question that gets no answer
then takes its default, and for a deletion that is a no.

## Main definitions

* `Shell.curtailed` — a world whose output takes so many bytes more
* `Shell.Pace` — a turn on a limited output beside the same turn without a limit
* `Shell.EndsDeclined` — the last line that was run is a deletion that was declined
* `Shell.Beside` — a conversation on a limited output beside the same one without a limit

## Main results

* `Shell.interactFor_of_spent` — once nothing more can be written, nothing more is run
* `Shell.pace_step` — how the two turns compare
* `Shell.interactFor_curtailed` — how the two conversations compare
-/

namespace TreeConsole.Shell

variable {σ κ ε τ : Type} {s : Shell σ κ ε τ} {w w' : State σ κ ε τ} {limit : Nat}

/-! ### When nothing more can be written -/

theorem prompt_ne_empty (session : Session) : session.prompt ≠ "" := by
  simp [Session.prompt]

theorem step_of_spent (h : (terminal w).Spent) :
    s.turn? w = none ∧ s.step w = (.stop closed, (prompt w).2) := by
  have hspent : (terminal (measure w)).Spent := h
  have hfailed : (prompt w).1 = false := hspent.writeOut_fails (prompt_ne_empty _)
  constructor
  · rw [turn?, hfailed]
    rfl
  · rw [step_eq, hfailed]
    rfl

/-- Once nothing more can be written, a conversation ends and nothing more is run. -/
theorem interactFor_of_spent (h : (terminal w).Spent) (turns : Nat) :
    s.turnsFor turns w = [] ∧ (s.interactFor turns w).2.desk.store = w.desk.store ∧
      s.EndsWithin (turns + 1) w := by
  obtain ⟨hnone, hstep⟩ := step_of_spent (s := s) h
  refine ⟨?_, ?_, ?_⟩
  · cases turns with
    | zero => rfl
    | succ turns => simp only [turnsFor, hnone, hstep, Option.toList_none, List.nil_append]
  · cases turns with
    | zero => rfl
    | succ turns =>
      rw [interactFor_of_stop s turns w _ hstep]
      rfl
  · rw [EndsWithin, interactFor_of_stop s turns w _ hstep]
    exact Option.some_ne_none _

theorem spent_say (h : (terminal w).Spent) (reply : Option String) :
    (terminal (say reply w)).Spent := by
  cases reply with
  | none => exact h
  | some text => exact h.write _

theorem spent_conclude (h : (terminal u.after).Spent) : (terminal (conclude u).2).Spent := by
  unfold conclude
  cases u.result with
  | ok outcome => exact spent_say h outcome.shown?
  | error e =>
    simp only
    split
    · have hspent : (terminal (writeLine e.shown u.after).2).Spent := h.write _
      rcases hw : writeLine e.shown u.after with ⟨_ | _, w⟩ <;> rw [hw] at hspent <;> exact hspent
    · exact h

/-! ### Abreast -/

/-- A world whose output takes so many bytes more. -/
def curtailed (limit : Nat) (w : State σ κ ε τ) : State σ κ ε τ :=
  withTerminal w ((terminal w).limited limit)

theorem curtailed_eq_withAsker (limit : Nat) (w : State σ κ ε τ) :
    curtailed limit w = w.withAsker ((terminal w).limited limit, w.asker.2) := rfl

/-- A text is written on the limited output too, or nothing can be written after it. -/
theorem write_curtailed (h : (terminal w).IsOpen) (limit : Nat) (text : String) :
    (∃ left, left + (Utf8.ofText text).length = limit ∧
      write text (curtailed limit w) = (true, curtailed left (write text w).2)) ∨
    ((write text (curtailed limit w)).1 = false ∧
      (terminal (write text (curtailed limit w)).2).Spent) := by
  rcases Terminal.write_limited h limit text with ⟨left, hleft, hwritten⟩ | hspent
  · refine Or.inl ⟨left, hleft, ?_⟩
    have hterminal : terminal (curtailed limit w) = (terminal w).limited limit := rfl
    rw [write, hterminal, hwritten]
    rfl
  · exact Or.inr hspent

theorem writeOut_curtailed (h : (terminal w).IsOpen) (limit : Nat) (text : String) :
    (∃ left, left + (Utf8.ofText text).length = limit ∧
      writeOut text (curtailed limit w) = (true, curtailed left (writeOut text w).2)) ∨
    ((writeOut text (curtailed limit w)).1 = false ∧
      (terminal (writeOut text (curtailed limit w)).2).Spent) := by
  rcases Terminal.writeOut_limited h limit text with ⟨left, hleft, hwritten⟩ | hspent
  · refine Or.inl ⟨left, hleft, ?_⟩
    have hterminal : terminal (curtailed limit w) = (terminal w).limited limit := rfl
    rw [writeOut, hterminal, hwritten]
    rfl
  · exact Or.inr hspent

/-- A prompt takes room on the limited output, or nothing can be written after it. -/
theorem prompt_curtailed (h : (terminal w).IsOpen) (limit : Nat) :
    (∃ left < limit, prompt (curtailed limit w) = (true, curtailed left (prompt w).2)) ∨
    ((prompt (curtailed limit w)).1 = false ∧
      (terminal (prompt (curtailed limit w)).2).Spent) := by
  -- The width that is told does not depend on how much can be written.
  have hprompt : prompt (curtailed limit w) =
      writeOut (measure w).session.prompt (curtailed limit (measure w)) := rfl
  have hopen : (terminal (measure w)).IsOpen := h.measure
  rw [hprompt]
  rcases writeOut_curtailed hopen limit (measure w).session.prompt with
    ⟨left, hleft, hwritten⟩ | hspent
  · have hbytes := Utf8.length_ofText_pos (prompt_ne_empty (measure w).session)
    exact Or.inl ⟨left, by omega, hwritten⟩
  · exact Or.inr hspent

theorem say_curtailed (h : (terminal w).IsOpen) (limit : Nat) (reply : Option String) :
    (∃ left ≤ limit, say reply (curtailed limit w) = curtailed left (say reply w)) ∨
      (terminal (say reply (curtailed limit w))).Spent := by
  cases reply with
  | none => exact Or.inl ⟨limit, Nat.le_refl limit, rfl⟩
  | some text =>
    rcases write_curtailed h limit (text ++ "\n") with ⟨left, hleft, hwritten⟩ | ⟨-, hspent⟩
    · exact Or.inl ⟨left, by omega, congrArg Prod.snd hwritten⟩
    · exact Or.inr hspent

/-- What is shown for a line on the limited output and without a limit. -/
theorem conclude_curtailed (u : Turn σ (Terminal × κ) ε τ) (before : State σ κ ε τ) (limit : Nat)
    (h : (terminal u.after).IsOpen) :
    let u' := { u with before, after := curtailed limit u.after }
    (∃ left ≤ limit, conclude u' = ((conclude u).1, curtailed left (conclude u).2)) ∨
      (terminal (conclude u').2).Spent := by
  intro u'
  unfold conclude
  have hresult : u'.result = u.result := rfl
  have hafter : u'.after = curtailed limit u.after := rfl
  rw [hresult, hafter]
  cases u.result with
  | ok outcome =>
    rcases say_curtailed h limit outcome.shown? with ⟨left, hleft, hsaid⟩ | hspent
    · exact Or.inl ⟨left, hleft, Prod.ext rfl hsaid⟩
    · exact Or.inr hspent
  | error e =>
    simp only
    split
    · have hfree : writeLine e.shown u.after = (true, (write (e.shown ++ "\n") u.after).2) :=
        Prod.ext (Terminal.write_of_isOpen h _) rfl
      rcases write_curtailed h limit (e.shown ++ "\n") with
        ⟨left, hleft, hwritten⟩ | ⟨hfailed, hspent⟩
      · refine Or.inl ⟨left, by omega, ?_⟩
        rw [writeLine, hwritten, hfree]
      · have hstopped : writeLine e.shown (curtailed limit u.after) =
            (false, (write (e.shown ++ "\n") (curtailed limit u.after)).2) :=
          Prod.ext hfailed rfl
        rw [hstopped]
        exact Or.inr hspent
    · exact Or.inl ⟨limit, Nat.le_refl limit, rfl⟩

/-- Whether to leave is asked on the limited output too, or nothing can be written after it. -/
theorem confirmQuit_curtailed (s : Shell σ κ ε τ) (h : (terminal w).IsOpen) (limit : Nat) :
    (∃ left ≤ limit, s.confirmQuit (curtailed limit w) =
      ((s.confirmQuit w).1, curtailed left (s.confirmQuit w).2)) ∨
    (terminal (s.confirmQuit (curtailed limit w)).2).Spent := by
  have hopen : ((terminal w).write "\n").2.IsOpen := h.write "\n"
  rw [confirmQuit_of_isOpen h]
  rcases write_curtailed h limit "\n" with ⟨left, hleft, hwritten⟩ | ⟨hfailed, hspent⟩
  · have hended : writeLine "" (curtailed limit w) =
        (true, curtailed left (write "\n" w).2) := hwritten
    have hterminal : terminal (curtailed left (write "\n" w).2) =
        ((terminal w).write "\n").2.limited left := rfl
    simp only [confirmQuit, hended, hterminal]
    rcases s.quitQuestion.ask_limited hopen left with ⟨left', hleft', hasked⟩ | ⟨-, hspent⟩
    · rw [hasked]
      refine Or.inl ⟨left', by omega, ?_⟩
      rcases s.quitQuestion.ask ((terminal w).write "\n").2 with ⟨_ | _, t⟩ <;> rfl
    · refine Or.inr ?_
      rcases hask : s.quitQuestion.ask (((terminal w).write "\n").2.limited left) with
        ⟨_ | _, t⟩ <;> rw [hask] at hspent <;> exact hspent
  · have hended : writeLine "" (curtailed limit w) =
        (false, (write "\n" (curtailed limit w)).2) := Prod.ext hfailed rfl
    rw [confirmQuit, hended]
    exact Or.inr hspent

/-! ### Turns -/

/-- A turn on a limited output beside the same turn without a limit. -/
inductive Pace (s : Shell σ κ ε τ) (limit : Nat) (w : State σ κ ε τ) : Prop
  /-- The two do the same, and some room is used up. -/
  | abreast {left : Nat} (less : left < limit)
    (step : s.step (curtailed limit w) = ((s.step w).1, curtailed left (s.step w).2))
    (line : (s.turn? (curtailed limit w)).map Turn.line = (s.turn? w).map Turn.line)
  /-- The prompt could not be written, and nothing was done. -/
  | unprompted (spent : (terminal (s.step (curtailed limit w)).2).Spent)
    (line : s.turn? (curtailed limit w) = none)
    (store : (s.step (curtailed limit w)).2.desk.store = w.desk.store)
  /-- The two run the same line or none, with the same effect, and after that nothing more can be
  written. -/
  | silenced (spent : (terminal (s.step (curtailed limit w)).2).Spent)
    (line : (s.turn? (curtailed limit w)).map Turn.line = (s.turn? w).map Turn.line)
    (store : (s.step (curtailed limit w)).2.desk.store = (s.step w).2.desk.store)
  /-- The two run the same line, which is a deletion; on the limited output it got no answer. -/
  | declined {u v : Turn σ (Terminal × κ) ε τ}
    (spent : (terminal (s.step (curtailed limit w)).2).Spent)
    (limited : s.turn? (curtailed limit w) = some u) (free : s.turn? w = some v)
    (line : u.line = v.line) (deletion : ∃ k ∈ [Keyword.delete, .rmr], validate v.line = .ok k)
    (result : u.result = .ok .declined)
    (store : (s.step (curtailed limit w)).2.desk.store = v.before.desk.store)

section Turns

variable (hs : s.runner.confirmer = Confirmer.onTerminal.onFirst)
include hs

/-- A line that is run on a limited output has the effect that it has without a limit, or it is a
deletion and declined. -/
theorem run_curtailed (h : (terminal w).IsOpen) (limit : Nat) (line : String) :
    (∃ left ≤ limit, s.runner.run line (curtailed limit w) =
      ((s.runner.run line w).1, curtailed left (s.runner.run line w).2)) ∨
    ((terminal (s.runner.run line (curtailed limit w)).2).Spent ∧
      (s.runner.run line (curtailed limit w)).1 = .ok .declined ∧
      (s.runner.run line (curtailed limit w)).2.desk.store = w.desk.store ∧
      ∃ k ∈ [Keyword.delete, .rmr], validate line = .ok k) := by
  cases hq : Runner.question? line w with
  | none =>
    -- Nobody is asked, so the terminal is as it was.
    have hkept := Runner.run_withAsker_of_unasked (r := s.runner) hq
    have hasker : (s.runner.run line w).2.asker = w.asker :=
      congrArg (fun r => r.2.asker) (hkept w.asker)
    have hterminal : terminal (s.runner.run line w).2 = terminal w := congrArg Prod.fst hasker
    refine Or.inl ⟨limit, Nat.le_refl limit, ?_⟩
    rw [curtailed_eq_withAsker, hkept, curtailed_eq_withAsker, hterminal, hasker]
  | some q =>
    obtain ⟨f, hf, hno, hstore⟩ := Runner.run_withAsker_of_asked (r := s.runner) hq
    obtain ⟨hdefault, hdeletion⟩ := Runner.deletion_of_question? hq
    have hask : ∀ t k, s.runner.confirmer.ask q (t, k) = ((q.ask t).1, (q.ask t).2, k) := by
      intro t k
      rw [hs]
      rfl
    have hfree := hf (terminal w, w.asker.2)
    have hlimited := hf ((terminal w).limited limit, w.asker.2)
    rw [hask] at hfree hlimited
    have hwhole : w.withAsker (terminal w, w.asker.2) = w := rfl
    rw [hwhole] at hfree
    rw [← curtailed_eq_withAsker] at hlimited
    rw [hlimited, hfree]
    rcases q.ask_limited h limit with ⟨left, hleft, hasked⟩ | ⟨hanswer, hspent⟩
    · refine Or.inl ⟨left, hleft, ?_⟩
      rw [hasked]
      rfl
    · refine Or.inr ⟨hspent, ?_⟩
      simp only [hanswer, hdefault]
      exact ⟨hno, hstore, hdeletion⟩

/-- A turn that runs a line, from behind the prompt on. -/
theorem pace_of_line (h : (terminal w).IsOpen) {left : Nat} (hless : left < limit)
    {line : String} (hfree : s.turn? w = some (s.runner.turn line (listen w).2))
    (hlimited : s.turn? (curtailed limit w) =
      some (s.runner.turn line (curtailed left (listen w).2))) : s.Pace limit w := by
  have hopen := (listen_takes h).isOpen
  have hran := (run_follows (Or.inl hs) line (listen w).2).isOpen hopen
  obtain ⟨-, hstep⟩ := step_of_turn?_eq_some hfree
  obtain ⟨-, hstep'⟩ := step_of_turn?_eq_some hlimited
  have hline : (s.turn? (curtailed limit w)).map Turn.line = (s.turn? w).map Turn.line := by
    rw [hlimited, hfree]
    rfl
  rcases run_curtailed hs hopen left line with
    ⟨left', hleft', hrun⟩ | ⟨hspent, hresult, hstore, hdeletion⟩
  · -- The line had its effect, and only showing what it led to can still fail.
    have hturn : s.runner.turn line (curtailed left (listen w).2) =
        { s.runner.turn line (listen w).2 with
          before := curtailed left (listen w).2
          after := curtailed left' (s.runner.run line (listen w).2).2 } := by
      rw [Runner.turn, hrun]
      rfl
    rw [hturn] at hstep'
    rcases conclude_curtailed (s.runner.turn line (listen w).2) (curtailed left (listen w).2) left'
      hran with ⟨left'', hleft'', hconclude⟩ | hspent
    · refine .abreast (by omega : left'' < limit) ?_ hline
      rw [hstep', hstep]
      exact hconclude
    · refine .silenced (by rw [hstep']; exact hspent) hline ?_
      rw [hstep', hstep, store_conclude, store_conclude]
      rfl
  · refine .declined ?_ hlimited hfree rfl hdeletion hresult ?_
    · rw [hstep']
      exact spent_conclude hspent
    · rw [hstep', store_conclude]
      exact hstore

/-- How a turn on a limited output compares with the same turn without a limit. -/
theorem pace_step (h : (terminal w).IsOpen) (limit : Nat) : s.Pace limit w := by
  rcases prompt_curtailed h limit with ⟨left, hless, hprompt⟩ | ⟨hfailed, hspent⟩
  · have hlisten : listen (curtailed limit w) = ((listen w).1, curtailed left (listen w).2) := by
      have hterminal : terminal (curtailed left (prompt w).2) =
          (terminal (prompt w).2).limited left := rfl
      simp only [listen, hprompt, hterminal, Terminal.read_limited]
      rfl
    have hopen := (listen_takes h).isOpen
    have hfree : (prompt w).1 = true := by rw [prompt_of_isOpen h]
    have hwritten : (prompt (curtailed limit w)).1 = true := congrArg Prod.fst hprompt
    have hturn : s.turn? w =
        (lineOf? (listen w).1).map fun line => s.runner.turn line (listen w).2 := by
      rw [turn?, if_pos hfree]
    have hturn' : s.turn? (curtailed limit w) =
        (lineOf? (listen w).1).map fun line =>
          s.runner.turn line (curtailed left (listen w).2) := by
      rw [turn?, if_pos hwritten, hlisten]
    have hstep := s.step_eq w
    have hstep' := s.step_eq (curtailed limit w)
    rw [if_pos hfree] at hstep
    rw [if_pos hwritten, hlisten] at hstep'
    cases hr : (listen w).1 with
    | line bytes _ =>
      rw [hr] at hturn hturn'
      exact pace_of_line hs h hless hturn hturn'
    | failed reason =>
      rw [hr] at hturn hturn' hstep hstep'
      refine .abreast hless ?_ (by rw [hturn, hturn']; rfl)
      rw [hstep', hstep]
    | interrupted | endOfInput =>
      rw [hr] at hturn hturn' hstep hstep'
      rcases s.confirmQuit_curtailed hopen left with ⟨left', hleft', hasked⟩ | hspent
      · refine .abreast (by omega : left' < limit) ?_ (by rw [hturn, hturn']; rfl)
        rw [hstep', hstep]
        exact hasked
      · refine .silenced (by rw [hstep']; exact hspent) (by rw [hturn, hturn']; rfl) ?_
        rw [hstep', hstep]
        simp only [store_confirmQuit]
        rfl
  · -- Without a prompt no line is taken, though the same turn without a limit may run one.
    have hfailed' : ¬ (prompt (curtailed limit w)).1 = true := Bool.not_eq_true _ ▸ hfailed
    have hstep := s.step_eq (curtailed limit w)
    rw [if_neg hfailed'] at hstep
    refine .unprompted ?_ (if_neg hfailed') ?_
    · rw [hstep]
      exact hspent
    · rw [hstep]
      rfl

end Turns

/-! ### Conversations -/

/-- A turn after which nothing more can be written is the last one in which anything is done. -/
theorem interactFor_of_spent_step (h : (terminal (s.step w).2).Spent) (turns : Nat) :
    s.turnsFor (turns + 1) w = (s.turn? w).toList ∧
      (s.interactFor (turns + 1) w).2.desk.store = (s.step w).2.desk.store ∧
      s.EndsWithin (turns + 2) w := by
  by_cases hgo : (s.step w).1 = .goOn
  · obtain ⟨hturns, hstore, hends⟩ := interactFor_of_spent (s := s) h turns
    have hstep : s.step w = (.goOn, (s.step w).2) := Prod.ext hgo rfl
    rw [turnsFor_of_goOn hstep, hturns, List.append_nil, EndsWithin,
      interactFor_succ s _ w _ hstep, interactFor_succ s _ w _ hstep]
    exact ⟨rfl, hstore, hends⟩
  · obtain ⟨hworld, -⟩ := interactFor_of_ended hgo turns
    obtain ⟨-, hends⟩ := interactFor_of_ended hgo (turns + 1)
    rw [hworld]
    exact ⟨turnsFor_of_ended hgo turns, rfl, hends⟩

/-- The last line that was run is a deletion. On the limited output it was declined, and the store
is as it was before that line. -/
def EndsDeclined (limited free : List (Turn σ (Terminal × κ) ε τ)) (store : σ) : Prop :=
  ∃ u ∈ limited.getLast?, ∃ v ∈ free.getLast?, u.line = v.line ∧
    (∃ k ∈ [Keyword.delete, .rmr], validate v.line = .ok k) ∧ u.result = .ok .declined ∧
      store = v.before.desk.store

/-- A conversation on a limited output beside the same one without a limit. -/
inductive Beside (s : Shell σ κ ε τ) (turns : Nat) (limited free : State σ κ ε τ) : Prop
  /-- It has run the lines that some turns run without a limit, and the store is the same. -/
  | alike {turns' : Nat} (le : turns' ≤ turns)
    (lines : s.linesFor turns limited = s.linesFor turns' free)
    (store : (s.interactFor turns limited).2.desk.store =
      (s.interactFor turns' free).2.desk.store)
  /-- It has run the lines that some turns run without a limit, but the last one was declined, and
  it is about to end without running another. -/
  | declined {turns' : Nat} (le : turns' ≤ turns)
    (lines : s.linesFor turns limited = s.linesFor turns' free)
    (last : EndsDeclined (s.turnsFor turns limited) (s.turnsFor turns' free)
      (s.interactFor turns limited).2.desk.store)
    (ends : s.EndsWithin (turns + 1) limited)
    (still : ∀ more, s.turnsFor (turns + more) limited = s.turnsFor turns limited)

/-- What two conversations have in common after a turn that was the same, they have in common from
that turn on. -/
theorem Beside.cons {turns : Nat} {w₁ w₁' : State σ κ ε τ} (h : s.Beside turns w₁' w₁)
    (hstep : s.step w = (.goOn, w₁)) (hstep' : s.step w' = (.goOn, w₁'))
    (hline : (s.turn? w').map Turn.line = (s.turn? w).map Turn.line) :
    s.Beside (turns + 1) w' w := by
  have hlines : ∀ {k}, s.linesFor turns w₁' = s.linesFor k w₁ →
      s.linesFor (turns + 1) w' = s.linesFor (k + 1) w := by
    intro k h
    have hhead : (s.turn? w').toList.map Turn.line = (s.turn? w).toList.map Turn.line := by
      rw [← Option.toList_map, ← Option.toList_map, hline]
    unfold linesFor at h ⊢
    rw [turnsFor_of_goOn hstep, turnsFor_of_goOn hstep', List.map_append, List.map_append, h,
      hhead]
  cases h with
  | alike hle lines store =>
    refine .alike (Nat.succ_le_succ hle) (hlines lines) ?_
    rw [interactFor_succ s _ w' _ hstep', interactFor_succ s _ w _ hstep]
    exact store
  | declined hle lines last ends still =>
    refine .declined (Nat.succ_le_succ hle) (hlines lines) ?_ ?_ fun more => ?_
    · obtain ⟨u, hu, v, hv, hlast⟩ := last
      rw [interactFor_succ s _ w' _ hstep', turnsFor_of_goOn hstep, turnsFor_of_goOn hstep']
      refine ⟨u, ?_, v, ?_, hlast⟩
      · rw [List.getLast?_append, Option.mem_def.mp hu]
        rfl
      · rw [List.getLast?_append, Option.mem_def.mp hv]
        rfl
    · rw [EndsWithin, interactFor_succ s _ w' _ hstep']
      exact ends
    · rw [Nat.add_right_comm, turnsFor_of_goOn hstep', turnsFor_of_goOn hstep', still more]

section Conversations

variable (hs : s.runner.confirmer = Confirmer.onTerminal.onFirst)
include hs

theorem beside_interactFor (h : (terminal w).IsOpen) (limit turns : Nat) :
    s.Beside turns (curtailed limit w) w := by
  -- By induction on the turns: as long as the two keep abreast the rest is compared in the same way
  -- from where they stand, with less room; any other turn is the last one that matters.
  induction turns generalizing w limit with
  | zero => exact .alike (Nat.le_refl 0) rfl rfl
  | succ turns ih =>
    have hopen : (terminal (s.step w).2).IsOpen :=
      ((step_follows (Or.inl hs) h).trans (listen_follows w)).isOpen h
    cases pace_step hs h limit with
    | @abreast left _ hstep' hline =>
      by_cases hgo : (s.step w).1 = .goOn
      · rw [hgo] at hstep'
        exact (ih hopen left).cons (Prod.ext hgo rfl) hstep' hline
      · have hgo' : (s.step (curtailed limit w)).1 ≠ .goOn := by rwa [hstep']
        refine .alike (Nat.le_refl _) ?_ ?_
        · rw [linesFor, linesFor, turnsFor_of_ended hgo, turnsFor_of_ended hgo',
            ← Option.toList_map, ← Option.toList_map, hline]
        · rw [(interactFor_of_ended hgo turns).1, (interactFor_of_ended hgo' turns).1, hstep']
          rfl
    | unprompted hspent hline hstore =>
      obtain ⟨hturns, hsame, -⟩ := interactFor_of_spent_step hspent turns
      refine .alike (Nat.zero_le _) ?_ (hsame.trans hstore)
      rw [linesFor, hturns, hline]
      rfl
    | silenced hspent hline hstore =>
      obtain ⟨hturns, hsame, -⟩ := interactFor_of_spent_step hspent turns
      obtain ⟨hturn, hworld⟩ := s.turnsFor_one w
      refine .alike (by omega : 1 ≤ turns + 1) ?_ ?_
      · rw [linesFor, linesFor, hturns, hturn, ← Option.toList_map, ← Option.toList_map, hline]
      · rw [hsame, hstore, hworld]
    | @declined u v hspent hlimited hfree hline hdeletion hresult hstore =>
      obtain ⟨hturns, hsame, hends⟩ := interactFor_of_spent_step hspent turns
      obtain ⟨hturn, -⟩ := s.turnsFor_one w
      rw [hlimited] at hturns
      rw [hfree] at hturn
      refine .declined (by omega : 1 ≤ turns + 1) ?_ ?_ hends fun more => ?_
      · rw [linesFor, linesFor, hturns, hturn]
        exact congrArg (fun line => [line]) hline
      · rw [hturns, hturn, hsame]
        exact ⟨u, rfl, v, rfl, hline, hdeletion, hresult, hstore⟩
      · rw [hturns, Nat.add_right_comm, (interactFor_of_spent_step hspent (turns + more)).1,
          hlimited]

/-- Every prompt takes room, so that a conversation on a limited output ends. -/
theorem endsWithin_curtailed (h : (terminal w).IsOpen) (limit : Nat) :
    s.EndsWithin (limit + 1) (curtailed limit w) := by
  -- The room that is left gets less with every turn, though not by one, so the induction is strong.
  induction limit using Nat.strong_induction_on generalizing w with
  | _ limit ih =>
    cases limit with
    | zero =>
      have hspent : (terminal (curtailed 0 w)).Spent := rfl
      exact (interactFor_of_spent hspent 0).2.2
    | succ limit =>
      have hopen : (terminal (s.step w).2).IsOpen :=
        ((step_follows (Or.inl hs) h).trans (listen_follows w)).isOpen h
      cases pace_step hs h (limit + 1) with
      | @abreast left hless hstep' _ =>
        by_cases hgo : (s.step w).1 = .goOn
        · rw [hgo] at hstep'
          have hrest := ih left hless hopen
          rw [EndsWithin, interactFor_succ s _ _ _ hstep']
          exact fun hnone => hrest (interactFor_eq_none_of_le (by omega) hnone)
        · exact (interactFor_of_ended (by rwa [hstep']) (limit + 1)).2
      | unprompted hspent | silenced hspent | declined hspent =>
        exact (interactFor_of_spent_step hspent limit).2.2

end Conversations

/-- A conversation whose output takes so many bytes and no more runs lines that it would run without
a limit, from the first one on, and leaves the store as those lines leave it; but the last of them,
if it is a deletion, may have been declined. After that it ends without running another line, and it
ends in any case. -/
theorem interactFor_curtailed (s : Shell σ κ ε τ)
    (hs : s.runner.confirmer = Confirmer.onTerminal.onFirst) (w : State σ κ ε τ)
    (h : (terminal w).IsOpen) (limit : Nat) :
    s.EndsWithin (limit + 1) (curtailed limit w) ∧
      ∀ turns, s.linesFor turns (curtailed limit w) <+: s.linesFor turns w ∧
        s.Beside turns (curtailed limit w) w := by
  refine ⟨endsWithin_curtailed hs h limit, fun turns => ?_⟩
  have hbeside := beside_interactFor hs h limit turns
  refine ⟨?_, hbeside⟩
  cases hbeside with
  | alike hle lines | declined hle lines =>
    rw [lines]
    exact s.linesFor_prefix w hle

/-- The question before a deletion does not fit, and the answer to it is not run as a line. -/
theorem interactFor_curtailed_grove :
    let s : Shell Tree Unit Unit Unit :=
      ⟨⟨Tree.client default, Confirmer.onTerminal.onFirst,
        ⟨fun _ payload e => (.ok payload, e)⟩, none⟩, true⟩
    let w : State Tree Unit Unit Unit :=
      ⟨⟨Tree.grove, .start false, ()⟩,
        (.ofInput (Utf8.ofText "rmr /p\ny\ncreate /q\n"), ()), (), []⟩
    s.EndsWithin 21 (curtailed 20 w) ∧ s.Beside 3 (curtailed 20 w) w ∧
      s.linesFor 3 (curtailed 20 w) = ["rmr /p"] ∧
      (s.interactFor 3 (curtailed 20 w)).2.desk.store.nodes = Tree.grove.nodes ∧
      s.linesFor 3 w = ["rmr /p", "create /q"] := by
  intro s w
  obtain ⟨hends, hbeside⟩ := s.interactFor_curtailed rfl w ⟨rfl, fun _ => rfl⟩ 20
  refine ⟨hends, (hbeside 3).2, ?_, ?_, ?_⟩
  · decide +kernel
  · decide +kernel
  · decide +kernel

end TreeConsole.Shell
