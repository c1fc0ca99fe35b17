import TreeConsole.Proofs.Runner.Deletion

/-!
# What an answer decides

A line may find one asker or another in an otherwise equal world. A line that puts no question takes
no notice of who is there. A line that puts one depends on the asker through the answer alone, so
that two askers who answer alike lead to the same result in the same world, and one who says no
leads to nothing at all.

## Main definitions

* `World.withAsker` — a world in which somebody else is asked
* `Runner.question?` — the question that a line puts

## Main results

* `Runner.run_withAsker_of_unasked`, `Runner.run_withAsker_of_asked` — a line, and who is there to
  be asked
* `Runner.deletion_of_question?` — only deletions ask, and take silence for a no
-/

namespace TreeConsole

variable {σ κ ε τ : Type}

/-- A world in which somebody else is asked. -/
def World.withAsker (w : World σ κ ε τ) (asker : κ) : World σ κ ε τ := { w with asker }

namespace Runner

variable {r : Runner σ κ ε τ} {line : String} {w : World σ κ ε τ} {c : Command} {q : Question}

/-- The question that a line puts in a world, if it puts one. -/
def question? (line : String) (w : World σ κ ε τ) : Option Question :=
  match Command.ofLine line with
  | .error _ => none
  | .ok c => if c.keyword.mutates && w.session.readOnly then none else c.question?

/-- Only deletions ask, and they take silence for a no. -/
theorem deletion_of_question? (h : question? line w = some q) :
    q.default = false ∧ ∃ k ∈ [Keyword.delete, .rmr], validate line = .ok k := by
  unfold question? at h
  cases hline : Command.ofLine line with
  | error e => simp [hline] at h
  | ok c =>
    simp only [hline, Option.ite_none_left_eq_some] at h
    have hasks : c.keyword.asks = true := by
      rw [← Command.isSome_question?, h.2]
      rfl
    exact ⟨Command.default_of_question? h.2, c.keyword, Keyword.asks_iff_mem.mp hasks,
      Command.validate_of_ofLine hline⟩

/-! ### A line up to its report -/

/-- Tells the telemetry what became of a line, and goes on to the next. -/
def wrapUp (r : Runner σ κ ε τ) (index : UInt64) (command : Option Command)
    (done : Except ShellError Outcome × World σ κ ε τ) :
    Except ShellError Outcome × World σ κ ε τ :=
  let report : LineReport := ⟨index, done.2.session.readOnly, command, done.1⟩
  (done.1, (r.tell report done.2).advance)

theorem run_eq_wrapUp (r : Runner σ κ ε τ) (line : String) (w : World σ κ ε τ) :
    r.run line w = r.wrapUp w.session.index (r.answer line w).1 (r.answer line w).2 := rfl

theorem tell_withAsker (r : Runner σ κ ε τ) (report : LineReport) (w : World σ κ ε τ) (k : κ) :
    r.tell report (w.withAsker k) = (r.tell report w).withAsker k := by
  have htrail : (w.withAsker k).trail = w.trail := rfl
  unfold tell
  rw [htrail]
  cases r.telemetry with
  | none => rfl
  | some m => rcases hm : m.report report w.trail with ⟨_ | _, t⟩ <;> simp only [hm] <;> rfl

/-- Telemetry is told the same, whoever was asked. -/
theorem wrapUp_withAsker (r : Runner σ κ ε τ) (index : UInt64) (command : Option Command)
    (done : Except ShellError Outcome × World σ κ ε τ) (k : κ) :
    r.wrapUp index command (done.1, done.2.withAsker k) =
      ((r.wrapUp index command done).1, (r.wrapUp index command done).2.withAsker k) := by
  have hsession : (done.2.withAsker k).session = done.2.session := rfl
  simp only [wrapUp, hsession, tell_withAsker]
  rfl

/-- To tell the telemetry leaves the store alone. -/
theorem store_wrapUp (r : Runner σ κ ε τ) (index : UInt64) (command : Option Command)
    (done : Except ShellError Outcome × World σ κ ε τ) :
    (r.wrapUp index command done).2.desk.store = done.2.desk.store := by
  simp [wrapUp, World.advance, World.mapSession]

/-! ### A line and who is there to be asked -/

theorem dispatch_withAsker (r : Runner σ κ ε τ)
    (h : (if c.keyword.mutates && w.session.readOnly then none else c.question?) = none) (k : κ) :
    r.dispatch c (w.withAsker k) = ((r.dispatch c w).1, (r.dispatch c w).2.withAsker k) := by
  have hsession : (w.withAsker k).session = w.session := rfl
  unfold dispatch
  rw [hsession]
  split at h
  case isTrue hshut => simp only [hshut, if_true]
  case isFalse hopen =>
    simp only [hopen, h]
    rfl

/-- A line that puts no question takes no notice of who is there. -/
theorem run_withAsker_of_unasked (h : question? line w = none) (k : κ) :
    r.run line (w.withAsker k) = ((r.run line w).1, (r.run line w).2.withAsker k) := by
  have hanswer : r.answer line (w.withAsker k) =
      ((r.answer line w).1, (r.answer line w).2.1, (r.answer line w).2.2.withAsker k) := by
    unfold answer
    split
    · rfl
    · unfold question? at h
      cases hline : Command.ofLine line with
      | error e => rfl
      | ok c =>
        simp only [hline] at h ⊢
        rw [r.dispatch_withAsker h]
  rw [run_eq_wrapUp, hanswer]
  exact r.wrapUp_withAsker w.session.index (r.answer line w).1 (r.answer line w).2 k

/-- What becomes of a line that puts a question depends on who is there through the answer alone,
and a no leaves the store alone. -/
theorem run_withAsker_of_asked (h : question? line w = some q) :
    ∃ f : Bool → Except ShellError Outcome × World σ κ ε τ,
      (∀ k, r.run line (w.withAsker k) =
        ((f (r.confirmer.ask q k).1).1,
          (f (r.confirmer.ask q k).1).2.withAsker (r.confirmer.ask q k).2)) ∧
      (f false).1 = .ok .declined ∧ (f false).2.desk.store = w.desk.store := by
  unfold question? at h
  cases hline : Command.ofLine line with
  | error e => simp [hline] at h
  | ok c =>
    simp only [hline, Option.ite_none_left_eq_some] at h
    obtain ⟨hopen, hq⟩ := h
    -- The command is carried out or not, and in either case there is the same report to be made.
    let settled (yes : Bool) : Except ShellError Outcome × World σ κ ε τ :=
      if yes then r.perform c w else (.ok .declined, w)
    have hdispatch : ∀ k, r.dispatch c (w.withAsker k) =
        ((settled (r.confirmer.ask q k).1).1,
          (settled (r.confirmer.ask q k).1).2.withAsker (r.confirmer.ask q k).2) := by
      intro k
      have hsession : (w.withAsker k).session = w.session := rfl
      have hasker : (w.withAsker k).asker = k := rfl
      unfold dispatch
      rw [hsession, if_neg hopen, hq]
      simp only [hasker]
      rcases r.confirmer.ask q k with ⟨_ | _, k'⟩ <;> rfl
    have hink : Text.isBlankText line = false :=
      isBlankText_of_validate (Command.validate_of_ofLine hline)
    refine ⟨fun yes => r.wrapUp w.session.index (some c) (settled yes), fun k => ?_, rfl,
      r.store_wrapUp _ _ _⟩
    have hanswer : r.answer line (w.withAsker k) = (some c, r.dispatch c (w.withAsker k)) := by
      simp [answer, hink, hline]
    rw [run_eq_wrapUp, hanswer, hdispatch]
    exact r.wrapUp_withAsker w.session.index (some c) _ _

end Runner
end TreeConsole
