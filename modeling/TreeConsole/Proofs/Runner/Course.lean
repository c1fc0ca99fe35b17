import TreeConsole.Proofs.Command.Line

/-!
# What can become of a line

A line is blank, or it is no command, or it is a command that is refused, declined or carried out.
Only in the last case does anything happen at the desk. Nothing else can become of a line, so that
what holds of every line is shown case by case, and no proof looks into the runner again.

## Main definitions

* `Consent` — whoever has to be asked about a command has said yes
* `Course` — the five things that can become of a line

## Main results

* `run_course` — one of them does
* `asker_run` — of a line at most one question is put
* `run_of_ofLine` — a line that is a command is dispatched as that command
* `run_of_unasked` — a command that is allowed and asks nothing is carried out
-/

namespace TreeConsole.Runner

variable {σ κ ε τ : Type} {r : Runner σ κ ε τ} {line : String} {w : World σ κ ε τ}

/-- A command asks nothing, or its question is answered with yes. -/
def Consent (r : Runner σ κ ε τ) (c : Command) (before after : κ) : Prop :=
  match c.question? with
  | none => after = before
  | some q => r.confirmer.ask q before = (true, after)

/-- What becomes of a line: its result, and the desk and the asker after it. The session has not
gone on to the next line yet. -/
inductive Course (r : Runner σ κ ε τ) (line : String) (w : World σ κ ε τ) :
    Except ShellError Outcome → Desk σ ε → κ → Prop
  | blank (h : Text.isBlankText line = true) :
    Course r line w (.ok Command.silent) w.desk w.asker
  | malformed {e : ShellError} (hline : Text.isBlankText line = false)
    (h : Command.ofLine line = .error e) :
    Course r line w (.error e) w.desk w.asker
  | refused {c : Command} (h : Command.ofLine line = .ok c) (hc : c.keyword.mutates = true)
    (hw : w.session.readOnly = true) :
    Course r line w (.error (.unauthorizedWrite c.keyword)) w.desk w.asker
  | declined {c : Command} {q : Question} {asker : κ} (h : Command.ofLine line = .ok c)
    (allowed : c.keyword.mutates = true → w.session.readOnly = false)
    (hq : c.question? = some q) (ha : r.confirmer.ask q w.asker = (false, asker)) :
    Course r line w (.ok .declined) w.desk asker
  | done {c : Command} {asker : κ} (h : Command.ofLine line = .ok c)
    (allowed : c.keyword.mutates = true → w.session.readOnly = false)
    (consent : r.Consent c w.asker asker) :
    Course r line w ((c.handle r.client r.editor).run w.desk).1
      ((c.handle r.client r.editor).run w.desk).2 asker

/-! ### Telling changes neither the desk nor the asker -/

@[simp] theorem desk_tell (r : Runner σ κ ε τ) (report : LineReport) (w : World σ κ ε τ) :
    (r.tell report w).desk = w.desk := by
  unfold tell
  split
  · rfl
  · split <;> rfl

@[simp] theorem asker_tell (r : Runner σ κ ε τ) (report : LineReport) (w : World σ κ ε τ) :
    (r.tell report w).asker = w.asker := by
  unfold tell
  split
  · rfl
  · split <;> rfl

/-! ### Every line takes one of the courses -/

theorem dispatch_course {c : Command} (h : Command.ofLine line = .ok c) :
    Course r line w (r.dispatch c w).1 (r.dispatch c w).2.desk (r.dispatch c w).2.asker := by
  by_cases hgate : c.keyword.mutates = true ∧ w.session.readOnly = true
  · rw [dispatch_of_refused r hgate.1 hgate.2]
    exact .refused h hgate.1 hgate.2
  · have allowed : c.keyword.mutates = true → w.session.readOnly = false := by
      intro hc
      rw [← Bool.not_eq_true]
      exact fun hw => hgate ⟨hc, hw⟩
    have hopen : ¬ (c.keyword.mutates && w.session.readOnly) = true := by
      rwa [Bool.and_eq_true]
    rw [dispatch, if_neg hopen]
    cases hq : c.question? with
    | none =>
      have consent : r.Consent c w.asker w.asker := by
        rw [Consent, hq]
      exact .done h allowed consent
    | some q =>
      rcases ha : r.confirmer.ask q w.asker with ⟨_ | _, asker⟩
      · simp only [ha]
        exact .declined h allowed hq ha
      · have consent : r.Consent c w.asker asker := by
          rw [Consent, hq]
          exact ha
        simp only [ha]
        exact .done h allowed consent

theorem answer_course (r : Runner σ κ ε τ) (line : String) (w : World σ κ ε τ) :
    Course r line w (r.answer line w).2.1 (r.answer line w).2.2.desk
      (r.answer line w).2.2.asker := by
  unfold answer
  by_cases hblank : Text.isBlankText line = true
  · rw [if_pos hblank]
    exact .blank hblank
  · rw [if_neg hblank]
    cases h : Command.ofLine line with
    | error e => exact .malformed (Bool.not_eq_true _ ▸ hblank) h
    | ok c => exact dispatch_course h

/-- A line takes one of the five courses, and then the session goes on. -/
theorem run_course (r : Runner σ κ ε τ) (line : String) (w : World σ κ ε τ) :
    ∃ result d asker, Course r line w result d asker ∧ (r.run line w).1 = result ∧
      (r.run line w).2.asker = asker ∧
      (r.run line w).2.desk = { d with session := d.session.advance } := by
  refine ⟨_, _, _, answer_course r line w, rfl, ?_, ?_⟩
  · simp [run, World.advance, World.mapSession]
  · simp [run, World.advance, World.mapSession]

/-- Of a line at most one question is put, the one of the command that it is. -/
theorem asker_run (r : Runner σ κ ε τ) (line : String) (w : World σ κ ε τ) :
    (r.run line w).2.asker = w.asker ∨
      ∃ c q, Command.ofLine line = .ok c ∧ c.question? = some q ∧
        (r.run line w).2.asker = (r.confirmer.ask q w.asker).2 := by
  obtain ⟨result, d, asker, hcourse, -, hasker, -⟩ := r.run_course line w
  rw [hasker]
  cases hcourse with
  | blank | malformed | refused => exact Or.inl rfl
  | @declined c q _ h _ hq ha => exact Or.inr ⟨c, q, h, hq, by rw [ha]⟩
  | @done c _ h _ consent =>
    unfold Consent at consent
    cases hq : c.question? with
    | none =>
      rw [hq] at consent
      exact Or.inl consent
    | some q =>
      have ha : r.confirmer.ask q w.asker = (true, asker) := by rwa [hq] at consent
      exact Or.inr ⟨c, q, h, hq, by rw [ha]⟩

/-- A line that is a command is dispatched as that command, and then the session goes on. -/
theorem run_of_ofLine {c : Command} (h : Command.ofLine line = .ok c) :
    (r.run line w).1 = (r.dispatch c w).1 ∧ (r.run line w).2.asker = (r.dispatch c w).2.asker ∧
      (r.run line w).2.desk =
        { (r.dispatch c w).2.desk with session := (r.dispatch c w).2.session.advance } := by
  have hink : Text.isBlankText line = false :=
    isBlankText_of_validate (Command.validate_of_ofLine h)
  have hanswer : r.answer line w = (some c, r.dispatch c w) := by
    simp [answer, hink, h]
  simp [run, hanswer, World.advance, World.mapSession, World.session]

/-- A command that is allowed and asks nothing is carried out. -/
theorem run_of_unasked {c : Command} (h : Command.ofLine line = .ok c)
    (allowed : c.keyword.mutates = true → w.session.readOnly = false) (hq : c.question? = none) :
    (r.run line w).1 = ((c.handle r.client r.editor).run w.desk).1 ∧
      (r.run line w).2.desk.store = ((c.handle r.client r.editor).run w.desk).2.store := by
  have hopen : ¬ (c.keyword.mutates && w.session.readOnly) = true := by
    rw [Bool.and_eq_true]
    rintro ⟨hc, hw⟩
    rw [allowed hc] at hw
    cases hw
  have hdispatch : r.dispatch c w = r.perform c w := by
    rw [dispatch, if_neg hopen, hq]
  obtain ⟨hresult, -, hdesk⟩ := run_of_ofLine (r := r) (w := w) h
  rw [hresult, hdesk, hdispatch]
  exact ⟨rfl, rfl⟩

end TreeConsole.Runner
