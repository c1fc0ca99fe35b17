import TreeConsole.Proofs.Runner.Run

/-!
# Runs that look alike

Whoever answers questions, and what telemetry writes to, may remember more than a run depends on.
Then there are maps that leave out the rest, and through them the run looks like one without it. It
is enough to compare the answers to single questions and the reports of single lines: the two runs
then have the same results, line by line, and their worlds look alike at every line.

## Main definitions

* `World.map` — a world as it looks through maps of the asker and the trail
* `Runner.LooksLike` — two runners whose parties do the same as far as the maps show

## Main results

* `Runner.LooksLike.run` — they run a line alike
* `Runner.LooksLike.turns`, `Runner.LooksLike.finish` — and every list of lines
-/

namespace TreeConsole

variable {σ κ κ' ε τ τ' : Type} {f : κ' → κ} {g : τ' → τ}

/-- A world as it looks through maps of the asker and the trail. -/
def World.map (f : κ' → κ) (g : τ' → τ) (w : World σ κ' ε τ') : World σ κ ε τ where
  desk := w.desk
  asker := f w.asker
  trail := g w.trail
  complaints := w.complaints

/-- A turn as it looks through maps of the asker and the trail. -/
def Turn.map (f : κ' → κ) (g : τ' → τ) (u : Turn σ κ' ε τ') : Turn σ κ ε τ :=
  ⟨u.line, u.before.map f g, u.result, u.after.map f g⟩

namespace Runner

/-- Two runners with the same client and the same editor, whose confirmers and telemetries do the
same as far as the maps show. -/
structure LooksLike (f : κ' → κ) (g : τ' → τ) (r' : Runner σ κ' ε τ') (r : Runner σ κ ε τ) :
    Prop where
  client : r'.client = r.client
  editor : r'.editor = r.editor
  ask : ∀ q k, r.confirmer.ask q (f k) = ((r'.confirmer.ask q k).1, f (r'.confirmer.ask q k).2)
  tell : ∀ report w, r.tell report (w.map f g) = (r'.tell report w).map f g

namespace LooksLike

variable {r' : Runner σ κ' ε τ'} {r : Runner σ κ ε τ}

/-- Runners that differ by their confirmers alone look alike if the confirmers do. -/
theorem of_ask {r' : Runner σ κ' ε τ} {c : Confirmer κ}
    (h : ∀ q k, c.ask q (f k) = ((r'.confirmer.ask q k).1, f (r'.confirmer.ask q k).2)) :
    LooksLike f id r' ⟨r'.client, c, r'.editor, r'.telemetry⟩ where
  client := rfl
  editor := rfl
  ask := h
  tell := by
    intro report w
    have htrail : (w.map f id : World σ κ ε τ).trail = w.trail := rfl
    unfold Runner.tell
    rw [htrail]
    cases r'.telemetry with
    | none => rfl
    | some m => rcases hm : m.report report w.trail with ⟨_ | _, t⟩ <;> simp only [hm] <;> rfl

theorem perform (h : LooksLike f g r' r) (c : Command) (w : World σ κ' ε τ') :
    r.perform c (w.map f g) = ((r'.perform c w).1, (r'.perform c w).2.map f g) := by
  unfold Runner.perform
  rw [h.client, h.editor]
  rfl

theorem dispatch (h : LooksLike f g r' r) (c : Command) (w : World σ κ' ε τ') :
    r.dispatch c (w.map f g) = ((r'.dispatch c w).1, (r'.dispatch c w).2.map f g) := by
  have hsession : (w.map f g).session = w.session := rfl
  have hasker : (w.map f g).asker = f w.asker := rfl
  unfold Runner.dispatch
  rw [hsession]
  split
  · rfl
  · cases c.question? with
    | none => exact h.perform c w
    | some q =>
      simp only [hasker, h.ask]
      rcases r'.confirmer.ask q w.asker with ⟨_ | _, asker⟩
      · rfl
      · exact h.perform c { w with asker }

theorem answer (h : LooksLike f g r' r) (line : String) (w : World σ κ' ε τ') :
    r.answer line (w.map f g) =
      ((r'.answer line w).1, (r'.answer line w).2.1, (r'.answer line w).2.2.map f g) := by
  unfold Runner.answer
  split
  · rfl
  · cases Command.ofLine line with
    | error e => rfl
    | ok c => simp only [h.dispatch]

/-- Runners that look alike run a line alike. -/
theorem run (h : LooksLike f g r' r) (line : String) (w : World σ κ' ε τ') :
    r.run line (w.map f g) = ((r'.run line w).1, (r'.run line w).2.map f g) := by
  have hsession : ∀ w' : World σ κ' ε τ', (w'.map f g).session = w'.session := fun _ => rfl
  simp only [Runner.run, h.answer, hsession, h.tell]
  rfl

/-- Runners that look alike run all lines alike, turn by turn. -/
theorem turns (h : LooksLike f g r' r) (lines : List String) (w : World σ κ' ε τ') :
    (r'.turns lines w).map (Turn.map f g) = r.turns lines (w.map f g) := by
  induction lines generalizing w with
  | nil => rfl
  | cons line lines ih =>
    rw [Runner.turns, Runner.turns, List.map_cons, ih, turn, turn, h.run]
    rfl

/-- What all lines lead to looks alike too. -/
theorem finish (h : LooksLike f g r' r) (lines : List String) (w : World σ κ' ε τ') :
    r.finish lines (w.map f g) = (r'.finish lines w).map f g := by
  induction lines generalizing w with
  | nil => rfl
  | cons line lines ih =>
    have hrun := congrArg Prod.snd (h.run line w)
    exact (congrArg (r.finish lines) hrun).trans (ih (r'.run line w).2)

end LooksLike
end Runner
end TreeConsole
