import TreeConsole.Proofs.Runner.Course

/-!
# Runs of lines

Lines are run one after the other, each in the world that the one before it left behind, whether it
went through or failed. A run is told turn by turn: what a line found, what it led to, and what it
left. Whatever holds of one line, run in any world, holds of every turn of every run.

## Main definitions

* `Turn`, and `turns` for the turns of a run
* `finish` — the world after a run

## Main results

* `eq_turn_of_mem` — every turn of a run is one line, run
* `finish_keeps` — what every line keeps, a run keeps
-/

namespace TreeConsole

/-- One line of a run. -/
structure Turn (σ κ ε τ : Type) where
  line : String
  before : World σ κ ε τ
  result : Except ShellError Outcome
  after : World σ κ ε τ

namespace Runner

variable {σ κ ε τ : Type} {r : Runner σ κ ε τ} {lines : List String} {w : World σ κ ε τ}

/-- The turn of a line in a world. -/
def turn (r : Runner σ κ ε τ) (line : String) (w : World σ κ ε τ) : Turn σ κ ε τ :=
  ⟨line, w, (r.run line w).1, (r.run line w).2⟩

/-- The turns of a run. -/
def turns (r : Runner σ κ ε τ) : List String → World σ κ ε τ → List (Turn σ κ ε τ)
  | [], _ => []
  | line :: lines, w => r.turn line w :: r.turns lines (r.run line w).2

/-- The world after a run. -/
def finish (r : Runner σ κ ε τ) (lines : List String) (w : World σ κ ε τ) : World σ κ ε τ :=
  lines.foldl (fun w line => (r.run line w).2) w

theorem eq_turn_of_mem {u : Turn σ κ ε τ} (h : u ∈ r.turns lines w) :
    u = r.turn u.line u.before := by
  induction lines generalizing w with
  | nil => cases h
  | cons line lines ih =>
    rcases List.mem_cons.mp h with rfl | h
    · rfl
    · exact ih h

/-- What each of some lines keeps is kept by running them. -/
theorem finish_keeps {P : World σ κ ε τ → Prop}
    (hstep : ∀ line ∈ lines, ∀ w, P w → P (r.run line w).2) (hw : P w) :
    P (r.finish lines w) := by
  induction lines generalizing w with
  | nil => exact hw
  | cons line lines ih =>
    refine ih (fun line' hline' => hstep line' ?_) (hstep line ?_ w hw)
    · exact List.mem_cons_of_mem line hline'
    · exact List.mem_cons_self

end Runner
end TreeConsole
