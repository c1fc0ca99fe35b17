import TreeConsole.Proofs.Command.Requests
import TreeConsole.Proofs.Runner.Run

/-!
# Recorded runs

To say what is asked of a store, of whoever answers questions, and of an editor, each of them is
made to keep a list of it. The lists are written and never read: without them a recorded run is the
run itself, turn by turn.

## Main definitions

* `Runner.recorded` — the runner whose parties keep lists
* `World.forget`, `Turn.forget` — worlds and turns without the lists

## Main results

* `Runner.map_forget_turns` — a recorded run, without the lists, is the run
-/

namespace TreeConsole

open Act (Alike)

variable {σ κ ε τ : Type}

/-- A desk at which the store and the editor keep lists of what they were asked. -/
abbrev RecordedDesk (σ ε : Type) := Desk (σ × List Request) (ε × List (String × Bytes))

/-- A world in which all parties keep lists of what they were asked. -/
abbrev RecordedWorld (σ κ ε τ : Type) :=
  World (σ × List Request) (κ × List Question) (ε × List (String × Bytes)) τ

/-- A turn of a recorded run. -/
abbrev RecordedTurn (σ κ ε τ : Type) :=
  Turn (σ × List Request) (κ × List Question) (ε × List (String × Bytes)) τ

/-- A desk without the lists. -/
def Desk.forget (d : RecordedDesk σ ε) : Desk σ ε where
  store := d.store.1
  session := d.session
  editor := d.editor.1

/-- A world without the lists. -/
def World.forget (w : RecordedWorld σ κ ε τ) : World σ κ ε τ where
  desk := w.desk.forget
  asker := w.asker.1
  trail := w.trail
  complaints := w.complaints

/-- A turn without the lists. -/
def Turn.forget (u : RecordedTurn σ κ ε τ) : Turn σ κ ε τ :=
  ⟨u.line, u.before.forget, u.result, u.after.forget⟩

namespace Runner

/-- The runner that has its parties keep lists of what they were asked. -/
def recorded (r : Runner σ κ ε τ) :
    Runner (σ × List Request) (κ × List Question) (ε × List (String × Bytes)) τ where
  client := r.client.recorded
  confirmer := r.confirmer.recorded
  editor := r.editor.recorded
  telemetry := r.telemetry

variable {r : Runner σ κ ε τ} {line : String}

/-- At a desk where lists are kept a command does the same as without them. -/
theorem handle_recorded (r : Runner σ κ ε τ) (c : Command) :
    Alike (fun (d' : RecordedDesk σ ε) d => d = d'.forget)
      (c.handle r.recorded.client r.recorded.editor) (c.handle r.client r.editor) := by
  refine c.handle_alike (fun q _ => ?_) (fun _ path payload => ?_) (fun _ => ?_) ?_
  · rintro d' d rfl
    rw [Desk.run_request, Desk.run_request]
    exact ⟨rfl, rfl⟩
  · rintro d' d rfl
    rw [Desk.run_openEditor, Desk.run_openEditor]
    exact ⟨rfl, rfl⟩
  · refine Act.alike_update fun d' d hd => ?_
    rw [hd]
    rfl
  · rintro d' d rfl
    rfl

theorem perform_forget (c : Command) (w : RecordedWorld σ κ ε τ) :
    r.perform c w.forget = ((r.recorded.perform c w).1, (r.recorded.perform c w).2.forget) := by
  obtain ⟨hresult, hdesk⟩ := r.handle_recorded c w.desk w.desk.forget rfl
  refine Prod.ext hresult.symm ?_
  simp only [perform, World.onDesk, World.forget, hdesk]

theorem dispatch_forget (c : Command) (w : RecordedWorld σ κ ε τ) :
    r.dispatch c w.forget = ((r.recorded.dispatch c w).1, (r.recorded.dispatch c w).2.forget) := by
  have hsession : w.forget.session = w.session := rfl
  unfold dispatch
  rw [hsession]
  split
  · rfl
  · cases c.question? with
    | none => exact perform_forget c w
    | some q =>
      have hask : r.recorded.confirmer.ask q w.asker =
          ((r.confirmer.ask q w.asker.1).1, (r.confirmer.ask q w.asker.1).2, w.asker.2 ++ [q]) :=
        rfl
      have hasker : w.forget.asker = w.asker.1 := rfl
      simp only [hask, hasker]
      rcases r.confirmer.ask q w.asker.1 with ⟨_ | _, asker⟩
      · rfl
      · exact perform_forget c { w with asker := (asker, w.asker.2 ++ [q]) }

theorem answer_forget (line : String) (w : RecordedWorld σ κ ε τ) :
    r.answer line w.forget = ((r.recorded.answer line w).1, (r.recorded.answer line w).2.1,
      (r.recorded.answer line w).2.2.forget) := by
  unfold answer
  split
  · rfl
  · cases Command.ofLine line with
    | error e => rfl
    | ok c => simp only [dispatch_forget]

theorem tell_forget (report : LineReport) (w : RecordedWorld σ κ ε τ) :
    r.tell report w.forget = (r.recorded.tell report w).forget := by
  have htrail : w.forget.trail = w.trail := rfl
  have htelemetry : r.recorded.telemetry = r.telemetry := rfl
  unfold tell
  rw [htelemetry, htrail]
  split
  · rfl
  · split <;> rfl

theorem run_forget (r : Runner σ κ ε τ) (line : String) (w : RecordedWorld σ κ ε τ) :
    r.run line w.forget = ((r.recorded.run line w).1, (r.recorded.run line w).2.forget) := by
  simp only [run, answer_forget, tell_forget]
  rfl

/-- A recorded run, without the lists, is the run. -/
theorem map_forget_turns (r : Runner σ κ ε τ) (lines : List String) (w : RecordedWorld σ κ ε τ) :
    (r.recorded.turns lines w).map Turn.forget = r.turns lines w.forget := by
  induction lines generalizing w with
  | nil => rfl
  | cons line lines ih =>
    rw [turns, turns, List.map_cons, ih, turn, turn, run_forget]
    rfl

end Runner
end TreeConsole
