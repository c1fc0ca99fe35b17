import TreeConsole.Proofs.Shell.Happening
import TreeConsole.Shell

/-!
# Turns on an open terminal

On a terminal that takes whatever is written a turn of a conversation is settled by what is read
and by what a line leads to. The cases of a shell that only a failing output can bring about drop
out here, once and for all. So does the width of the terminal, where it never tells one.

## Main definitions

* `Shell.listen` — writes a prompt and reads once, whatever became of the prompt
* `Shell.say` — shows a reply, if there is one

## Main results

* `Shell.step_of_failed`, `Shell.step_of_silence`, `Shell.step_of_line` — a turn, by what was read
* `Shell.respond_of_ok`, `Shell.respond_of_recoverable`, `Shell.respond_of_unrecoverable` — a line,
  by what it led to
-/

namespace TreeConsole.Shell

variable {σ κ ε τ : Type} {s : Shell σ κ ε τ} {w w' : State σ κ ε τ} {line : String}
  {outcome : Outcome} {e : ShellError}

/-- Writes a prompt and reads once. -/
def listen (w : State σ κ ε τ) : Reading × State σ κ ε τ :=
  let prompted := (prompt w).2
  ((terminal prompted).read.1, withTerminal prompted (terminal prompted).read.2)

/-- The line that is run for a reading, if it was one. -/
def lineOf? : Reading → Option String
  | .line bytes _ => some (withoutLineEnd (Utf8.toText bytes))
  | .interrupted | .endOfInput | .failed _ => none

/-- Shows a reply, if there is one. -/
def say (reply : Option String) (w : State σ κ ε τ) : State σ κ ε τ :=
  match reply with
  | none => w
  | some text => (writeLine text w).2

/-! ### What is read -/

section Turns

variable (h : (terminal w).IsOpen)
include h

theorem write_of_isOpen (text : String) :
    write text w = (true, withTerminal w ((terminal w).write text).2) := by
  rw [write, Terminal.write_of_isOpen h]

theorem flush_of_isOpen : flush w = (true, w) := by
  rw [flush, Terminal.flush_of_flushes h.flushes]
  rfl

/-- A prompt can be written, and the terminal was asked for its width before. -/
theorem prompt_of_isOpen :
    prompt w =
      (true, withTerminal (measure w)
        ((terminal w).measure.2.write (measure w).session.prompt).2) := by
  rw [prompt, writeOut, Terminal.writeOut_of_isOpen (t := terminal (measure w)) h.measure]
  rfl

/-- What a turn does is settled by what is read behind its prompt. -/
theorem step_of_isOpen :
    s.step w =
      match (listen w).1 with
      | .failed reason => (.stop ((Failure.of reason).within "reading command"), (listen w).2)
      | .interrupted | .endOfInput => s.confirmQuit (listen w).2
      | .line bytes _ => s.respond (withoutLineEnd (Utf8.toText bytes)) (listen w).2 := by
  have hwritten : (prompt w).1 = true := by rw [prompt_of_isOpen h]
  -- What the prompt left behind is not looked into: it is what `listen` reads from, too.
  have hprompt : prompt w = (true, (prompt w).2) := Prod.ext hwritten rfl
  rw [step, hprompt]
  rfl

theorem step_of_failed {reason : String} (hr : (listen w).1 = .failed reason) :
    s.step w = (.stop ((Failure.of reason).within "reading command"), (listen w).2) := by
  rw [step_of_isOpen h, hr]

theorem step_of_silence (hr : (listen w).1 = .interrupted ∨ (listen w).1 = .endOfInput) :
    s.step w = s.confirmQuit (listen w).2 := by
  rw [step_of_isOpen h]
  rcases hr with hr | hr <;> rw [hr]

theorem step_of_line (hr : lineOf? (listen w).1 = some line) :
    s.step w = s.respond line (listen w).2 := by
  rw [step_of_isOpen h]
  cases hlisten : (listen w).1 with
  | line bytes nonempty =>
    rw [hlisten] at hr
    cases hr
    rfl
  | interrupted | endOfInput | failed reason =>
    rw [hlisten] at hr
    cases hr

/-- Whether to leave is asked, and who stays goes on to the next number. -/
theorem confirmQuit_of_isOpen :
    s.confirmQuit w =
      match s.quitQuestion.ask ((terminal w).write "\n").2 with
      | (true, t) => (.leave, withTerminal w t)
      | (false, t) => (.goOn, (withTerminal w t).advance) := by
  have hline : writeLine "" w = (true, withTerminal w ((terminal w).write "\n").2) :=
    write_of_isOpen h "\n"
  rw [confirmQuit, hline]
  rfl

/-- A prompt and a reading are all that happens before something is done. -/
theorem listen_takes :
    (terminal w).Takes [.prompted (measure w).session, .heard (listen w).1]
      (terminal (listen w).2) := by
  have hprompted : (terminal w).Takes [.prompted (measure w).session]
      (terminal (prompt w).2) := by
    rw [prompt_of_isOpen h]
    exact .prompt h (measure w).session
  exact hprompted.append (.read hprompted.isOpen rfl rfl rfl)

/-- A reply is one line more. -/
theorem say_takes (reply : Option String) :
    (terminal w).Takes (reply.toList.map fun text => .said (text ++ "\n"))
      (terminal (say reply w)) := by
  cases reply with
  | none => exact .nil h
  | some text => exact .write h rfl rfl rfl

end Turns

/-! ### The width of the terminal -/

theorem index_measure (w : State σ κ ε τ) : (measure w).session.index = w.session.index :=
  Session.index_measured _ _

/-- A terminal that never tells a width changes nothing by being asked for it. -/
theorem measure_of_widthless (h : ∀ n, (terminal w).widths n = none) : measure w = w := by
  rw [measure, Terminal.measure_of_widthless h]
  rfl

/-! ### What a line leads to -/

theorem execute_of_ok (hrun : s.runner.run line w = (.ok outcome, w')) :
    s.execute line w = (.ok (outcome = .terminate), say outcome.shown? w') := by
  simp only [execute, hrun]
  cases outcome.shown? <;> rfl

theorem execute_of_error (hrun : s.runner.run line w = (.error e, w')) :
    s.execute line w = (.error e, w') := by
  simp only [execute, hrun]

theorem respond_of_ok (hrun : s.runner.run line w = (.ok outcome, w')) :
    s.respond line w =
      (if outcome = .terminate then .leave else .goOn, say outcome.shown? w') := by
  unfold respond
  rw [execute_of_ok hrun]
  by_cases hlast : outcome = .terminate
  · simp only [hlast, decide_true, if_true]
  · simp only [hlast, decide_false, if_false]

theorem respond_of_recoverable (hrun : s.runner.run line w = (.error e, w'))
    (h : (terminal w').IsOpen) (he : e.isRecoverable = true) :
    s.respond line w = (.goOn, say (some e.shown) w') := by
  have hwritten : writeLine e.shown w' = (true, say (some e.shown) w') :=
    write_of_isOpen h (e.shown ++ "\n")
  simp only [respond, execute_of_error hrun, he, if_true, hwritten]

theorem respond_of_unrecoverable (hrun : s.runner.run line w = (.error e, w'))
    (he : e.isRecoverable = false) :
    s.respond line w =
      (.stop ((Failure.of e.message).within "shell session aborted"), w') := by
  simp [respond, execute_of_error hrun, he]

end TreeConsole.Shell
