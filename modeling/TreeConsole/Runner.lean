import TreeConsole.Command.Handler
import TreeConsole.Command.Policy
import TreeConsole.Question.Confirmer
import TreeConsole.Telemetry.Basic

/-!
# Runners

How one line is run. A blank line does nothing. Any other line has to be a command of the right
form; a command that writes is refused in a read-only session; a deletion asks first; and only then
does the command do its work. Whatever became of the line is told to the telemetry, and the session
goes on to the next line.

What telemetry cannot tell is put down as a complaint and changes nothing else.

Main statements: `dispatch_of_refused` and `session_tell`.
-/

namespace TreeConsole

/-- Everything that a line can change. -/
structure World (σ κ ε τ : Type) where
  desk : Desk σ ε
  /-- The state of whoever answers questions. -/
  asker : κ
  /-- The state of what telemetry writes to. -/
  trail : τ
  /-- What could not be told, the first first. -/
  complaints : List String

namespace World

variable {σ κ ε τ : Type}

/-- The session of a world. -/
def session (w : World σ κ ε τ) : Session := w.desk.session

/-- Changes the session of a world. -/
def mapSession (w : World σ κ ε τ) (f : Session → Session) : World σ κ ε τ :=
  { w with desk := { w.desk with session := f w.desk.session } }

/-- Goes on to the next line. -/
def advance (w : World σ κ ε τ) : World σ κ ε τ := w.mapSession Session.advance

/-- Does an act on the desk of a world. -/
def onDesk {α : Type} (w : World σ κ ε τ) (a : Act (Desk σ ε) α) :
    Except ShellError α × World σ κ ε τ :=
  ((a.run w.desk).1, { w with desk := (a.run w.desk).2 })

end World

/-- Whom a line is run with. -/
structure Runner (σ κ ε τ : Type) where
  client : Client σ
  confirmer : Confirmer κ
  editor : Editor ε
  telemetry : Option (Telemetry τ)

/-- The command of a line that is well formed. -/
def Command.ofLine (line : String) : Except ShellError Command :=
  match validate line with
  | .error e => .error e
  | .ok keyword =>
    match (Command.ofTokens? (tokenize line)).filter fun c => c.keyword = keyword with
    | some c => .ok c
    | none => .error (.unknownCommand line)

namespace Runner

variable {σ κ ε τ : Type}

/-- Does the work of a command. -/
def perform (r : Runner σ κ ε τ) (c : Command) (w : World σ κ ε τ) :
    Except ShellError Outcome × World σ κ ε τ :=
  w.onDesk (c.handle r.client r.editor)

/-- Runs a command if it is allowed and not declined. -/
def dispatch (r : Runner σ κ ε τ) (c : Command) (w : World σ κ ε τ) :
    Except ShellError Outcome × World σ κ ε τ :=
  -- The gate comes before the question, so a refused command never asks.
  if c.keyword.mutates && w.session.readOnly then (.error (.unauthorizedWrite c.keyword), w)
  else
    match c.question? with
    | none => r.perform c w
    | some q =>
      match r.confirmer.ask q w.asker with
      | (true, asker) => r.perform c { w with asker }
      | (false, asker) => (.ok .declined, { w with asker })

/-- What becomes of a line, and the command it was, if it was one. -/
def answer (r : Runner σ κ ε τ) (line : String) (w : World σ κ ε τ) :
    Option Command × Except ShellError Outcome × World σ κ ε τ :=
  if Text.isBlankText line then (none, .ok Command.silent, w)
  else
    match Command.ofLine line with
    | .error e => (none, .error e, w)
    | .ok c => (some c, r.dispatch c w)

/-- What is said of a failure of telemetry. -/
def complaint (f : Failure) : String := "telemetry failure: " ++ f.report

/-- Tells the telemetry of a line. -/
def tell (r : Runner σ κ ε τ) (report : LineReport) (w : World σ κ ε τ) : World σ κ ε τ :=
  match r.telemetry with
  | none => w
  | some telemetry =>
    match telemetry.report report w.trail with
    | (.ok _, trail) => { w with trail }
    | (.error f, trail) => { w with trail, complaints := w.complaints ++ [complaint f] }

/-- Runs a line and goes on to the next. -/
def run (r : Runner σ κ ε τ) (line : String) (w : World σ κ ε τ) :
    Except ShellError Outcome × World σ κ ε τ :=
  let a := r.answer line w
  -- The report has the mode after the line and its number before it.
  let report : LineReport :=
    { index := w.session.index
      readOnly := a.2.2.session.readOnly
      command := a.1
      result := a.2.1 }
  (a.2.1, (r.tell report a.2.2).advance)

theorem dispatch_of_refused (r : Runner σ κ ε τ) {c : Command} {w : World σ κ ε τ}
    (hc : c.keyword.mutates = true) (hw : w.session.readOnly = true) :
    r.dispatch c w = (.error (.unauthorizedWrite c.keyword), w) := by
  simp [dispatch, hc, hw]

@[simp] theorem session_tell (r : Runner σ κ ε τ) (report : LineReport) (w : World σ κ ε τ) :
    (r.tell report w).session = w.session := by
  unfold tell
  split
  · rfl
  · split <;> rfl

end Runner
end TreeConsole
