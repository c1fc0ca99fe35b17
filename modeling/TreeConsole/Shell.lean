import TreeConsole.Runner

/-!
# Shells

Lines and what they have to show, on a terminal. In a conversation a prompt is written before each
line is read, and before each prompt the terminal is asked how wide it is; when there is nothing to
read the user is asked whether to leave. A script is a list of lines that are run without prompts.
Failures that leave the store usable are shown; any other ends the shell, and so does a terminal
that cannot be read, or not be written to where that matters.

Main statements: `interactFor_succ`, `interactFor_of_leave`, `interactFor_of_stop` and
`runLines_nil`.
-/

namespace TreeConsole

/-- A shell: whom its lines are run with, and whether silence at the last question means to leave.
Its terminal is the first part of the state of whoever answers questions. -/
structure Shell (σ κ ε τ : Type) where
  runner : Runner σ (Terminal × κ) ε τ
  quitDefault : Bool

/-- What comes after a line. -/
inductive Next where
  /-- The next line is read. -/
  | goOn
  /-- The shell ends. -/
  | leave
  /-- The shell ends with a failure. -/
  | stop (failure : Failure)
  deriving DecidableEq, Repr

namespace Shell

variable {σ κ ε τ : Type}

/-- What a shell works on. -/
abbrev State (σ κ ε τ : Type) := World σ (Terminal × κ) ε τ

/-! ### The terminal of a shell -/

/-- The terminal of a shell. -/
def terminal (w : State σ κ ε τ) : Terminal := w.asker.1

/-- Replaces the terminal of a shell. -/
def withTerminal (w : State σ κ ε τ) (t : Terminal) : State σ κ ε τ :=
  { w with asker := (t, w.asker.2) }

/-- Writes a text, and says whether that went well. -/
def write (text : String) (w : State σ κ ε τ) : Bool × State σ κ ε τ :=
  let r := (terminal w).write text
  (r.1, withTerminal w r.2)

/-- Writes a text and ends the line. -/
def writeLine (text : String) (w : State σ κ ε τ) : Bool × State σ κ ε τ := write (text ++ "\n") w

/-- Writes a text and has it written out, and says whether that went well. -/
def writeOut (text : String) (w : State σ κ ε τ) : Bool × State σ κ ε τ :=
  let r := (terminal w).writeOut text
  (r.1, withTerminal w r.2)

/-- Writes out what was written so far, and says whether that went well. -/
def flush (w : State σ κ ε τ) : Bool × State σ κ ε τ :=
  let r := (terminal w).flush
  (r.1, withTerminal w r.2)

/-- Asks the terminal for its width, and takes it over if there is one. -/
def measure (w : State σ κ ε τ) : State σ κ ε τ :=
  let r := (terminal w).measure
  (withTerminal w r.2).mapSession fun session => session.measured r.1

/-- The failure of an output that cannot be written to. -/
def closed : Failure := .of Terminal.closedText

/-- The question that is asked when there is nothing to read. -/
def quitQuestion (s : Shell σ κ ε τ) : Question := ⟨"Quit?", s.quitDefault⟩

/-- A line without the line feeds and carriage returns at its end. -/
def withoutLineEnd (line : String) : String :=
  String.ofList (line.toList.reverse.dropWhile fun c => c = '\n' || c = '\r').reverse

/-! ### Conversations -/

/-- Runs a line and shows its reply; a reply that cannot be written is lost. -/
def execute (s : Shell σ κ ε τ) (line : String) (w : State σ κ ε τ) :
    Except ShellError Bool × State σ κ ε τ :=
  match s.runner.run line w with
  | (.error e, w) => (.error e, w)
  | (.ok outcome, w) =>
    -- Nobody is told of a reply that cannot be written.
    let w := match outcome.shown? with
      | some text => (writeLine text w).2
      | none => w
    (.ok (outcome = .terminate), w)

/-- Runs a line of a conversation. -/
def respond (s : Shell σ κ ε τ) (line : String) (w : State σ κ ε τ) : Next × State σ κ ε τ :=
  match s.execute line w with
  | (.ok true, w) => (.leave, w)
  | (.ok false, w) => (.goOn, w)
  | (.error e, w) =>
    if e.isRecoverable then
      match writeLine e.shown w with
      | (true, w) => (.goOn, w)
      | (false, w) => (.stop closed, w)
    else (.stop ((Failure.of e.message).within "shell session aborted"), w)

/-- Asks whether to leave. -/
def confirmQuit (s : Shell σ κ ε τ) (w : State σ κ ε τ) : Next × State σ κ ε τ :=
  match writeLine "" w with
  | (false, w) => (.stop closed, w)
  | (true, w) =>
    match s.quitQuestion.ask (terminal w) with
    | (true, t) => (.leave, withTerminal w t)
    -- A line that was not read still has its number.
    | (false, t) => (.goOn, (withTerminal w t).advance)

/-- Writes a prompt, once the width of the terminal has been taken over. -/
def prompt (w : State σ κ ε τ) : Bool × State σ κ ε τ :=
  writeOut (measure w).session.prompt (measure w)

/-- One turn of a conversation: a prompt, a line, and what it has to show. -/
def step (s : Shell σ κ ε τ) (w : State σ κ ε τ) : Next × State σ κ ε τ :=
  match prompt w with
  | (false, w) => (.stop closed, w)
  | (true, w) =>
    let r := (terminal w).read
    let w := withTerminal w r.2
    match r.1 with
    | .failed reason => (.stop ((Failure.of reason).within "reading command"), w)
    -- Silence is a question to the user, and not yet the end.
    | .interrupted | .endOfInput => s.confirmQuit w
    | .line bytes _ => s.respond (withoutLineEnd (Utf8.toText bytes)) w

/-- How a shell ended. -/
abbrev Ended := Except Failure Unit

/-- So many turns of a conversation, or as many as there are until it ends. -/
def interactFor (s : Shell σ κ ε τ) : Nat → State σ κ ε τ → Option Ended × State σ κ ε τ
  | 0, w => (none, w)
  | turns + 1, w =>
    match s.step w with
    | (.goOn, w) => interactFor s turns w
    | (.leave, w) => (some (.ok ()), w)
    | (.stop f, w) => (some (.error f), w)

/-- A conversation. A turn uses up something to read as long as there is any; a conversation that
still goes on afterwards goes on for ever. -/
def interact (s : Shell σ κ ε τ) (w : State σ κ ε τ) : Option Ended × State σ κ ε τ :=
  s.interactFor ((terminal w).incoming.length + 1) w

/-! ### Scripts -/

/-- The failure of a script at a line. -/
def scriptFailure (number : Nat) (line : String) : Failure :=
  .of ("command " ++ toString number ++ " failed: " ++ Text.trimmed line)

/-- Runs the rest of a script; its first line has a number. -/
def runLines (s : Shell σ κ ε τ) (goOnAfterError : Bool) :
    Nat → List String → State σ κ ε τ → Ended × State σ κ ε τ
  | _, [], w => (.ok (), w)
  | number, line :: lines, w =>
    match s.execute line w with
    | (.ok true, w) => (.ok (), w)
    | (.ok false, w) => runLines s goOnAfterError (number + 1) lines w
    | (.error e, w) =>
      match writeLine e.shown w with
      -- The complaint is shown even if the script ends with it.
      | (false, w) => (.error closed, w)
      | (true, w) =>
        if goOnAfterError && e.isRecoverable then
          runLines s goOnAfterError (number + 1) lines w
        else (.error (scriptFailure number line), w)

/-- Runs a script: its lines in order, up to one that ends the session or fails. -/
def runScript (s : Shell σ κ ε τ) (lines : List String) (goOnAfterError : Bool)
    (w : State σ κ ε τ) : Ended × State σ κ ε τ :=
  match s.runLines goOnAfterError 1 lines w with
  | (.error f, w) => (.error f, w)
  | (.ok _, w) =>
    match flush w with
    | (true, w) => (.ok (), w)
    | (false, w) => (.error closed, w)

/-- Writes what the server says of itself. -/
def printBanner (s : Shell σ κ ε τ) (w : State σ κ ε τ) : Ended × State σ κ ε τ :=
  match s.runner.client.answer (.sendAdmin "srvr") w.desk.store with
  | (.error e, store) =>
    (.error ((Failure.of e.message).within "querying server summary"),
      { w with desk := { w.desk with store } })
  | (.ok summary, store) =>
    match writeLine (Text.trimmedEnd summary) { w with desk := { w.desk with store } } with
    | (true, w) => (.ok (), w)
    | (false, w) => (.error closed, w)

theorem interactFor_succ (s : Shell σ κ ε τ) (turns : Nat) (w w' : State σ κ ε τ)
    (h : s.step w = (.goOn, w')) : s.interactFor (turns + 1) w = s.interactFor turns w' := by
  simp [interactFor, h]

theorem interactFor_of_leave (s : Shell σ κ ε τ) (turns : Nat) (w w' : State σ κ ε τ)
    (h : s.step w = (.leave, w')) : s.interactFor (turns + 1) w = (some (.ok ()), w') := by
  simp [interactFor, h]

theorem interactFor_of_stop (s : Shell σ κ ε τ) (turns : Nat) (w w' : State σ κ ε τ) {f : Failure}
    (h : s.step w = (.stop f, w')) : s.interactFor (turns + 1) w = (some (.error f), w') := by
  simp [interactFor, h]

theorem runLines_nil (s : Shell σ κ ε τ) (goOnAfterError : Bool) (number : Nat)
    (w : State σ κ ε τ) : s.runLines goOnAfterError number [] w = (.ok (), w) := rfl

end Shell
end TreeConsole
