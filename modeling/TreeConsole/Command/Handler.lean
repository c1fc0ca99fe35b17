import TreeConsole.Command.Basic
import TreeConsole.Desk
import TreeConsole.Outcome
import TreeConsole.Text.Columns

/-!
# Handlers

What each command does, once it may. A handler takes the arguments as they were typed, asks the
store, and says what there is to show. The text between the quotes of an argument is what is meant
by it.

Main statements: `stripQuotes_quoted`, and `run_handle_terminate` for the commands that leave.
-/

namespace TreeConsole

/-- What is left of a text between two quotes of one sort. -/
def unquote? (quote : Char) (cs : List Char) : Option (List Char) :=
  match cs with
  | c :: rest =>
    if c = quote ∧ rest.getLast? = some quote then some rest.dropLast else none
  | [] => none

/-- A text without the quotes around it, if there are two of one sort. -/
def stripQuotes (text : String) : String :=
  match unquote? '\'' text.toList, unquote? '"' text.toList with
  | some inner, _ | none, some inner => String.ofList inner
  | none, none => text

theorem unquote?_quoted (quote : Char) (cs : List Char) :
    unquote? quote (quote :: (cs ++ [quote])) = some cs := by
  simp [unquote?]

/-- What was put between single quotes comes back. -/
theorem stripQuotes_quoted (cs : List Char) :
    stripQuotes (String.ofList ('\'' :: (cs ++ ['\'']))) = String.ofList cs := by
  simp [stripQuotes, unquote?_quoted]

namespace Command

variable {σ ε : Type}

/-- The complaint about a command without its argument. -/
def lacking (c : Command) (what : String) : ShellError :=
  .invalidArguments c.keyword ("`" ++ c.keyword.word ++ "` needs " ++ what)

/-- The node that a command is about, which has to be given. -/
def pathArg (c : Command) : Act (Desk σ ε) String :=
  match c.arg? 0 with
  | some path => pure path
  | none => Act.fail (c.lacking "a path")

/-- Success with nothing to show. -/
def silent : Outcome := .proceed .empty

/-- Success with a text to show. -/
def saying (text : String) : Outcome := .proceed (.text text)

/-- The names of the children of a node, each followed by a slash if it has children itself. -/
def markParents (client : Client σ) (path : String) : List String → Act (Desk σ ε) (List String)
  | [] => pure []
  | name :: names => do
    let below : List String ← Desk.request client (.listChildren (joinChild path name))
    let rest ← markParents client path names
    pure ((if below.isEmpty then name else name ++ "/") :: rest)

/-- Lists the children of a node in columns. -/
def list (client : Client σ) (c : Command) : Act (Desk σ ε) Outcome := do
  let path ← c.pathArg
  let children : List String ← Desk.request client (.listChildren path)
  let names ← markParents client path (children.mergeSort fun a b => decide (a ≤ b))
  let width ← Act.view fun d => d.session.width
  pure (saying (Text.columnize names width.toNat))

/-- The payload of a node, which has to be there. -/
def payloadOf (client : Client σ) (path : String) : Act (Desk σ ε) Bytes := do
  let payload : Option Bytes ← Desk.request client (.readPayload path)
  match payload with
  | some payload => pure payload
  | none => Act.fail (.nodeNotFound path)

/-- Shows the payload of a node. -/
def display (client : Client σ) (c : Command) : Act (Desk σ ε) Outcome := do
  let path ← c.pathArg
  let payload ← payloadOf client path
  pure (.proceed (.payload (Utf8.toText payload)))

/-- Makes a node and every node above it. -/
def make (client : Client σ) (c : Command) : Act (Desk σ ε) Outcome := do
  let path ← c.pathArg
  let _ : Unit ← Desk.request client (.ensurePath path)
  pure silent

/-- Replaces the payload of a node, or makes the node with it. This is no request of its own that a
client could answer otherwise; it is always made up of these. -/
def store (client : Client σ) (path : String) (payload : Bytes) : Act (Desk σ ε) Unit := do
  let isThere : Bool ← Desk.request client (.pathExists path)
  if isThere then Desk.request client (.setPayload path payload)
  else Desk.request client (.createNode path payload)

/-- Stores the text of the second argument; without one, nothing. -/
def write (client : Client σ) (c : Command) : Act (Desk σ ε) Outcome := do
  let path ← c.pathArg
  store client path (Utf8.ofText (((c.arg? 1).map stripQuotes).getD ""))
  pure silent

/-- Deletes a node. -/
def remove (client : Client σ) (recursive : Bool) (c : Command) : Act (Desk σ ε) Outcome := do
  let path ← c.pathArg
  let _ : Unit ← Desk.request client (.deleteNode path recursive)
  pure silent

/-- Shows the metadata of a node. -/
def describe (client : Client σ) (c : Command) : Act (Desk σ ε) Outcome := do
  let path ← c.pathArg
  let stat : NodeStat ← Desk.request client (.describe path)
  pure (saying stat.render)

/-- Shows what the server answers to an admin word. -/
def sendWord (client : Client σ) (c : Command) : Act (Desk σ ε) Outcome :=
  match c.arg? 0 with
  | none => Act.fail (c.lacking "an admin word")
  | some word => do
    let answer : String ← Desk.request client (.sendAdmin word)
    pure (saying answer)

/-- Shows the help of a command, or of all. -/
def explain (c : Command) : Outcome :=
  match (c.arg? 0).bind Keyword.ofWord? with
  | some keyword => saying keyword.helpText
  | none => saying generalHelp

/-- Allows writing, or forbids it again. -/
def switchMode : Act (Desk σ ε) Outcome := do
  Desk.updateSession Session.toggleWrite
  let readOnly ← Act.view fun d => d.session.readOnly
  pure (saying ("Switched to " ++ (if readOnly then "read-only" else "read-write") ++ " mode"))

/-- Has the payload of a node edited, and stores it if it is another. -/
def editPayload (client : Client σ) (editor : Editor ε) (c : Command) : Act (Desk σ ε) Outcome := do
  let path ← c.pathArg
  let payload ← payloadOf client path
  let new ← Desk.openEditor editor path payload
  if new = payload then pure (.proceed (.unchanged (path ++ " unchanged")))
  else
    let _ : Unit ← Desk.request client (.setPayload path new)
    pure silent

/-- Does what a command says. -/
def handle (client : Client σ) (editor : Editor ε) (c : Command) : Act (Desk σ ε) Outcome :=
  match c.keyword with
  | .close | .exit | .quit => pure .terminate
  | .create => c.make client
  | .delete => c.remove client false
  | .edit => c.editPayload client editor
  | .get => c.display client
  | .help => pure c.explain
  | .ls => c.list client
  | .raw => c.sendWord client
  | .rmr => c.remove client true
  | .set => c.write client
  | .stat => c.describe client
  | .toggleWrite => switchMode

theorem run_handle_terminate (client : Client σ) (editor : Editor ε) (c : Command) (d : Desk σ ε)
    (h : c.keyword = .quit ∨ c.keyword = .exit ∨ c.keyword = .close) :
    (c.handle client editor).run d = (.ok .terminate, d) := by
  rcases h with h | h | h <;> simp [handle, h]

end Command
end TreeConsole
