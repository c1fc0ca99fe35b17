import TreeConsole.Command.Help
import TreeConsole.Json.Printer
import TreeConsole.Json.Reader
import TreeConsole.ShellError

/-!
# Outcomes

What a line that did not fail leads to: a reply and the next line, a declined question, or the end
of the session; and the text that is shown for each. Payloads that are JSON objects or arrays are
shown pretty, and every other payload as it is.
-/

namespace TreeConsole

/-- What a command has to show. -/
inductive Reply where
  | empty
  /-- A text to be shown as it is. -/
  | text (text : String)
  /-- The payload of a node. -/
  | payload (text : String)
  /-- A text to be shown as it is; nothing was changed, although the command could have. -/
  | unchanged (text : String)
  deriving DecidableEq, Repr, Inhabited

/-- What a line leads to. -/
inductive Outcome where
  /-- The reply is shown and the next line is read. -/
  | proceed (reply : Reply)
  /-- A question was answered with no, and nothing was done. -/
  | declined
  /-- The session ends. -/
  | terminate
  deriving DecidableEq, Repr, Inhabited

/-- A payload as it is shown. -/
def renderPayload (text : String) : String :=
  match Json.parse? text with
  | some (.arr items) => (Json.arr items).pretty
  | some (.obj fields) => (Json.obj fields).pretty
  | _ => text

namespace Outcome

/-- The short name of an outcome, for logs. -/
def label : Outcome → String
  | proceed _ => "continue"
  | declined => "declined"
  | terminate => "terminate"

/-- The text that is shown for an outcome, if there is one. -/
def shown? : Outcome → Option String
  | proceed .empty | terminate => none
  | proceed (.text text) | proceed (.unchanged text) => some text
  | proceed (.payload text) => some (renderPayload text)
  | declined => some "Aborting"

end Outcome

/-- The text that is shown for a failure. Arguments that do not fit are answered with the usage of
the command. -/
def ShellError.shown (e : ShellError) : String :=
  match e with
  | invalidArguments keyword _ => e.message ++ "\n\n" ++ keyword.usage
  | _ => e.message

end TreeConsole
