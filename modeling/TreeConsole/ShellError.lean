import TreeConsole.Keyword
import TreeConsole.Node.Error

/-!
# Failures of a line

Why a line could not be run. A failure that leaves the store usable is reported and the shell goes
on; a lost connection or a failed editor ends the session.

Main statement: `isRecoverable_eq_false_iff`.
-/

namespace TreeConsole

/-- A failure of one line of the shell. -/
inductive ShellError where
  /-- The line does not start with a command. -/
  | unknownCommand (line : String)
  /-- The arguments do not fit the command. -/
  | invalidArguments (keyword : Keyword) (reason : String)
  /-- The command writes and the session is read-only. -/
  | unauthorizedWrite (keyword : Keyword)
  /-- No node is at the path. -/
  | nodeNotFound (path : String)
  /-- The node still has children. -/
  | nodeNotEmpty (path : String)
  /-- Any other failure of the store. -/
  | client (error : NodeError)
  /-- The editor did not give a payload back. -/
  | editor (reason : String)
  deriving DecidableEq, Repr, Inhabited

namespace ShellError

/-- The short name of a failure, for logs. -/
def kind : ShellError → String
  | unknownCommand _ => "unknown_command"
  | invalidArguments _ _ => "invalid_arguments"
  | unauthorizedWrite _ => "unauthorized_write"
  | nodeNotFound _ => "node_not_found"
  | nodeNotEmpty _ => "node_not_empty"
  | client _ => "client"
  | editor _ => "editor"

/-- The sentence that describes a failure. -/
def message : ShellError → String
  | unknownCommand line => "Command '" ++ line ++ "' not found"
  | invalidArguments _ reason => reason
  | unauthorizedWrite keyword =>
    "Cannot run `" ++ keyword.word ++ "` in read-only mode. Run `toggle_write` to enable writes."
  | nodeNotFound path => path ++ " does not exist"
  | nodeNotEmpty path => path ++ " is not empty. Use `rmr` to delete it along with its children."
  | client error => error.message
  | editor reason => "editor failure: " ++ reason

/-- The command a failure is about, where it names one. -/
def keyword? : ShellError → Option Keyword
  | invalidArguments keyword _ | unauthorizedWrite keyword => some keyword
  | _ => none

/-- Whether the shell reports the failure and reads on. -/
def isRecoverable : ShellError → Bool
  | client (.connection _) | editor _ => false
  | _ => true

/-- A missing node and a node with children have messages of their own; every other failure of the
store is passed on. -/
def ofNodeError : NodeError → ShellError
  | .noNode path => nodeNotFound path
  | .notEmpty path => nodeNotEmpty path
  | error => client error

theorem isRecoverable_eq_false_iff {e : ShellError} :
    e.isRecoverable = false ↔
      (∃ reason, e = client (.connection reason)) ∨ ∃ reason, e = editor reason := by
  cases e with
  | client error => cases error <;> simp [isRecoverable]
  | _ => simp [isRecoverable]

end ShellError
end TreeConsole
