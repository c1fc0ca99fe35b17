import TreeConsole.Command.Basic
import TreeConsole.Command.Help
import TreeConsole.Question.Basic

/-!
# The command table

What is known of each command before it runs: its argument positions, whether it writes, and the
question it asks first. Only deletions ask, and they take silence for a no.

Main statements: `Keyword.asks_imp_mutates`, that whatever asks also writes, and
`Command.default_of_question?`.
-/

namespace TreeConsole

namespace Keyword

/-- Whether a command writes to the store, and so is refused in a read-only session. -/
def mutates : Keyword → Bool
  | create | delete | edit | rmr | set => true
  | _ => false

/-- Whether a command asks before it runs. -/
def asks : Keyword → Bool
  | delete | rmr => true
  | _ => false

theorem asks_imp_mutates {k : Keyword} (h : k.asks = true) : k.mutates = true := by
  cases k <;> first | rfl | exact absurd h (by decide)

end Keyword

namespace Command

/-- The node that a command is about. -/
def target (c : Command) : String := (c.arg? 0).getD ""

/-- The question to ask before a command runs. -/
def question? (c : Command) : Option Question :=
  match c.keyword with
  | .delete => some ⟨"Are you sure you want to delete " ++ c.target ++ "?", false⟩
  | .rmr => some ⟨"Are you sure you want to delete " ++ c.target ++ " and all its children?", false⟩
  | _ => none

theorem isSome_question? (c : Command) : c.question?.isSome = c.keyword.asks := by
  rcases c with ⟨keyword, args⟩
  cases keyword <;> rfl

/-- Silence is never taken for consent to a deletion. -/
theorem default_of_question? {c : Command} {q : Question} (h : c.question? = some q) :
    q.default = false := by
  rcases c with ⟨keyword, args⟩
  cases keyword <;> simp_all [question?]
  all_goals rw [← h]

end Command

namespace Slot

/-- A listing of one argument position. -/
def listing (s : Slot) : String :=
  "Slot \x7b kind: " ++ s.kind.title ++ ", optional: " ++ toString s.optional ++ " \x7d"

end Slot

/-- A listing of what is known of a command. -/
def Keyword.listing (k : Keyword) : String :=
  "CommandSpec \x7b keyword: " ++ k.title ++
    ", grammar: [" ++ ", ".intercalate (k.slots.map Slot.listing) ++
    "], mutating: " ++ toString k.mutates ++
    ", destructive: " ++ toString k.asks ++ ", .. \x7d"

end TreeConsole
