import TreeConsole.Runner

/-!
# The command table

A runner may keep what it knows of the commands in a table and look a command up before it runs it:
whether it writes, how its question is put, and what does its work. A command that is not in the
table would be reported as unknown, by its word and not by the line. The table is made from the list
of all commands, so that this never happens, and a runner with a table does what one without does.

## Main definitions

* `CommandTable`, and `CommandTable.standard` for the one with all commands
* `Runner.dispatchFrom` — running a command that is looked up in a table

## Main results

* `CommandTable.lookup_standard` — every command is found, with what is known of it
* `Runner.dispatchFrom_standard` — looking commands up makes no difference
-/

namespace TreeConsole

/-- What is known of a command. -/
structure CommandEntry (σ ε : Type) where
  mutates : Bool
  /-- How the question is put that is asked first, if one is. -/
  question : Option (Command → Question)
  handler : Command → Act (Desk σ ε) Outcome

/-- The commands that are known. -/
abbrev CommandTable (σ ε : Type) := List (Keyword × CommandEntry σ ε)

variable {σ κ ε τ : Type} {client : Client σ} {editor : Editor ε}

/-- The question before a node is deleted. -/
def CommandEntry.deletion (c : Command) : Question :=
  ⟨"Are you sure you want to delete " ++ c.target ++ "?", false⟩

/-- The question before a node is deleted with everything below it. -/
def CommandEntry.recursiveDeletion (c : Command) : Question :=
  ⟨"Are you sure you want to delete " ++ c.target ++ " and all its children?", false⟩

/-- What is known of each command. -/
def CommandEntry.of (client : Client σ) (editor : Editor ε) : Keyword → CommandEntry σ ε
  | .close | .exit | .quit => ⟨false, none, fun _ => pure .terminate⟩
  | .create => ⟨true, none, Command.make client⟩
  | .delete => ⟨true, some deletion, Command.remove client false⟩
  | .edit => ⟨true, none, Command.editPayload client editor⟩
  | .get => ⟨false, none, Command.display client⟩
  | .help => ⟨false, none, fun c => pure c.explain⟩
  | .ls => ⟨false, none, Command.list client⟩
  | .raw => ⟨false, none, Command.sendWord client⟩
  | .rmr => ⟨true, some recursiveDeletion, Command.remove client true⟩
  | .set => ⟨true, none, Command.write client⟩
  | .stat => ⟨false, none, Command.describe client⟩
  | .toggleWrite => ⟨false, none, fun _ => Command.switchMode⟩

/-- The table of all commands. -/
def CommandTable.standard (client : Client σ) (editor : Editor ε) : CommandTable σ ε :=
  Keyword.all.map fun k => (k, .of client editor k)

/-- Every command is in the table. -/
theorem CommandTable.lookup_standard (k : Keyword) :
    (standard client editor).lookup k = some (.of client editor k) := by
  cases k <;> rfl

namespace Runner

/-- Runs a command that is looked up in a table, if it is allowed and not declined. -/
def dispatchFrom (r : Runner σ κ ε τ) (table : CommandTable σ ε) (c : Command)
    (w : World σ κ ε τ) : Except ShellError Outcome × World σ κ ε τ :=
  match table.lookup c.keyword with
  | none => (.error (.unknownCommand c.keyword.word), w)
  | some entry =>
    if entry.mutates && w.session.readOnly then (.error (.unauthorizedWrite c.keyword), w)
    else
      match entry.question with
      | none => w.onDesk (entry.handler c)
      | some question =>
        match r.confirmer.ask (question c) w.asker with
        | (true, asker) => { w with asker : World σ κ ε τ }.onDesk (entry.handler c)
        | (false, asker) => (.ok .declined, { w with asker })

/-- With the table of all commands no command is missed, and each does what it does without it. -/
theorem dispatchFrom_standard (r : Runner σ κ ε τ) (c : Command) (w : World σ κ ε τ) :
    r.dispatchFrom (.standard r.client r.editor) c w = r.dispatch c w := by
  obtain ⟨keyword, args⟩ := c
  unfold dispatchFrom dispatch perform
  rw [CommandTable.lookup_standard]
  cases keyword <;> rfl

end Runner
end TreeConsole
