import TreeConsole.Editor.Basic
import TreeConsole.OsError
import TreeConsole.Text.Blank

/-!
# Editor programs

An editor that is a program: the payload goes into a file, the program is started on that file, and
what is in the file when it ends is the new payload. The command line of the program may hold
arguments, separated by blanks. Which programs there are is given from outside.

Main statement: `failsAsEditor_external`.
-/

namespace TreeConsole

/-- How a program on a file ended. -/
structure Exit where
  status : Nat
  /-- The file afterwards, if it is still there. -/
  file : Option Bytes
  deriving DecidableEq, Repr, Inhabited

/-- A program that works on a file: from its other arguments and the file to how it ends. -/
abbrev FileProgram := List String → Bytes → Exit

/-- The programs that can be started, by their names. -/
abbrev Programs := String → Except OsError FileProgram

/-- Splits characters at blanks. -/
def blankSplit : List Char → List (List Char)
  | [] => [[]]
  | c :: cs =>
    if Text.isBlank c then [] :: blankSplit cs
    else
      match blankSplit cs with
      | [] => [[c]]
      | w :: ws => (c :: w) :: ws

/-- The words of a text: what stands between blanks, and not nothing. -/
def words (s : String) : List String :=
  ((blankSplit s.toList).filter fun w => !w.isEmpty).map String.ofList

namespace Editor

/-- The editor that is started when none is named. -/
def fallback : String := "vi"

/-- The command line of the editor that the environment names: the first of two variables that is
more than blanks. -/
def ofEnvironment (visual editor : Option String) : String :=
  (([visual, editor].filterMap id).find? fun s => !Text.isBlankText s).getD fallback

/-- Starts a program on a file with a payload. -/
def start (programs : Programs) (program : String) (args : List String) (payload : Bytes) :
    Except ShellError Bytes :=
  match programs program with
  | .error e => .error (.editor ("cannot start `" ++ program ++ "`: " ++ e.message))
  | .ok run =>
    let exit := run args payload
    -- A program that failed leaves nothing to read back.
    if exit.status ≠ 0 then
      .error (.editor ("`" ++ program ++ "` exited with exit status: " ++ toString exit.status))
    else
      match exit.file with
      | some payload => .ok payload
      | none => .error (.editor OsError.notFound.message)

/-- The editor that is a program with arguments. -/
def external {ε : Type} (programs : Programs) (commandLine : String) : Editor ε where
  edit _ payload s :=
    match words commandLine with
    | [] => (.error (.editor "no editor configured"), s)
    | program :: args => (start programs program args payload, s)

theorem failsAsEditor_external {ε : Type} (programs : Programs) (commandLine : String) :
    (external programs commandLine : Editor ε).FailsAsEditor := by
  intro path payload s e h
  unfold external at h
  cases hwords : words commandLine with
  | nil =>
    simp only [hwords] at h
    cases h
    exact ⟨_, rfl⟩
  | cons program args =>
    simp only [hwords, start] at h
    -- However the program ends, what is said of it is said of the editor.
    split at h
    · cases h
      exact ⟨_, rfl⟩
    · split at h
      · cases h
        exact ⟨_, rfl⟩
      · split at h <;> cases h
        exact ⟨_, rfl⟩

end Editor
end TreeConsole
