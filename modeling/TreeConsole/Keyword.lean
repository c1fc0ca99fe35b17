/-!
# Words of the shell

The closed vocabularies a line is made of: command words, the four-letter admin words a server
answers, and the kinds of token an argument position can ask for.

Main statements: `Keyword.ofWord?_eq_some_iff` identifies a command with its word, and
`Keyword.mem_all` says that the list of commands is complete.
-/

namespace TreeConsole

/-- A command of the shell. -/
inductive Keyword where
  | close | create | delete | edit | exit | get | help | ls | quit | raw | rmr | set | stat
  | toggleWrite
  deriving DecidableEq, Repr, Inhabited

namespace Keyword

/-- Every command, in alphabetical order. -/
def all : List Keyword :=
  [close, create, delete, edit, exit, get, help, ls, quit, raw, rmr, set, stat, toggleWrite]

/-- The word that is typed for a command. -/
def word : Keyword → String
  | close => "close"
  | create => "create"
  | delete => "delete"
  | edit => "edit"
  | exit => "exit"
  | get => "get"
  | help => "help"
  | ls => "ls"
  | quit => "quit"
  | raw => "raw"
  | rmr => "rmr"
  | set => "set"
  | stat => "stat"
  | toggleWrite => "toggle_write"

/-- The name of a command in a listing of the command table. -/
def title : Keyword → String
  | close => "Close"
  | create => "Create"
  | delete => "Delete"
  | edit => "Edit"
  | exit => "Exit"
  | get => "Get"
  | help => "Help"
  | ls => "Ls"
  | quit => "Quit"
  | raw => "Raw"
  | rmr => "Rmr"
  | set => "Set"
  | stat => "Stat"
  | toggleWrite => "ToggleWrite"

/-- The command a word stands for. Letter case counts. -/
def ofWord? (s : String) : Option Keyword := all.find? fun k => k.word == s

theorem mem_all (k : Keyword) : k ∈ all := by cases k <;> decide

theorem word_injective {j k : Keyword} (h : j.word = k.word) : j = k := by
  cases j <;> cases k <;> first | rfl | exact absurd h (by decide)

theorem ofWord?_word (k : Keyword) : ofWord? k.word = some k := by cases k <;> decide

theorem ofWord?_eq_some_iff {s : String} {k : Keyword} : ofWord? s = some k ↔ s = k.word := by
  constructor
  · intro h
    have hword := List.find?_some h
    exact (beq_iff_eq.mp hword).symm
  · rintro rfl
    exact ofWord?_word k

end Keyword

/-- The four-letter words a server answers, in alphabetical order. -/
def adminWords : List String :=
  ["conf", "cons", "crst", "dirs", "dump", "envi", "gtmk", "isro", "mntr", "ruok", "srst", "srvr",
   "stat", "stmk", "wchc", "wchp", "wchs"]

/-- What an argument position can ask for. -/
inductive TokenKind where
  /-- A command word. -/
  | command
  /-- A node path. -/
  | path
  /-- A text between quotes, quotes included. -/
  | quotedString
  /-- An admin word. -/
  | adminWord
  deriving DecidableEq, Repr, Inhabited

namespace TokenKind

/-- Every kind, in the order they are listed. -/
def all : List TokenKind := [command, path, quotedString, adminWord]

/-- The name of a kind. -/
def title : TokenKind → String
  | command => "Command"
  | path => "Path"
  | quotedString => "QuotedString"
  | adminWord => "AdminWord"

end TokenKind
end TreeConsole
