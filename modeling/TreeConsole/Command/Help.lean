import TreeConsole.Keyword
import TreeConsole.Text.Columns
import TreeConsole.Text.Utf8

/-!
# Help

What each command does, how it is typed, and examples. A command with one plain example shows it
on a line of its own; otherwise the examples are listed with their comments aligned.
-/

namespace TreeConsole

/-- A line to type, with a remark. -/
structure Example where
  command : String
  comment : Option String
  deriving DecidableEq, Repr, Inhabited

/-- The documentation of a command. -/
structure CommandDoc where
  summary : String
  usage : String
  examples : List Example
  deriving DecidableEq, Repr, Inhabited

namespace CommandDoc

/-- Where comments start: two columns behind the longest example. The longest is the one with the
most bytes. -/
def commentColumn (examples : List Example) : Nat :=
  (examples.map fun e => Utf8.width e.command.toList).foldr max 0 + 2

/-- One line of a list of examples. -/
def exampleLine (column : Nat) (e : Example) : String :=
  match e.comment with
  | none => e.command
  | some comment => String.ofList (Text.padded column e.command.toList) ++ "# " ++ comment

/-- The examples of a command. -/
def exampleText : List Example → String
  | [⟨command, none⟩] => "Example: " ++ command
  | examples =>
    "Examples:" ++
      String.join (examples.map fun e => "\n- " ++ exampleLine (commentColumn examples) e)

/-- How a command is typed. -/
def usageText (doc : CommandDoc) : String :=
  "Usage: " ++ doc.usage ++ "\n" ++ exampleText doc.examples

/-- What a command does and how it is typed. -/
def fullText (doc : CommandDoc) : String := doc.summary ++ "\n\n" ++ doc.usageText

end CommandDoc

namespace Keyword

/-- The documentation of a command that takes its command word and nothing else, or one example
argument. -/
private def plainDoc (summary usage line : String) : CommandDoc :=
  ⟨summary, usage, [⟨line, none⟩]⟩

/-- The documentation of every command. -/
def doc : Keyword → CommandDoc
  | close => plainDoc "Close the shell" "close" "close"
  | create =>
    plainDoc "Recursively create a path if it doesn't exist" "create <path>" "create /test/node"
  | delete => plainDoc "Delete a leaf node" "delete <path>" "delete /test"
  | edit => plainDoc "Edit the content of a node" "edit <path>" "edit /test"
  | exit => plainDoc "Close the shell" "exit" "exit"
  | get => plainDoc "Display the content of a node" "get <path>" "get /test"
  | help =>
    { summary := "Print the help of a command"
      usage := "help [command]"
      examples :=
        [⟨"help", some "shows the list of commands"⟩, ⟨"help ls", some "shows a command help"⟩] }
  | ls => plainDoc "Display the children of a node" "ls <path>" "ls /test"
  | quit => plainDoc "Close the shell" "quit" "quit"
  | raw =>
    { summary := "Send a four-letter admin command to the server"
      usage := "raw <four-letter-word>"
      examples :=
        [⟨"raw ruok", some "checks that the server is running"⟩,
          ⟨"raw srvr", some "shows server statistics"⟩] }
  | rmr =>
    plainDoc "Recursively delete all children nodes, along with argument node" "rmr <path>"
      "rmr /test"
  | set =>
    { summary := "Set or update the content of a node"
      usage := "set <path> ['value']"
      examples :=
        [⟨"set /test 'some data'", some "stores `some data`"⟩,
          ⟨"set /test '\x7b\"key\": \"value\"\x7d'", some "stores a JSON document"⟩,
          ⟨"set /test", some "stores an empty payload"⟩] }
  | stat => plainDoc "Display a node's metadata" "stat <path>" "stat /test"
  | toggleWrite => plainDoc "Activate/deactivate read-only mode" "toggle_write" "toggle_write"

/-- How a command is typed. -/
def usage (k : Keyword) : String := k.doc.usageText

/-- The full help of a command. -/
def helpText (k : Keyword) : String := k.doc.fullText

end Keyword

/-- One line for every command. -/
def generalHelp : String :=
  "Commands:" ++
    String.join (Keyword.all.map fun k => "\n- " ++ k.word ++ ": " ++ k.doc.summary)

end TreeConsole
