import TreeConsole.Text.Blank

/-!
# Log levels

How grave a log record is. The levels are ordered, and a log passes over the records below a level
of its own.

Main statement: `ofText?_word`, that the word of a level is read as that level.
-/

namespace TreeConsole

/-- How grave a log record is. -/
inductive LogLevel where
  | debug | info | warn | error
  deriving DecidableEq, Repr, Inhabited

namespace LogLevel

/-- Every level, the least grave first. -/
def all : List LogLevel := [debug, info, warn, error]

/-- The place of a level in the order. -/
def rank : LogLevel → Nat
  | debug => 0
  | info => 1
  | warn => 2
  | error => 3

/-- The name of a level in settings. -/
def word : LogLevel → String
  | debug => "debug"
  | info => "info"
  | warn => "warn"
  | error => "error"

/-- The name of a level in records. -/
def title : LogLevel → String
  | debug => "DEBUG"
  | info => "INFO"
  | warn => "WARN"
  | error => "ERROR"

/-- A setting without the blanks around it and its ASCII letters in lower case. -/
def normalized (text : String) : String :=
  String.ofList ((Text.trim text.toList).map Char.toLower)

/-- The level a setting names. Letter case does not count, and a warning may be spelled out. -/
def ofText? (text : String) : Option LogLevel :=
  let name := normalized text
  if name = "warning" then some warn else all.find? fun l => l.word == name

/-- What is said of a setting that names no level. -/
def unknown (text : String) : String := "unknown log level `" ++ normalized text ++ "`"

/-- Whether a log of some least level keeps a record of another. -/
def allows (least level : LogLevel) : Bool := least.rank ≤ level.rank

theorem ofText?_word (l : LogLevel) : ofText? l.word = some l := by
  cases l <;> decide

end LogLevel
end TreeConsole
