import TreeConsole.Settings.Basic

/-!
# Command lines

The options of the program. An option with a value takes it from the same argument, behind an equals
sign or, for a letter, right behind it, or else from the next argument, unless that looks like an
option itself. Letters may be bundled. Only the option for commands may be given more than once.

The value of an option is looked at when the next option comes, or at the end; so an argument that
nothing is known of is reported before a value that will not do.
-/

namespace TreeConsole

/-- An option of the program. -/
inductive Flag where
  | config | write | seed | logFile | logLevel | eventLog | command | continueOnError | help
  | version
  deriving DecidableEq, Repr, Inhabited

namespace Flag

/-- Every option. -/
def all : List Flag :=
  [config, write, seed, logFile, logLevel, eventLog, command, continueOnError, help, version]

/-- The name of an option. -/
def long : Flag → String
  | config => "config"
  | write => "write"
  | seed => "seed"
  | logFile => "log-file"
  | logLevel => "log-level"
  | eventLog => "event-log"
  | command => "command"
  | continueOnError => "continue-on-error"
  | help => "help"
  | version => "version"

/-- The letter of an option, if it has one. -/
def letter? : Flag → Option Char
  | command => some 'c'
  | help => some 'h'
  | version => some 'V'
  | _ => none

/-- Whether an option has a value. -/
def takesValue : Flag → Bool
  | config | seed | logFile | logLevel | eventLog | command => true
  | _ => false

/-- The option of a name. -/
def ofLong? (name : String) : Option Flag := all.find? fun f => f.long == name

/-- The option of a letter. -/
def ofLetter? (c : Char) : Option Flag := all.find? fun f => f.letter? == some c

end Flag

/-- Why a command line is not run. -/
inductive ArgumentsStop where
  /-- The help was asked for. -/
  | help
  /-- The version was asked for. -/
  | version
  /-- An argument that nothing is known of. -/
  | unknownArgument
  /-- An option without its value, or with one that will not do. -/
  | invalidValue
  /-- An option that was given before. -/
  | repeated
  /-- A value for an option that has none. -/
  | tooManyValues
  deriving DecidableEq, Repr, Inhabited

/-- What a command line asks for. -/
structure Arguments where
  config : Option String := none
  seed : Option String := none
  commands : List String := []
  goOnAfterError : Bool := false
  write : Bool := false
  logFile : Option String := none
  logLevel : Option String := none
  eventLog : Option String := none
  deriving DecidableEq, Repr, Inhabited

namespace Arguments

/-! ### Places to fill -/

/-- Fills a place that has to be free. -/
def fill (place : Option String) (value : String) : Except ArgumentsStop (Option String) :=
  match place with
  | some _ => .error .repeated
  | none => .ok (some value)

/-- Fills the place of a path. -/
def fillPath (place : Option String) (value : String) : Except ArgumentsStop (Option String) :=
  match fill place value with
  | .error e => .error e
  | .ok place => if value = "" then .error .invalidValue else .ok place

/-- Takes an option with its value. -/
def withValue (a : Arguments) (f : Flag) (value : String) : Except ArgumentsStop Arguments :=
  match f with
  | .config => (fillPath a.config value).map fun config => { a with config }
  | .seed => (fillPath a.seed value).map fun seed => { a with seed }
  | .logFile => (fillPath a.logFile value).map fun logFile => { a with logFile }
  | .eventLog => (fillPath a.eventLog value).map fun eventLog => { a with eventLog }
  | .logLevel => (fill a.logLevel value).map fun logLevel => { a with logLevel }
  | .command => .ok { a with commands := a.commands ++ [value] }
  | .write | .continueOnError | .help | .version => .error .tooManyValues

/-- Takes an option without a value. -/
def withFlag (a : Arguments) (f : Flag) : Except ArgumentsStop Arguments :=
  match f with
  | .write => if a.write then .error .repeated else .ok { a with write := true }
  | .continueOnError =>
    if a.goOnAfterError then .error .repeated else .ok { a with goOnAfterError := true }
  | .help => .error .help
  | .version => .error .version
  | _ => .error .invalidValue

/-! ### One argument after the other -/

/-- What is known between two arguments: what was asked for, and an option whose value has not been
looked at yet, or not come yet. -/
structure Progress where
  taken : Arguments
  pending : Option (Flag × Option String)

namespace Progress

/-- Looks at the value of the option before. -/
def settle (p : Progress) : Except ArgumentsStop Arguments :=
  match p.pending with
  | none => .ok p.taken
  -- The option was the last argument, or another option came where its value should be.
  | some (_, none) => .error .invalidValue
  | some (f, some value) => p.taken.withValue f value

/-- Takes an option with a value in the same argument. -/
def attached (p : Progress) (f : Flag) (value : String) : Except ArgumentsStop Progress := do
  let taken ← p.settle
  let taken ← taken.withValue f value
  return ⟨taken, none⟩

/-- Takes an option whose value comes with the next argument. -/
def awaiting (p : Progress) (f : Flag) : Except ArgumentsStop Progress := do
  let taken ← p.settle
  return ⟨taken, some (f, none)⟩

/-- Takes an option without a value. -/
def flagged (p : Progress) (f : Flag) : Except ArgumentsStop Progress := do
  let taken ← p.settle
  let taken ← taken.withFlag f
  return ⟨taken, none⟩

/-- Takes an argument that starts with two dashes, without them. -/
def long (p : Progress) (body : List Char) : Except ArgumentsStop Progress :=
  let name := String.ofList (body.takeWhile (· != '='))
  let value := match body.dropWhile (· != '=') with
    | _ :: value => some (String.ofList value)
    | [] => none
  match Flag.ofLong? name with
  | none => .error .unknownArgument
  | some f =>
    match f.takesValue, value with
    | true, some value => p.attached f value
    | true, none => p.awaiting f
    | false, some _ => .error .tooManyValues
    | false, none => p.flagged f

/-- Takes the letters of an argument that starts with one dash. -/
def letters (p : Progress) : List Char → Except ArgumentsStop Progress
  | [] => .ok p
  | c :: cs =>
    match Flag.ofLetter? c with
    | none => .error .unknownArgument
    | some f =>
      if f.takesValue then
        match cs with
        | [] => p.awaiting f
        -- An equals sign between the letter and its value is no part of the value.
        | '=' :: value => p.attached f (String.ofList value)
        | value => p.attached f (String.ofList value)
      else
        match p.flagged f with
        | .error e => .error e
        | .ok p => p.letters cs

/-- Takes an argument that is no option: the value that was waited for, or nothing known. -/
def plain (p : Progress) (arg : String) : Except ArgumentsStop Progress :=
  match p.pending with
  | some (f, none) => .ok { p with pending := some (f, some arg) }
  | _ => .error .unknownArgument

/-- Takes one argument after the other. Behind two dashes alone nothing is known any more. -/
def takeAll (p : Progress) : List String → Except ArgumentsStop Arguments
  | [] => p.settle
  | arg :: args =>
    match arg.toList with
    | ['-', '-'] => if args.isEmpty then p.settle else .error .unknownArgument
    | '-' :: '-' :: body => p.long body >>= fun p => p.takeAll args
    | '-' :: c :: cs => p.letters (c :: cs) >>= fun p => p.takeAll args
    | _ => p.plain arg >>= fun p => p.takeAll args

end Progress

/-- Reads a command line, the name of the program left out. -/
def parse (args : List String) : Except ArgumentsStop Arguments := Progress.takeAll ⟨{}, none⟩ args

/-- What a command line sets. -/
def overrides (a : Arguments) : Overrides :=
  { write := a.write, logPath := a.logFile, levelText := a.logLevel, eventPath := a.eventLog }

end Arguments
end TreeConsole
