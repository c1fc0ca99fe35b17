import TreeConsole.Disk
import TreeConsole.Log.Level
import TreeConsole.Toml.Reader

/-!
# Settings

What can be set for a shell, and how it is read from a TOML document: three tables, each with a few
keys, all of which may be left out and none of which may be any other. A table may also be written
as an array of its values in order. The name of a log level is checked when the document is read,
and paths are seen from the folder of the document.
-/

namespace TreeConsole

/-- What can be set for a shell. -/
structure Settings where
  readOnly : Bool := true
  /-- Whether silence at the last question means to leave. -/
  quitDefault : Bool := true
  /-- Whether the server is introduced before the first prompt. -/
  banner : Bool := true
  logPath : Option String := none
  /-- The least level of the log, as it was written. -/
  levelText : Option String := none
  eventPath : Option String := none
  deriving DecidableEq, Repr, Inhabited

/-- Why settings cannot be had. -/
inductive SettingsError where
  /-- The document cannot be read. -/
  | unreadable
  /-- The document is not TOML, or not of the right shape. -/
  | malformed
  /-- There is no log level of that name. -/
  | unknownLevel (text : String)
  deriving DecidableEq, Repr, Inhabited

/-- The sentence that describes what is wrong with settings. -/
def SettingsError.message : SettingsError → String
  | .unreadable => "unreadable document"
  | .malformed => "malformed document"
  | .unknownLevel text => LogLevel.unknown text

/-- What is said of a document of settings, by its path. -/
def SettingsError.failure (path : String) : SettingsError → Failure
  | .unreadable => .of ("reading shell config " ++ path)
  | e => (Failure.of e.message).within ("parsing " ++ path)

/-- What is set on the command line. -/
structure Overrides where
  write : Bool := false
  logPath : Option String := none
  levelText : Option String := none
  eventPath : Option String := none
  deriving DecidableEq, Repr, Inhabited

namespace Settings

/-- The least level of the log; without a word on it, informational records are kept. -/
def level (s : Settings) : Except SettingsError LogLevel :=
  match s.levelText with
  | none => .ok .info
  | some text =>
    match LogLevel.ofText? text with
    | some level => .ok level
    | none => .error (.unknownLevel text)

/-- The values of a table with some keys, each at most once and no others. -/
def tableValues (keys : List String) : Toml.Value → Option (List (String × Toml.Value))
  | .table fields => if fields.all fun f => keys.contains f.1 then some fields else none
  | .array items => some (keys.zip items)
  | _ => none

/-- The values of a table of the document; a table that is missing has none. -/
def tableOf? (document : List (String × Toml.Value)) (name : String) (keys : List String) :
    Option (List (String × Toml.Value)) :=
  match document.lookup name with
  | none => some []
  | some v => tableValues keys v

/-- A truth value, or what holds without one. -/
def flag? (fields : List (String × Toml.Value)) (key : String) : Option Bool :=
  match fields.lookup key with
  | none => some true
  | some (.bool b) => some b
  | some _ => none

/-- A text, if there is one. -/
def text? (fields : List (String × Toml.Value)) (key : String) : Option (Option String) :=
  match fields.lookup key with
  | none => some none
  | some (.text s) => some (some s)
  | some _ => none

/-- The settings of a document. -/
def ofDocument? (document : List (String × Toml.Value)) : Option Settings := do
  if !document.all fun f => ["shell", "logging", "events"].contains f.1 then none
  let shell ← tableOf? document "shell" ["read_only", "confirm_quit_default", "print_banner"]
  let logging ← tableOf? document "logging" ["path", "level"]
  let events ← tableOf? document "events" ["path"]
  return {
    readOnly := ← flag? shell "read_only"
    quitDefault := ← flag? shell "confirm_quit_default"
    banner := ← flag? shell "print_banner"
    logPath := ← text? logging "path"
    levelText := ← text? logging "level"
    eventPath := ← text? events "path" }

/-- Settings whose paths are seen from a folder. -/
def seenFrom (s : Settings) (folder : String) : Settings :=
  { s with
    logPath := s.logPath.map (Disk.join folder)
    eventPath := s.eventPath.map (Disk.join folder) }

/-- Reads settings from the text of a document in a folder. -/
def parse (text folder : String) : Except SettingsError Settings :=
  match (Toml.parse? text).bind ofDocument? with
  | none => .error .malformed
  | some s =>
    match s.level with
    | .error e => .error e
    | .ok _ => .ok (s.seenFrom folder)

/-- Reads settings from a file. -/
def load (d : Disk) (path : String) : Except SettingsError Settings :=
  match d.read path with
  | .error _ => .error .unreadable
  | .ok bytes =>
    match Utf8.toText? bytes with
    | none => .error .unreadable
    | some text => parse text ((Disk.parentPath? path).getD ".")

/-- Settings with those of the command line in front. -/
def override (s : Settings) (o : Overrides) : Settings :=
  { s with
    readOnly := s.readOnly && !o.write
    logPath := o.logPath <|> s.logPath
    levelText := o.levelText <|> s.levelText
    eventPath := o.eventPath <|> s.eventPath }

end Settings
end TreeConsole
