import TreeConsole.Json.Shape

/-!
# Sessions

What a shell remembers between two lines: whether writing is allowed, the number of the next line,
and how wide the terminal is. A session starts read-only unless told otherwise.

Main statements: `readOnly_toggleWrite` and `toggleWrite_toggleWrite`; `prompt_measured`, that the
width does not show in a prompt.
-/

namespace TreeConsole

/-- The state of a shell between two lines. -/
structure Session where
  /-- Whether commands that write are refused. -/
  readOnly : Bool
  /-- The number of the next line. -/
  index : UInt64
  /-- The width for listings, in characters. -/
  width : UInt64
  deriving DecidableEq, Repr

namespace Session

/-- The width of a terminal that does not tell its own. -/
def defaultWidth : UInt64 := 80

/-- A session before its first line. -/
def start (readOnly : Bool) : Session := ⟨readOnly, 0, defaultWidth⟩

instance : Inhabited Session := ⟨start true⟩

/-- Allows writing, or forbids it again. -/
def toggleWrite (s : Session) : Session := { s with readOnly := !s.readOnly }

/-- Goes on to the next line. -/
def advance (s : Session) : Session := { s with index := s.index + 1 }

/-- Takes over the width of the terminal. Zero is no width and is ignored. -/
def setWidth (s : Session) (width : UInt64) : Session := if width = 0 then s else { s with width }

/-- Takes over the width that a terminal tells, if it tells one. -/
def measured (s : Session) (width : Option UInt64) : Session := width.elim s s.setWidth

/-- The two letters that stand for what is allowed. -/
def modeLetters (s : Session) : String := if s.readOnly then "RO" else "RW"

/-- What is shown in front of the next line. -/
def prompt (s : Session) : String := "(" ++ s.modeLetters ++ " " ++ toString s.index.toNat ++ ") > "

/-- A session as JSON, in the order of the record. -/
def fields (s : Session) : List (String × Json) :=
  [("read_only", .bool s.readOnly), ("command_index", .num (.int s.index.toNat)),
    ("terminal_width", .num (.int s.width.toNat))]

/-- Reads a session from JSON. -/
def ofJson : Json → Shaped Session :=
  Json.asRecord "Session"
    [("read_only", Json.checking Json.asBool),
      ("command_index", Json.checking (Json.asUInt64 "u64")),
      ("terminal_width", Json.checking (Json.asUInt64 "usize"))]
    fun source => do
      let readOnly ← source.field "read_only" 0 Json.asBool none
      let index ← source.field "command_index" 1 (Json.asUInt64 "u64") none
      let width ← source.field "terminal_width" 2 (Json.asUInt64 "usize") none
      return { readOnly, index, width }

@[simp] theorem readOnly_toggleWrite (s : Session) : s.toggleWrite.readOnly = !s.readOnly := rfl

@[simp] theorem toggleWrite_toggleWrite (s : Session) : s.toggleWrite.toggleWrite = s := by
  simp [toggleWrite]

@[simp] theorem readOnly_advance (s : Session) : s.advance.readOnly = s.readOnly := rfl

@[simp] theorem index_advance (s : Session) : s.advance.index = s.index + 1 := rfl

@[simp] theorem width_advance (s : Session) : s.advance.width = s.width := rfl

@[simp] theorem readOnly_measured (s : Session) (width : Option UInt64) :
    (s.measured width).readOnly = s.readOnly := by
  cases width <;> simp [measured, setWidth, apply_ite readOnly]

@[simp] theorem index_measured (s : Session) (width : Option UInt64) :
    (s.measured width).index = s.index := by
  cases width <;> simp [measured, setWidth, apply_ite index]

theorem prompt_measured (s : Session) (width : Option UInt64) :
    (s.measured width).prompt = s.prompt := by
  simp [prompt, modeLetters]

end Session
end TreeConsole
