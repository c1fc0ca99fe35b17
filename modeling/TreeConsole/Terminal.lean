import TreeConsole.Text.Utf8

/-!
# Terminals

A source of lines and a place to write to, shared by everything that talks to the user. What a read
will deliver is laid out in advance: some readings, and after them one that comes back for ever. The
output may have room for a limited number of bytes; a write that does not fit fails, and the part of
it that fits is written all the same. What was written has still to be written out, which may fail
at any time. A terminal may say how wide it is, and need not say the same each time. Everything read
and written is kept in the order in which it happened.

Main statements: `write_of_fits`, `output_write` and `length_incoming_read_le`; `writeOut_of_isOpen`
for terminals that take whatever is written.
-/

namespace TreeConsole

/-- What a read delivers. -/
inductive Reading where
  /-- A line, with its line feed if it has one. -/
  | line (bytes : Bytes) (nonempty : bytes ≠ [])
  /-- The user broke off the read. -/
  | interrupted
  /-- There is no more input. -/
  | endOfInput
  /-- The read failed. -/
  | failed (reason : String)
  deriving DecidableEq, Repr

/-- What every read delivers once all lines are used up. -/
inductive Ending where
  | endOfInput
  | failed (reason : String)
  deriving DecidableEq, Repr, Inhabited

/-- What happened on a terminal. -/
inductive Event where
  | wrote (bytes : Bytes)
  | read (reading : Reading)
  deriving DecidableEq, Repr

/-- The bytes that something that happened left on the output. -/
def Event.output : Event → Bytes
  | .wrote bytes => bytes
  | .read _ => []

/-- A terminal. -/
structure Terminal where
  /-- What the next reads deliver. -/
  incoming : List Reading
  /-- What the reads after those deliver. -/
  ending : Ending
  /-- How many bytes can still be written; none means any number. -/
  room : Option Nat
  /-- What has happened so far. -/
  transcript : List Event
  /-- Whether it can be written out what was written, the next times that is tried. -/
  flushes : Nat → Bool := fun _ => true
  /-- How wide it says it is, the next times it is asked. -/
  widths : Nat → Option UInt64 := fun _ => none

namespace Reading

/-- The reading of some bytes; no bytes are an end of input. -/
def ofBytes (bytes : Bytes) : Reading := if h : bytes = [] then .endOfInput else .line bytes h

/-- The readings of some bytes, line by line. -/
def ofInput (bytes : Bytes) : List Reading := (Utf8.lines bytes).map ofBytes

/-- The bytes of a reading. -/
def bytes : Reading → Bytes
  | line bytes _ => bytes
  | _ => []

end Reading

/-- An ending as a reading. -/
def Ending.reading : Ending → Reading
  | .endOfInput => .endOfInput
  | .failed reason => .failed reason

namespace Terminal

/-- A terminal that delivers some readings, then ends, and takes whatever is written. -/
def ofReadings (incoming : List Reading) : Terminal :=
  { incoming, ending := .endOfInput, room := none, transcript := [] }

instance : Inhabited Terminal := ⟨ofReadings []⟩

/-- A terminal with some bytes to be read. -/
def ofInput (bytes : Bytes) : Terminal := ofReadings (Reading.ofInput bytes)

/-- The text of a failed write. -/
def closedText : String := "output closed"

/-- Reads once. -/
def read (t : Terminal) : Reading × Terminal :=
  match t.incoming with
  | [] => (t.ending.reading, { t with transcript := t.transcript ++ [.read t.ending.reading] })
  | r :: rest => (r, { t with incoming := rest, transcript := t.transcript ++ [.read r] })

/-- Reads once onto the end of a text, and says how many bytes were read or what broke the read
off. Bytes that are no text are replaced, and the end of the input is no bytes. -/
def readOnto (t : Terminal) (text : String) : Except Reading Nat × String × Terminal :=
  match t.read with
  | (.line bytes _, t) => (.ok bytes.length, text ++ Utf8.toText bytes, t)
  | (.endOfInput, t) => (.ok 0, text, t)
  | (.interrupted, t) => (.error .interrupted, text, t)
  | (.failed reason, t) => (.error (.failed reason), text, t)

/-- Whether so many bytes can be written. -/
def fits (t : Terminal) (size : Nat) : Bool := t.room.all fun room => size ≤ room

/-- The part of some bytes that can be written. -/
def fitting (t : Terminal) (bytes : Bytes) : Bytes :=
  match t.room with
  | none => bytes
  | some room => bytes.take room

/-- Writes some bytes, and says whether all of them were written. -/
def writeBytes (t : Terminal) (bytes : Bytes) : Bool × Terminal :=
  (t.fits bytes.length,
    { t with
      room := t.room.map (· - bytes.length)
      transcript := t.transcript ++ [.wrote (t.fitting bytes)] })

/-- Writes a text. -/
def write (t : Terminal) (text : String) : Bool × Terminal := t.writeBytes (Utf8.ofText text)

/-- Writes a text and ends the line. -/
def writeLine (t : Terminal) (text : String) : Bool × Terminal := t.write (text ++ "\n")

/-- Writes out what was written so far, and says whether that went well. -/
def flush (t : Terminal) : Bool × Terminal :=
  (t.flushes 0, { t with flushes := fun n => t.flushes (n + 1) })

/-- Writes a text and has it written out. -/
def writeOut (t : Terminal) (text : String) : Bool × Terminal :=
  let r := t.write text
  if r.1 then r.2.flush else r

/-- Asks how wide the terminal is. -/
def measure (t : Terminal) : Option UInt64 × Terminal :=
  (t.widths 0, { t with widths := fun n => t.widths (n + 1) })

/-- A terminal that takes whatever is written, and from which nothing that was written is lost. -/
structure IsOpen (t : Terminal) : Prop where
  room : t.room = none
  flushes : ∀ n, t.flushes n = true

/-- What has been written so far. -/
def output (t : Terminal) : Bytes := t.transcript.flatMap Event.output

/-- What is left of the input, line after line. -/
def unread (t : Terminal) : Bytes := t.incoming.flatMap Reading.bytes

theorem read_of_incoming {t : Terminal} {r : Reading} {rest : List Reading}
    (h : t.incoming = r :: rest) :
    t.read = (r, { t with incoming := rest, transcript := t.transcript ++ [.read r] }) := by
  simp [read, h]

theorem length_incoming_read_le (t : Terminal) :
    t.read.2.incoming.length ≤ t.incoming.length := by
  unfold read
  split <;> simp_all

@[simp] theorem incoming_writeBytes (t : Terminal) (bytes : Bytes) :
    (t.writeBytes bytes).2.incoming = t.incoming := rfl

@[simp] theorem incoming_write (t : Terminal) (text : String) :
    (t.write text).2.incoming = t.incoming := rfl

@[simp] theorem incoming_writeOut (t : Terminal) (text : String) :
    (t.writeOut text).2.incoming = t.incoming := by
  simp only [writeOut]
  split <;> rfl

/-- Nothing is written out of what could not be written. -/
theorem writeOut_of_unwritten {t : Terminal} {text : String} (h : (t.write text).1 = false) :
    t.writeOut text = t.write text := by
  simp [writeOut, h]

theorem output_write (t : Terminal) (text : String) :
    (t.write text).2.output = t.output ++ t.fitting (Utf8.ofText text) := by
  simp [output, write, writeBytes, Event.output]

@[simp] theorem output_read (t : Terminal) : t.read.2.output = t.output := by
  unfold read
  split <;> simp [output, Event.output]

/-- What fits is written as it is. -/
theorem write_of_fits {t : Terminal} {text : String}
    (h : t.fits (Utf8.ofText text).length = true) :
    (t.write text).1 = true ∧ (t.write text).2.output = t.output ++ Utf8.ofText text := by
  refine ⟨h, ?_⟩
  rw [output_write]
  congr 1
  cases hroom : t.room with
  | none => simp [fitting, hroom]
  | some room =>
    simp only [fits, hroom, Option.all_some, decide_eq_true_eq] at h
    simp [fitting, hroom, List.take_of_length_le h]

namespace IsOpen

variable {t : Terminal}

theorem write (h : t.IsOpen) (text : String) : (t.write text).2.IsOpen where
  room := by simp [Terminal.write, writeBytes, h.room]
  flushes := h.flushes

theorem read (h : t.IsOpen) : t.read.2.IsOpen := by
  unfold Terminal.read
  split <;> exact ⟨h.room, h.flushes⟩

theorem measure (h : t.IsOpen) : t.measure.2.IsOpen := ⟨h.room, h.flushes⟩

end IsOpen

theorem write_of_isOpen {t : Terminal} (h : t.IsOpen) (text : String) :
    (t.write text).1 = true := by
  simp [write, writeBytes, fits, h.room]

/-- Where all can be written out, it is the same terminal afterwards. -/
theorem flush_of_flushes {t : Terminal} (h : ∀ n, t.flushes n = true) : t.flush = (true, t) := by
  have hrest : (fun n => t.flushes (n + 1)) = t.flushes :=
    funext fun n => (h (n + 1)).trans (h n).symm
  rw [flush, hrest, h]

theorem writeOut_of_isOpen {t : Terminal} (h : t.IsOpen) (text : String) :
    t.writeOut text = (true, (t.write text).2) := by
  rw [writeOut, write_of_isOpen h]
  exact flush_of_flushes (h.write text).flushes

/-- A terminal that never says how wide it is stays as it is when it is asked. -/
theorem measure_of_widthless {t : Terminal} (h : ∀ n, t.widths n = none) :
    t.measure = (none, t) := by
  have hrest : (fun n => t.widths (n + 1)) = t.widths :=
    funext fun n => (h (n + 1)).trans (h n).symm
  rw [measure, hrest, h]

end Terminal
end TreeConsole
