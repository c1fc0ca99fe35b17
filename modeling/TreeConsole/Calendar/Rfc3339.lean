import TreeConsole.Calendar.Instant
import TreeConsole.Text.Blank

/-!
# Reading times

Reading of the RFC 3339 form, with some freedom: blanks may stand before each number and around
the signs, a number may be shorter than usual, a signed year longer, and the date and the time are
parted by a `T`, a `t` or a space. A fraction is cut at nine digits and the second 60 is a leap
second. The result is in UTC.
-/

namespace TreeConsole.Instant

open Text

/-- Why a text is no time. -/
inductive TimeError where
  /-- The text ends too early. -/
  | tooShort
  /-- Something follows the time. -/
  | tooLong
  /-- A character that cannot stand where it does. -/
  | invalid
  /-- A number that no clock or calendar shows. -/
  | outOfRange
  /-- A time that has no written form in UTC. -/
  | impossible
  deriving DecidableEq, Repr

/-- The sentence that describes the failure. -/
def TimeError.message : TimeError → String
  | .tooShort => "premature end of input"
  | .tooLong => "trailing input"
  | .invalid => "input contains invalid characters"
  | .outOfRange => "input is out of range"
  | .impossible => "no possible date and time matching input"

/-! ### Numbers and signs -/

/-- The value of some decimal digits. -/
def digitsValue (cs : List Char) : Nat := cs.foldl (fun n c => n * 10 + (c.toNat - 48)) 0

/-- The next digits, at least one and at most so many. -/
def takeNumber (most : Option Nat) (cs : List Char) : Except TimeError (Nat × List Char) :=
  let ds := cs.takeWhile Char.isDigit
  let ds := match most with
    | some n => ds.take n
    | none => ds
  match cs, ds with
  | [], _ => .error .tooShort
  | _, [] => .error .invalid
  | _, _ => .ok (digitsValue ds, cs.drop ds.length)

/-- A number of at most two digits between two bounds, blanks before it skipped. -/
def takeField (low high : Nat) (cs : List Char) : Except TimeError (Nat × List Char) := do
  let (n, rest) ← takeNumber (some 2) (trimStart cs)
  if low ≤ n ∧ n ≤ high then .ok (n, rest) else .error .outOfRange

/-- A year: four digits at most, or a sign and any number of digits. -/
def takeYear (cs : List Char) : Except TimeError (Int × List Char) := do
  let (year, rest) ← match trimStart cs with
    | '-' :: rest => (takeNumber none rest).map fun r => (-(r.1 : Int), r.2)
    | '+' :: rest => (takeNumber none rest).map fun r => ((r.1 : Int), r.2)
    | cs => (takeNumber (some 4) cs).map fun r => ((r.1 : Int), r.2)
  if -0x80000000 ≤ year ∧ year < 0x80000000 then .ok (year, rest) else .error .outOfRange

/-- A sign between two numbers, blanks before it skipped. -/
def takeSign (sign : Char) (cs : List Char) : Except TimeError (List Char) :=
  match trimStart cs with
  | [] => .error .tooShort
  | c :: rest => if c = sign then .ok rest else .error .invalid

/-- A fraction of a second in nanoseconds, if there is one; digits after the ninth are dropped. -/
def takeFraction : List Char → Except TimeError (Nat × List Char)
  | '.' :: cs => do
    let (n, rest) ← takeNumber (some 9) cs
    .ok (n * Nat.pow 10 (9 - (cs.length - rest.length)), rest.dropWhile Char.isDigit)
  | cs => .ok (0, cs)

/-! ### Zones -/

/-- Two characters that should be digits. A lone character of several bytes is as good as two. -/
def takePair : List Char → Except TimeError ((Char × Char) × List Char)
  | [] => .error .tooShort
  | [c] => if c.utf8Size < 2 then .error .tooShort else .error .invalid
  | a :: b :: rest => .ok ((a, b), rest)

/-- The minutes of a zone, when two characters are there to be read. -/
def takeZoneMinutes (cs : List Char) : Except TimeError (Nat × List Char) :=
  match takePair cs with
  | .error .tooShort => .error .tooShort
  | .error _ => .error .invalid
  | .ok ((a, b), rest) =>
    if '0' ≤ a ∧ a ≤ '5' ∧ b.isDigit then .ok (digitsValue [a, b], rest)
    else if '6' ≤ a ∧ a ≤ '9' ∧ b.isDigit then .error .outOfRange
    else .error .invalid

/-- A zone as seconds east of UTC: `Z`, the letters `UTC`, or a sign with hours and minutes. -/
def takeZone (cs : List Char) : Except TimeError (Int × List Char) :=
  match cs with
  | 'Z' :: rest | 'z' :: rest => .ok (0, rest)
  | _ =>
    if (cs.take 3).map Char.toUpper = ['U', 'T', 'C'] then .ok (0, cs.drop 3)
    else
      match cs with
      | [] => .error .tooShort
      | sign :: cs =>
        if sign = '+' ∨ sign = '-' ∨ sign = '\u2212' then do
          let ((a, b), rest) ← takePair cs
          if a.isDigit && b.isDigit then
            -- Colons and blanks between hours and minutes are free.
            let rest := rest.dropWhile fun c => c == ':' || isBlank c
            let (minutes, rest) ← takeZoneMinutes rest
            let seconds : Int := digitsValue [a, b] * 3600 + minutes * 60
            .ok (if sign = '+' then seconds else -seconds, rest)
          else .error .invalid
        else .error .invalid

/-! ### The whole text -/

/-- What parts the date from the time. -/
def takeSeparator : List Char → Except TimeError (List Char)
  | [] => .error .tooShort
  | c :: rest => if c = 't' ∨ c = 'T' ∨ c = ' ' then .ok rest else .error .invalid

/-- The seconds of a day and a second of it, both as clocks show them. -/
def ofClock (date : Date) (hour minute second nanos : Nat) (zone : Int) :
    Except TimeError Instant :=
  if !(date.isValid && minYear ≤ date.year && date.year ≤ maxYear) then .error .outOfRange
  else if zone.natAbs ≥ daySeconds then .error .outOfRange
  else
    -- A leap second is kept as a second fraction beyond the last second of the minute.
    let leap := second = 60
    let clock := hour * 3600 + minute * 60 + if leap then 59 else second
    let seconds := date.dayNumber * daySeconds + clock - zone
    if isCovered seconds then .ok ⟨seconds, nanos + if leap then secondNanos else 0⟩
    else .error .impossible

/-- The instant a text names. -/
def parse (s : String) : Except TimeError Instant := do
  let (year, cs) ← takeYear s.toList
  let cs ← takeSign '-' cs
  let (month, cs) ← takeField 1 12 cs
  let cs ← takeSign '-' cs
  let (day, cs) ← takeField 1 31 cs
  let cs ← takeSeparator cs
  let (hour, cs) ← takeField 0 23 cs
  let cs ← takeSign ':' cs
  let (minute, cs) ← takeField 0 59 cs
  let cs ← takeSign ':' cs
  let (second, cs) ← takeField 0 60 cs
  let (nanos, cs) ← takeFraction cs
  let (zone, cs) ← takeZone (trimStart cs)
  if trimStart cs ≠ [] then .error .tooLong
  ofClock ⟨year, month, day⟩ hour minute second nanos zone

end TreeConsole.Instant
