import TreeConsole.Calendar.Date

/-!
# Instants

A point in time as whole seconds from the start of 1970 and a fraction of a second, and its two
written forms: the sentence form of a node's metadata and the RFC 3339 form of the logs. A fraction
of a second or more stands for the leap second that follows the whole seconds.

Only years that the calendar of the program covers have a written form.
-/

namespace TreeConsole

/-- A point in time. -/
structure Instant where
  seconds : Int
  nanos : Nat
  deriving DecidableEq, Repr, Inhabited

namespace Instant

/-- The seconds of a day. -/
def daySeconds : Nat := 86400

/-- The nanoseconds of a second. -/
def secondNanos : Nat := 1000000000

/-- The first year with a written form. -/
def minYear : Int := -262143

/-- The last year with a written form. -/
def maxYear : Int := 262142

/-- Whether a number of seconds falls in a year with a written form. -/
def isCovered (seconds : Int) : Bool :=
  let year := (Date.ofDayNumber (seconds / daySeconds)).year
  minYear ≤ year && year ≤ maxYear

/-- The instant of a number of milliseconds. -/
def ofMillis (millis : Int) : Instant := ⟨millis / 1000, (millis % 1000).toNat * 1000000⟩

/-- The digits of a number, at least so many. -/
def digits (count n : Nat) : List Char :=
  let ds := Nat.toDigits 10 n
  List.replicate (count - ds.length) '0' ++ ds

/-- A year: four digits, or a sign and at least four digits outside the years 0 to 9999. -/
def yearChars (y : Int) : List Char :=
  if 0 ≤ y ∧ y ≤ 9999 then digits 4 y.toNat
  else (if y < 0 then '-' else '+') :: digits 4 y.natAbs

/-- The short name of a day of the week. -/
def weekdayName (n : Nat) : String :=
  ["Sun", "Mon", "Tue", "Wed", "Thu", "Fri", "Sat"].getD n ""

/-- The short name of a month. -/
def monthName (m : Nat) : String :=
  ["Jan", "Feb", "Mar", "Apr", "May", "Jun", "Jul", "Aug", "Sep", "Oct", "Nov", "Dec"].getD
    (m - 1) ""

/-- Hours, minutes and seconds with colons between them; `leap` shows the second after the last. -/
def clockChars (secondOfDay : Nat) (leap : Bool) : List Char :=
  digits 2 (secondOfDay / 3600) ++ ':' :: digits 2 (secondOfDay / 60 % 60) ++
    ':' :: digits 2 (secondOfDay % 60 + if leap then 1 else 0)

/-- The sentence form of a whole second, such as `Thu Jan 01 00:00:00 UTC 1970`. -/
def sentence (seconds : Int) : List Char :=
  let day := seconds / daySeconds
  let date := Date.ofDayNumber day
  (weekdayName (Date.weekday day)).toList ++ ' ' :: (monthName date.month).toList ++
    ' ' :: digits 2 date.day ++ ' ' :: clockChars (seconds % daySeconds).toNat false ++
    [' ', 'U', 'T', 'C', ' '] ++ yearChars date.year

/-- A time in milliseconds as it is shown: a sentence, or the number itself when its year has no
written form. -/
def showMillis (millis : Int) : String :=
  let seconds := millis / 1000
  if isCovered seconds then String.ofList (sentence seconds) else toString millis

/-- The fraction of a second with three, six or nine digits, as few as it needs. -/
def fractionChars (nanos : Nat) : List Char :=
  if nanos = 0 then []
  else if nanos % 1000000 = 0 then '.' :: digits 3 (nanos / 1000000)
  else if nanos % 1000 = 0 then '.' :: digits 6 (nanos / 1000)
  else '.' :: digits 9 nanos

/-- The RFC 3339 form of an instant in UTC, with some way of writing that it is. -/
def rfc3339With (zone : List Char) (t : Instant) : String :=
  let date := Date.ofDayNumber (t.seconds / daySeconds)
  let leap := secondNanos ≤ t.nanos
  String.ofList <|
    yearChars date.year ++ '-' :: digits 2 date.month ++ '-' :: digits 2 date.day ++
      'T' :: clockChars (t.seconds % daySeconds).toNat leap ++
      fractionChars (t.nanos % secondNanos) ++ zone

/-- The RFC 3339 form of an instant in UTC, with a letter for the zone. -/
def rfc3339 (t : Instant) : String := t.rfc3339With ['Z']

/-- The RFC 3339 form of an instant in UTC, with the zone as an offset. -/
def rfc3339Offset (t : Instant) : String := t.rfc3339With ['+', '0', '0', ':', '0', '0']

end Instant
end TreeConsole
