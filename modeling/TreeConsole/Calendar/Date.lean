/-!
# Calendar dates

The Gregorian calendar, continued in both directions, and the count of days from 1 January 1970. The
conversions work in cycles of 400 years and in years that begin in March, so that the leap day is
the last day of a year.

Main statements: `daysInMonth_le` and `one_le_daysInMonth` bound the days of a month.
-/

namespace TreeConsole

/-- A day of the calendar. -/
structure Date where
  year : Int
  month : Nat
  day : Nat
  deriving DecidableEq, Repr, Inhabited

namespace Date

/-- Whether a year has a leap day. -/
def isLeapYear (y : Int) : Bool := (y % 4 == 0 && y % 100 != 0) || y % 400 == 0

/-- The number of days of a month. -/
def daysInMonth (y : Int) (m : Nat) : Nat :=
  if m = 2 then (if isLeapYear y then 29 else 28)
  else if m = 4 ∨ m = 6 ∨ m = 9 ∨ m = 11 then 30
  else 31

/-- Whether the calendar has the day. -/
def isValid (d : Date) : Bool :=
  1 ≤ d.month && d.month ≤ 12 && 1 ≤ d.day && d.day ≤ daysInMonth d.year d.month

/-- The days of 400 years. -/
def cycleDays : Nat := 146097

/-- The days before a year of a cycle; years begin in March. -/
def daysBeforeYear (y : Nat) : Nat := 365 * y + y / 4 - y / 100

/-- The days of a year before one of its months, counted from March. -/
def daysBeforeMonth (m : Nat) : Nat := (153 * m + 2) / 5

/-- The year of a cycle on one of its days. -/
def yearOfCycle (n : Nat) : Nat := (n - n / 1460 + n / 36524 - n / 146096) / 365

/-- The month of a year on one of its days, counted from March. -/
def monthOfYear (n : Nat) : Nat := (5 * n + 2) / 153

/-- The number of days from 1 March of the year 0 to 1 January 1970. -/
def epochOffset : Int := 719468

/-- The number of days from 1 January 1970. -/
def dayNumber (d : Date) : Int :=
  -- January and February belong to the year that began in the March before.
  let y := if d.month ≤ 2 then d.year - 1 else d.year
  let m := (d.month + 9) % 12
  y / 400 * cycleDays + daysBeforeYear (y % 400).toNat + daysBeforeMonth m + d.day - 1 - epochOffset

/-- The day at some number of days from 1 January 1970. -/
def ofDayNumber (n : Int) : Date :=
  let z := n + epochOffset
  let inCycle := (z % cycleDays).toNat
  let y := yearOfCycle inCycle
  let inYear := inCycle - daysBeforeYear y
  let m := monthOfYear inYear
  let month := if m < 10 then m + 3 else m - 9
  let year := z / cycleDays * 400 + y + if month ≤ 2 then 1 else 0
  ⟨year, month, inYear - daysBeforeMonth m + 1⟩

/-- The day of the week, from Sunday. -/
def weekday (n : Int) : Nat := ((n + 4) % 7).toNat

theorem daysInMonth_le (y : Int) (m : Nat) : daysInMonth y m ≤ 31 := by
  unfold daysInMonth
  repeat' split
  all_goals decide

theorem one_le_daysInMonth (y : Int) (m : Nat) : 1 ≤ daysInMonth y m := by
  unfold daysInMonth
  repeat' split
  all_goals decide

end Date
end TreeConsole
