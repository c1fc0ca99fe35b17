import TreeConsole.Calendar.Date

/-!
# Days and their numbers

The day that is found for a number is a day of the calendar, and its number is the one it was found
for. Years are counted from March, in cycles of 400. The year of a day in its cycle is computed by a
formula that never falls when days go by, so that it is enough to look at the first and the last day
of each year.

## Main definitions

* `Date.yearLength` — how many days a year has that begins in March
* `Date.ofYearDay` — the day of a cycle, a year of it and a day of that year

## Main results

* `Date.isValid_ofDayNumber` — the calendar has the day of every number
* `Date.dayNumber_ofDayNumber` — and it has that number
-/

namespace TreeConsole.Date

/-! ### Years of a cycle -/

/-- The number of days of a year of a cycle. It ends in February, so the leap day is that of the
year after. -/
def yearLength (y : Nat) : Nat := if isLeapYear (y + 1) then 366 else 365

theorem yearLength_le (y : Nat) : yearLength y ≤ 366 := by
  unfold yearLength
  split <;> decide

/-- Later days are in later years. -/
theorem yearOfCycle_mono {m n : Nat} (h : m ≤ n) (hn : n < cycleDays) :
    yearOfCycle m ≤ yearOfCycle n := by
  refine Nat.div_le_div_right ?_
  unfold cycleDays at hn
  -- On the last day alone the last term of the formula counts.
  by_cases hlast : n = 146096
  · subst hlast
    omega
  · omega

theorem yearOfCycle_first : ∀ y < 400, yearOfCycle (daysBeforeYear y) = y := by
  decide +kernel

theorem yearOfCycle_last :
    ∀ y < 400, yearOfCycle (daysBeforeYear y + yearLength y - 1) = y := by
  decide +kernel

theorem daysBeforeYear_succ :
    ∀ y < 399, daysBeforeYear (y + 1) = daysBeforeYear y + yearLength y := by
  decide +kernel

theorem daysBeforeYear_add_le : ∀ y < 400, daysBeforeYear y + yearLength y ≤ cycleDays := by
  decide +kernel

/-- Every day of a cycle is in one of its years. -/
theorem exists_year {n : Nat} (hn : n < cycleDays) :
    ∃ y < 400, daysBeforeYear y ≤ n ∧ n < daysBeforeYear y + yearLength y := by
  induction n with
  | zero => exact ⟨0, by decide, by decide, by decide⟩
  | succ n ih =>
    obtain ⟨y, hy, hlow, hhigh⟩ := ih (Nat.lt_of_succ_lt hn)
    by_cases hsame : n + 1 < daysBeforeYear y + yearLength y
    · exact ⟨y, hy, Nat.le_succ_of_le hlow, hsame⟩
    · have hnext : n + 1 = daysBeforeYear y + yearLength y := by omega
      -- The last year of a cycle ends with the cycle.
      have hlast : y ≠ 399 := by
        rintro rfl
        have hend : daysBeforeYear 399 + yearLength 399 = cycleDays := by decide +kernel
        omega
      have hstart := daysBeforeYear_succ y (by omega)
      have hpos : 0 < yearLength (y + 1) := by
        unfold yearLength
        split <;> decide
      exact ⟨y + 1, by omega, by omega, by omega⟩

theorem yearOfCycle_eq {n y : Nat} (hy : y < 400) (hlow : daysBeforeYear y ≤ n)
    (hhigh : n < daysBeforeYear y + yearLength y) : yearOfCycle n = y := by
  have hend := daysBeforeYear_add_le y hy
  apply Nat.le_antisymm
  · calc yearOfCycle n ≤ yearOfCycle (daysBeforeYear y + yearLength y - 1) :=
          yearOfCycle_mono (by omega) (by omega)
      _ = y := yearOfCycle_last y hy
  · calc y = yearOfCycle (daysBeforeYear y) := (yearOfCycle_first y hy).symm
      _ ≤ yearOfCycle n := yearOfCycle_mono hlow (by omega)

/-! ### Days of a year -/

/-- A month of the calendar from one that is counted from March. -/
def monthFromMarch (m : Nat) : Nat := if m < 10 then m + 3 else m - 9

/-- The day of a cycle, a year of it and a day of that year, all counted from nought. -/
def ofYearDay (cycle : Int) (y n : Nat) : Date where
  year := cycle * 400 + y + if monthFromMarch (monthOfYear n) ≤ 2 then 1 else 0
  month := monthFromMarch (monthOfYear n)
  day := n - daysBeforeMonth (monthOfYear n) + 1

theorem exists_ofYearDay (n : Int) :
    ∃ (cycle : Int) (y d : Nat), y < 400 ∧ d < yearLength y ∧
      n = cycle * cycleDays + daysBeforeYear y + d - epochOffset ∧
        ofDayNumber n = ofYearDay cycle y d := by
  have hcycle : (0 : Int) < cycleDays := by decide
  have hlow := Int.emod_nonneg (n + epochOffset) (Int.ne_of_gt hcycle)
  have hhigh := Int.emod_lt_of_pos (n + epochOffset) hcycle
  have hsum := Int.mul_ediv_add_emod (n + epochOffset) cycleDays
  obtain ⟨y, hy, hfirst, hlast⟩ :=
    exists_year (n := ((n + epochOffset) % cycleDays).toNat) (by omega)
  have hyear := yearOfCycle_eq hy hfirst hlast
  refine ⟨(n + epochOffset) / cycleDays, y,
    ((n + epochOffset) % cycleDays).toNat - daysBeforeYear y, hy, by omega, ?_, ?_⟩
  · rw [Int.mul_comm]
    omega
  · simp only [ofDayNumber, ofYearDay, monthFromMarch, hyear]
    rfl

theorem month_of_day : ∀ d < 366, monthOfYear d < 12 ∧ daysBeforeMonth (monthOfYear d) ≤ d := by
  decide +kernel

/-- Every month is as long as the calendar has it; the year counts only as far as it is leap. -/
theorem day_le_of_common : ∀ d < 365,
    d - daysBeforeMonth (monthOfYear d) + 1 ≤ daysInMonth 1 (monthFromMarch (monthOfYear d)) := by
  decide +kernel

theorem day_le_of_leap : ∀ d < 366,
    d - daysBeforeMonth (monthOfYear d) + 1 ≤ daysInMonth 0 (monthFromMarch (monthOfYear d)) := by
  decide +kernel

theorem daysInMonth_congr {y y' : Int} (h : isLeapYear y = isLeapYear y') (m : Nat) :
    daysInMonth y m = daysInMonth y' m := by
  simp only [daysInMonth, h]

theorem daysInMonth_of_ne (y y' : Int) {m : Nat} (h : m ≠ 2) :
    daysInMonth y m = daysInMonth y' m := by
  simp only [daysInMonth, if_neg h]

theorem isLeapYear_add_cycle (cycle y : Int) : isLeapYear (cycle * 400 + y) = isLeapYear y := by
  have h4 : (cycle * 400 + y) % 4 = y % 4 := by omega
  have h100 : (cycle * 400 + y) % 100 = y % 100 := by omega
  have h400 : (cycle * 400 + y) % 400 = y % 400 := by omega
  simp only [isLeapYear, h4, h100, h400]

/-- A month of the year after is within it when the day is within its year. -/
theorem day_le_of_yearLength {y d : Nat} (hd : d < yearLength y) :
    d - daysBeforeMonth (monthOfYear d) + 1 ≤
      daysInMonth (y + 1) (monthFromMarch (monthOfYear d)) := by
  cases hleap : isLeapYear (y + 1) with
  | true =>
    rw [yearLength, if_pos hleap] at hd
    have hsame : isLeapYear (y + 1) = isLeapYear 0 := hleap
    rw [daysInMonth_congr hsame]
    exact day_le_of_leap d hd
  | false =>
    rw [yearLength, if_neg (by rw [hleap]; decide)] at hd
    have hsame : isLeapYear (y + 1) = isLeapYear 1 := hleap
    rw [daysInMonth_congr hsame]
    exact day_le_of_common d hd

/-- The calendar has every day of every year. -/
theorem isValid_ofYearDay (cycle : Int) {y d : Nat} (hd : d < yearLength y) :
    (ofYearDay cycle y d).isValid := by
  obtain ⟨hm, -⟩ := month_of_day d (Nat.lt_of_lt_of_le hd (yearLength_le y))
  have hmonth : 1 ≤ monthFromMarch (monthOfYear d) ∧ monthFromMarch (monthOfYear d) ≤ 12 := by
    unfold monthFromMarch
    split <;> omega
  have hday : d - daysBeforeMonth (monthOfYear d) + 1 ≤
      daysInMonth (ofYearDay cycle y d).year (monthFromMarch (monthOfYear d)) := by
    have hle := day_le_of_yearLength hd
    by_cases hearly : monthFromMarch (monthOfYear d) ≤ 2
    · have hyear : (ofYearDay cycle y d).year = cycle * 400 + (y + 1) := by
        rw [ofYearDay]
        dsimp only
        rw [if_pos hearly, Int.add_assoc]
      rwa [hyear, daysInMonth_congr (isLeapYear_add_cycle cycle (y + 1))]
    · rwa [daysInMonth_of_ne _ (y + 1) fun h => hearly (Nat.le_of_eq h)]
  simp only [isValid, Bool.and_eq_true, decide_eq_true_eq]
  exact ⟨⟨hmonth, Nat.le_add_left 1 _⟩, hday⟩

theorem dayNumber_ofYearDay (cycle : Int) {y d : Nat} (hy : y < 400) (hd : d < 366) :
    (ofYearDay cycle y d).dayNumber =
      cycle * cycleDays + daysBeforeYear y + d - epochOffset := by
  obtain ⟨hm, hbefore⟩ := month_of_day d hd
  have hmonth : (monthFromMarch (monthOfYear d) + 9) % 12 = monthOfYear d := by
    unfold monthFromMarch
    split <;> omega
  have hyear : (if monthFromMarch (monthOfYear d) ≤ 2 then
      (ofYearDay cycle y d).year - 1 else (ofYearDay cycle y d).year) = cycle * 400 + y := by
    rw [ofYearDay]
    dsimp only
    split <;> omega
  have hcycle : (cycle * 400 + (y : Int)) / 400 = cycle := by omega
  have hinCycle : ((cycle * 400 + (y : Int)) % 400).toNat = y := by omega
  have hparts : (ofYearDay cycle y d).dayNumber =
      cycle * cycleDays + daysBeforeYear y + daysBeforeMonth (monthOfYear d) +
        (d - daysBeforeMonth (monthOfYear d) + 1 : Nat) - 1 - epochOffset := by
    rw [dayNumber]
    simp only [show (ofYearDay cycle y d).month = monthFromMarch (monthOfYear d) from rfl, hyear,
      hmonth, hcycle, hinCycle]
    rfl
  rw [hparts]
  omega

/-! ### Numbers -/

/-- The calendar has the day of every number. -/
theorem isValid_ofDayNumber (n : Int) : (ofDayNumber n).isValid := by
  obtain ⟨cycle, y, d, -, hd, -, hdate⟩ := exists_ofYearDay n
  rw [hdate]
  exact isValid_ofYearDay cycle hd

/-- The day of a number has that number. -/
theorem dayNumber_ofDayNumber (n : Int) : (ofDayNumber n).dayNumber = n := by
  obtain ⟨cycle, y, d, hy, hd, hn, hdate⟩ := exists_ofYearDay n
  rw [hdate, dayNumber_ofYearDay cycle hy (Nat.lt_of_lt_of_le hd (yearLength_le y)), hn]

end TreeConsole.Date
