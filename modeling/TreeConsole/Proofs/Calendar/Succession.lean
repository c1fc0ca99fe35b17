import Mathlib.Data.Int.Init
import Mathlib.Order.Monotone.Basic
import TreeConsole.Proofs.Calendar.Date

/-!
# One day after another

The calendar is counted: the day after a day is the next one of its month, or the first one of the
next month, or the first one of the next year, and the days of the week go round. Starting from
1 January 1970, a Thursday, that says of every day in either direction what date it has and what day
of the week it is, and the formulas give just these.

## Main definitions

* `Date.next` — the day after
* `Date.FallsOn` — the date and the day of the week of the day with some number, by counting

## Main results

* `Date.ofDayNumber_dayNumber` — a day of the calendar is found by its number
* `Date.fallsOn_iff` — the formulas find what is counted
* `Date.le_year_iff` — a year begins with its first of January
-/

namespace TreeConsole.Date

variable {d : Date} {n : Int} {w : Nat}

/-- The day after. -/
def next (d : Date) : Date :=
  if d.day < daysInMonth d.year d.month then ⟨d.year, d.month, d.day + 1⟩
  else if d.month < 12 then ⟨d.year, d.month + 1, 1⟩
  else ⟨d.year + 1, 1, 1⟩

/-- The date and the day of the week of the day with some number. One day is given, and the others
are counted from it, onwards or back. -/
inductive FallsOn : Int → Date → Nat → Prop
  | epoch : FallsOn 0 ⟨1970, 1, 1⟩ 4
  | onwards {n : Int} {d : Date} {w : Nat} (h : FallsOn n d w) :
    FallsOn (n + 1) d.next ((w + 1) % 7)
  | back {n : Int} {d : Date} {w : Nat} (valid : d.isValid) (week : w < 7)
    (h : FallsOn (n + 1) d.next ((w + 1) % 7)) : FallsOn n d w

theorem isValid_iff : d.isValid ↔
    (1 ≤ d.month ∧ d.month ≤ 12) ∧ 1 ≤ d.day ∧ d.day ≤ daysInMonth d.year d.month := by
  simp only [isValid, Bool.and_eq_true, decide_eq_true_eq, and_assoc]

theorem isValid_next (h : d.isValid) : d.next.isValid := by
  obtain ⟨⟨hmonth, hmonth'⟩, -, -⟩ := isValid_iff.mp h
  unfold next
  rw [isValid_iff]
  split
  case isTrue hday => exact ⟨⟨hmonth, hmonth'⟩, Nat.le_add_left 1 d.day, hday⟩
  split
  case isTrue hlast =>
    exact ⟨⟨Nat.le_add_left 1 d.month, hlast⟩, Nat.le_refl 1, one_le_daysInMonth _ _⟩
  case isFalse =>
    exact ⟨⟨Nat.le_refl 1, Nat.le_add_left 1 11⟩, Nat.le_refl 1, one_le_daysInMonth _ _⟩

/-! ### The number of the day after -/

section Months

variable (y : Int)

theorem dayNumber_eq_add (m k : Nat) :
    (⟨y, m, k⟩ : Date).dayNumber = (⟨y, m, 1⟩ : Date).dayNumber + k - 1 := by
  simp only [dayNumber]
  omega

/-- A leap day puts off what comes after February, and the formula has a new year begin there. -/
theorem dayNumber_march :
    (⟨y, 3, 1⟩ : Date).dayNumber = (⟨y, 2, 1⟩ : Date).dayNumber + daysInMonth y 2 := by
  have hmarch : (⟨y, 3, 1⟩ : Date).dayNumber =
      y / 400 * 146097 + daysBeforeYear (y % 400).toNat - 719468 := by
    simp [dayNumber, daysBeforeMonth, cycleDays, epochOffset]
  have hfebruary : (⟨y, 2, 1⟩ : Date).dayNumber =
      (y - 1) / 400 * 146097 + daysBeforeYear ((y - 1) % 400).toNat + 337 - 719468 := by
    simp [dayNumber, daysBeforeMonth, cycleDays, epochOffset]
  rw [hmarch, hfebruary, daysInMonth, if_pos rfl]
  unfold daysBeforeYear
  by_cases hleap : isLeapYear y
  · rw [if_pos hleap]
    simp only [isLeapYear, Bool.or_eq_true, Bool.and_eq_true, beq_iff_eq, bne_iff_ne] at hleap
    omega
  · rw [if_neg hleap]
    simp only [isLeapYear, Bool.or_eq_true, Bool.and_eq_true, beq_iff_eq, bne_iff_ne] at hleap
    omega

/-- A month is over when all its days are. -/
theorem dayNumber_month {m : Nat} (h : 1 ≤ m) (h' : m < 12) :
    (⟨y, m + 1, 1⟩ : Date).dayNumber = (⟨y, m, 1⟩ : Date).dayNumber + daysInMonth y m := by
  by_cases hfebruary : m = 2
  · rw [hfebruary]
    exact dayNumber_march y
  -- The two months are in the same year that begins in March.
  have hyear : (if m + 1 ≤ 2 then y - 1 else y) = if m ≤ 2 then y - 1 else y := by
    split <;> split <;> omega
  have hdays : ∀ k < 12, 1 ≤ k → k ≠ 2 → daysBeforeMonth ((k + 1 + 9) % 12) =
      daysBeforeMonth ((k + 9) % 12) + daysInMonth 1 k := by
    decide
  have hlonger := hdays m h' h hfebruary
  rw [daysInMonth_of_ne y 1 hfebruary]
  simp only [dayNumber, hyear]
  omega

/-- A year is over when its December is. -/
theorem dayNumber_year :
    (⟨y + 1, 1, 1⟩ : Date).dayNumber = (⟨y, 12, 1⟩ : Date).dayNumber + daysInMonth y 12 := by
  have hyear : y + 1 - 1 = y := Int.add_sub_cancel y 1
  have hdays : daysBeforeMonth 10 = daysBeforeMonth 9 + 31 := rfl
  rw [daysInMonth_of_ne y 1 (by decide)]
  simp [dayNumber, hyear, hdays, daysInMonth]
  omega

end Months

/-- The number of the day after is the next one. -/
theorem dayNumber_next (h : d.isValid) : d.next.dayNumber = d.dayNumber + 1 := by
  obtain ⟨y, m, k⟩ := d
  obtain ⟨⟨hmonth, hmonth'⟩, -, hday⟩ := isValid_iff.mp h
  dsimp only at hmonth hmonth' hday
  unfold next
  dsimp only
  split
  case isTrue hmore =>
    rw [dayNumber_eq_add y m (k + 1), dayNumber_eq_add y m k]
    omega
  case isFalse hmore =>
    have hlast : k = daysInMonth y m := Nat.le_antisymm hday (Nat.le_of_not_lt hmore)
    rw [dayNumber_eq_add y m k]
    split
    case isTrue hnext =>
      rw [dayNumber_month y hmonth hnext]
      omega
    case isFalse hnext =>
      obtain rfl : m = 12 := Nat.le_antisymm hmonth' (Nat.le_of_not_lt hnext)
      rw [dayNumber_year]
      omega

/-! ### Numbers and days -/

/-- A day of a year that begins in March is found by the days before it. -/
theorem ofDayNumber_ofYearDay (cycle : Int) {y k : Nat} (hy : y < 400) (hk : k < yearLength y) :
    ofDayNumber (cycle * cycleDays + daysBeforeYear y + k - epochOffset) = ofYearDay cycle y k := by
  have hend := daysBeforeYear_add_le y hy
  have hsum : cycle * cycleDays + daysBeforeYear y + k - epochOffset + epochOffset =
      (daysBeforeYear y + k : Nat) + cycle * cycleDays := by
    omega
  have hcycle : (cycleDays : Int) ≠ 0 := by decide
  have hquotient :
      ((daysBeforeYear y + k : Nat) + cycle * cycleDays) / (cycleDays : Int) = cycle := by
    rw [Int.add_mul_ediv_right _ _ hcycle, Int.ediv_eq_zero_of_lt (by omega) (by omega),
      Int.zero_add]
  have hremainder : (((daysBeforeYear y + k : Nat) + cycle * cycleDays) % (cycleDays : Int)).toNat =
      daysBeforeYear y + k := by
    rw [Int.add_mul_emod_self_right, Int.emod_eq_of_lt (by omega) (by omega), Int.toNat_natCast]
  have hyear := yearOfCycle_eq (n := daysBeforeYear y + k) hy (by omega) (by omega)
  simp only [ofDayNumber, hsum, hquotient, hremainder, hyear, Nat.add_sub_cancel_left]
  rfl

theorem daysInMonth_le_leap (y : Int) (m : Nat) : daysInMonth y m ≤ daysInMonth 0 m := by
  unfold daysInMonth
  split
  · split <;> decide
  · exact Nat.le_refl _

theorem monthOfYear_daysBeforeMonth : ∀ m < 12, ∀ k < 31, k < daysInMonth 0 (monthFromMarch m) →
    monthOfYear (daysBeforeMonth m + k) = m := by
  decide +kernel

/-- All months but February end before the shortest year does. -/
theorem daysBeforeMonth_add_le : ∀ m < 12, monthFromMarch m ≠ 2 →
    daysBeforeMonth m + daysInMonth 0 (monthFromMarch m) ≤ 365 := by
  decide

/-- The year of a day that is counted from March is long enough for the day. -/
theorem lt_yearLength {cycle : Int} {y m k : Nat} (hm : m < 12)
    (hk : k < daysInMonth (cycle * 400 + (y + 1)) (monthFromMarch m)) :
    daysBeforeMonth m + k < yearLength y := by
  rw [daysInMonth_congr (isLeapYear_add_cycle cycle (y + 1))] at hk
  -- February comes last, so that only its days reach beyond the shortest year.
  by_cases hfebruary : monthFromMarch m = 2
  · obtain rfl : m = 11 := by
      unfold monthFromMarch at hfebruary
      split at hfebruary <;> omega
    have hbefore : daysBeforeMonth 11 = 337 := rfl
    rw [hfebruary, daysInMonth, if_pos rfl] at hk
    unfold yearLength
    split at hk <;> split <;> omega
  · have hless := Nat.lt_of_lt_of_le hk (daysInMonth_le_leap _ _)
    have hend := daysBeforeMonth_add_le m hm hfebruary
    unfold yearLength
    split <;> omega

/-- Every day of the calendar is a day of a year that begins in March. -/
theorem exists_eq_ofYearDay (h : d.isValid) :
    ∃ (cycle : Int) (y k : Nat), y < 400 ∧ k < yearLength y ∧ d = ofYearDay cycle y k := by
  obtain ⟨year, month, day⟩ := d
  obtain ⟨⟨hmonth, hmonth'⟩, hday, hday'⟩ := isValid_iff.mp h
  dsimp only at hmonth hmonth' hday hday'
  obtain ⟨m, hm, rfl⟩ : ∃ m < 12, month = monthFromMarch m := by
    refine ⟨(month + 9) % 12, Nat.mod_lt _ (by decide), ?_⟩
    unfold monthFromMarch
    split <;> omega
  obtain ⟨k, rfl⟩ : ∃ k, day = k + 1 := ⟨day - 1, (Nat.sub_add_cancel hday).symm⟩
  -- January and February are at the end of the year that began in the March before.
  obtain ⟨cycle, y, hy, hyear⟩ : ∃ (cycle : Int) (y : Nat), y < 400 ∧
      year = cycle * 400 + y + if monthFromMarch m ≤ 2 then 1 else 0 := by
    by_cases hearly : monthFromMarch m ≤ 2
    · rw [if_pos hearly]
      exact ⟨(year - 1) / 400, ((year - 1) % 400).toNat, by omega, by omega⟩
    · rw [if_neg hearly]
      exact ⟨year / 400, (year % 400).toNat, by omega, by omega⟩
  have hk : k < daysInMonth (cycle * 400 + (y + 1)) (monthFromMarch m) := by
    by_cases hfebruary : monthFromMarch m = 2
    · rwa [hyear, if_pos (Nat.le_of_eq hfebruary), Int.add_assoc] at hday'
    · rwa [daysInMonth_of_ne _ year hfebruary]
  have hfound : monthOfYear (daysBeforeMonth m + k) = m :=
    monthOfYear_daysBeforeMonth m hm k (Nat.lt_of_lt_of_le hk (daysInMonth_le _ _))
      (Nat.lt_of_lt_of_le hk (daysInMonth_le_leap _ _))
  refine ⟨cycle, y, daysBeforeMonth m + k, hy, lt_yearLength hm hk, ?_⟩
  rw [ofYearDay, hfound, Nat.add_sub_cancel_left, hyear]

/-- A day of the calendar is found by its number. -/
theorem ofDayNumber_dayNumber (h : d.isValid) : ofDayNumber d.dayNumber = d := by
  obtain ⟨cycle, y, k, hy, hk, rfl⟩ := exists_eq_ofYearDay h
  rw [dayNumber_ofYearDay cycle hy (Nat.lt_of_lt_of_le hk (yearLength_le y)),
    ofDayNumber_ofYearDay cycle hy hk]

theorem ofDayNumber_succ (n : Int) : ofDayNumber (n + 1) = (ofDayNumber n).next := by
  have hvalid := isValid_ofDayNumber n
  rw [← ofDayNumber_dayNumber (isValid_next hvalid), dayNumber_next hvalid, dayNumber_ofDayNumber]

theorem weekday_succ (n : Int) : weekday (n + 1) = (weekday n + 1) % 7 := by
  unfold weekday
  omega

theorem weekday_lt (n : Int) : weekday n < 7 := by
  unfold weekday
  omega

/-- The formulas find what is counted. -/
theorem fallsOn_iff : FallsOn n d w ↔ ofDayNumber n = d ∧ weekday n = w := by
  constructor
  · intro h
    induction h with
    | epoch => exact ⟨by decide +kernel, rfl⟩
    | @onwards n d w h ih =>
      obtain ⟨rfl, rfl⟩ := ih
      exact ⟨ofDayNumber_succ n, weekday_succ n⟩
    | @back n d w hvalid hweek h ih =>
      -- The day before is the one whose number comes before.
      have hnumber : d.dayNumber = n := by
        have hnext := dayNumber_next hvalid
        rw [← ih.1, dayNumber_ofDayNumber] at hnext
        omega
      refine ⟨by rw [← hnumber, ofDayNumber_dayNumber hvalid], ?_⟩
      have hnext := ih.2
      rw [weekday_succ] at hnext
      have hlt := weekday_lt n
      omega
  · rintro ⟨rfl, rfl⟩
    induction n using Int.induction_on with
    | zero => exact FallsOn.epoch
    | succ n ih =>
      rw [ofDayNumber_succ, weekday_succ]
      exact FallsOn.onwards ih
    | pred n ih =>
      refine FallsOn.back (isValid_ofDayNumber _) (weekday_lt _) ?_
      rwa [← ofDayNumber_succ, ← weekday_succ, Int.sub_add_cancel]

/-! ### Years -/

theorem year_le_year_next (d : Date) : d.year ≤ d.next.year := by
  unfold next
  split
  · exact Int.le_refl d.year
  split
  · exact Int.le_refl d.year
  · exact Int.le_of_lt (Int.lt_succ d.year)

/-- A year begins with its first of January. -/
theorem le_year_iff (y n : Int) : y ≤ (ofDayNumber n).year ↔ (⟨y, 1, 1⟩ : Date).dayNumber ≤ n := by
  have hmono : Monotone fun n => (ofDayNumber n).year := by
    refine monotone_int_of_le_succ fun n => ?_
    rw [ofDayNumber_succ]
    exact year_le_year_next _
  have hfirst : (⟨y, 1, 1⟩ : Date).isValid := by
    simp [isValid, one_le_daysInMonth]
  have hlast : (⟨y - 1, 12, 31⟩ : Date).isValid := by
    simp [isValid, daysInMonth]
  constructor
  · -- Before the first of January there is the last day of the year before.
    intro h
    by_contra hbefore
    have hnext : (⟨y - 1, 12, 31⟩ : Date).next = ⟨y, 1, 1⟩ := by
      simp [next, daysInMonth]
    have hnumber := dayNumber_next hlast
    rw [hnext] at hnumber
    have hyear := hmono (show n ≤ (⟨y - 1, 12, 31⟩ : Date).dayNumber by omega)
    simp only [ofDayNumber_dayNumber hlast] at hyear
    omega
  · intro h
    have hyear := hmono h
    simp only [ofDayNumber_dayNumber hfirst] at hyear
    exact hyear

end TreeConsole.Date
