import Mathlib.Data.List.TakeWhile
import Mathlib.Data.Nat.Digits.Defs
import TreeConsole.Calendar.Rfc3339
import TreeConsole.Proofs.Calendar.Date

/-!
# Reading back times

A time in its RFC 3339 form is read back part by part. Numbers of a fixed number of digits are read
up to their last digit, the year up to the sign that follows it. Only a leap second in the middle of
a minute is written like the second after it, and that is what is read.

## Main definitions

* `Instant.settled` — an instant as clocks show it

## Main results

* `Instant.parse_rfc3339` — a time is read back as clocks show it
-/

namespace TreeConsole.Instant

open Text

variable {rest : List Char}

/-! ### Digits -/

theorem digitsValue_toDigits (n : Nat) : digitsValue (Nat.toDigits 10 n) = n := by
  have hfold : ∀ (cs : List Char) (m : Nat),
      cs.foldl (fun n c => n * 10 + (c.toNat - 48)) m = Nat.ofDigitChars 10 cs m := by
    intro cs
    induction cs with
    | nil => exact fun m => rfl
    | cons c cs ih =>
      intro m
      rw [List.foldl_cons, ih, Nat.ofDigitChars_cons, Nat.mul_comm m 10]
      rfl
  rw [digitsValue, hfold]
  exact Nat.ofDigitChars_toDigits (by decide) (by decide)

/-- The zeros in front of a number do not change it. -/
theorem digitsValue_digits (count n : Nat) : digitsValue (digits count n) = n := by
  have hzeros : ∀ k, (List.replicate k '0').foldl (fun n c => n * 10 + (c.toNat - 48)) 0 = 0 := by
    intro k
    induction k with
    | zero => rfl
    | succ k ih => rw [List.replicate_succ, List.foldl_cons]; exact ih
  rw [digits, digitsValue, List.foldl_append, hzeros]
  exact digitsValue_toDigits n

theorem isDigit_of_mem_digits {count n : Nat} {c : Char} (h : c ∈ digits count n) :
    c.isDigit = true := by
  rcases List.mem_append.mp h with h | h
  · rw [List.eq_of_mem_replicate h]
    decide
  · exact Nat.isDigit_of_mem_toDigits (by decide) (by decide) h

theorem digits_ne_nil (count n : Nat) : digits count n ≠ [] := fun h =>
  Nat.toDigits_ne_nil (List.append_eq_nil_iff.mp h).2

/-- A number that is not too large has as many digits as it should. -/
theorem length_digits {count n : Nat} (hcount : 0 < count) (h : n < 10 ^ count) :
    (digits count n).length = count := by
  have hlength := Nat.toDigits_length 10 n count hcount h
  rw [digits, List.length_append, List.length_replicate]
  omega

theorem isBlank_of_isDigit {c : Char} (h : c.isDigit = true) : isBlank c = false := by
  obtain ⟨hlow, hhigh⟩ := Char.isDigit_iff_toNat.mp h
  have hlow' : 48 ≤ c.toNat := hlow
  have hhigh' : c.toNat ≤ 57 := hhigh
  simp [isBlank]
  omega

theorem trimStart_cons {c : Char} (h : isBlank c = false) (cs : List Char) :
    trimStart (c :: cs) = c :: cs := by
  rw [trimStart, List.dropWhile_cons_of_neg (by rw [h]; decide)]

/-- No blank stands before a number. -/
theorem trimStart_digits (count n : Nat) (rest : List Char) :
    trimStart (digits count n ++ rest) = digits count n ++ rest := by
  obtain ⟨d, ds, hds⟩ := List.exists_cons_of_ne_nil (digits_ne_nil count n)
  have hdigit : d.isDigit = true := isDigit_of_mem_digits (hds ▸ List.mem_cons_self)
  rw [hds, List.cons_append, trimStart_cons (isBlank_of_isDigit hdigit)]

/-! ### Numbers -/

/-- A text that does not go on with a digit. -/
def EndsDigits (rest : List Char) : Prop := ∀ c ∈ rest.head?, c.isDigit = false

theorem endsDigits_cons {c : Char} (h : c.isDigit = false) (cs : List Char) :
    EndsDigits (c :: cs) := by
  rintro c' ⟨⟩
  exact h

theorem dropWhile_of_endsDigits (h : EndsDigits rest) : rest.dropWhile Char.isDigit = rest := by
  cases rest with
  | nil => rfl
  | cons c rest => rw [List.dropWhile_cons_of_neg (by rw [h c rfl]; decide)]

/-- A number is read up to what is no digit, when it does not have too many. -/
theorem takeNumber_digits (most : Option Nat) (count n : Nat)
    (hmost : ∀ m ∈ most, (digits count n).length ≤ m) (hrest : EndsDigits rest) :
    takeNumber most (digits count n ++ rest) = .ok (n, rest) := by
  have hdigits : (digits count n ++ rest).takeWhile Char.isDigit = digits count n := by
    rw [List.takeWhile_append_of_pos fun c hc => isDigit_of_mem_digits hc]
    cases rest with
    | nil => simp
    | cons c rest => simp [hrest c rfl]
  have hne : digits count n ++ rest ≠ [] := fun h =>
    digits_ne_nil count n (List.append_eq_nil_iff.mp h).1
  have htaken : takeNumber most (digits count n ++ rest) = .ok (digitsValue (digits count n),
      (digits count n ++ rest).drop (digits count n).length) := by
    cases most
    case' none => simp only [takeNumber, hdigits]
    case' some m => simp only [takeNumber, hdigits, List.take_of_length_le (hmost m rfl)]
    -- Neither the text nor what is taken of it is empty.
    all_goals
      split
      case h_1 h => exact absurd h hne
      case h_2 h _ => exact absurd h (digits_ne_nil count n)
      case h_3 => rfl
  rw [htaken, digitsValue_digits, List.drop_left]

/-- A number of a fixed width is read where at least as many digits are taken. -/
theorem takeNumber_some {count n most : Nat} (hcount : 0 < count) (h : n < 10 ^ count)
    (hmost : count ≤ most) (hrest : EndsDigits rest) :
    takeNumber (some most) (digits count n ++ rest) = .ok (n, rest) := by
  refine takeNumber_digits (some most) count n ?_ hrest
  rintro m ⟨⟩
  rwa [length_digits hcount h]

theorem takeField_digits {low high n : Nat} (hlow : low ≤ n) (hhigh : n ≤ high)
    (h : high < 100) (hrest : EndsDigits rest) :
    takeField low high (digits 2 n ++ rest) = .ok (n, rest) := by
  have hread := takeNumber_some (by decide) (by omega : n < 10 ^ 2) (Nat.le_refl 2) hrest
  simp only [takeField, trimStart_digits, hread]
  exact if_pos ⟨hlow, hhigh⟩

/-- A year of four digits has no sign. -/
theorem takeYear_digits {n : Nat} (h : n < 10 ^ 4) (hrest : EndsDigits rest) :
    takeYear (digits 4 n ++ rest) = .ok ((n : Int), rest) := by
  have hread := takeNumber_some (by decide) h (Nat.le_refl 4) hrest
  have hbounds : -0x80000000 ≤ (n : Int) ∧ (n : Int) < 0x80000000 := by omega
  -- The first digit is no sign.
  obtain ⟨d, ds, hds⟩ := List.exists_cons_of_ne_nil (digits_ne_nil 4 n)
  have hdigit : d.isDigit = true := isDigit_of_mem_digits (hds ▸ List.mem_cons_self)
  rw [takeYear, trimStart_digits]
  split
  case h_1 heq | h_2 heq =>
    rw [hds] at heq
    cases heq
    exact absurd hdigit (by decide)
  case h_3 => simp only [hread, Except.map, bind, Except.bind, if_pos hbounds]

/-- A year is read up to the sign behind it. -/
theorem takeYear_yearChars {y : Int} (hlow : -0x80000000 ≤ y) (hhigh : y < 0x80000000)
    (rest : List Char) : takeYear (yearChars y ++ '-' :: rest) = .ok (y, '-' :: rest) := by
  have hbounds : -0x80000000 ≤ y ∧ y < 0x80000000 := ⟨hlow, hhigh⟩
  have hends : EndsDigits ('-' :: rest) := endsDigits_cons (by decide) rest
  have hsigned := takeNumber_digits none 4 y.natAbs (by rintro m ⟨⟩) hends
  unfold yearChars
  split
  case isTrue hshort =>
    rw [takeYear_digits (by omega) hends, Int.toNat_of_nonneg hshort.1]
  case isFalse =>
    by_cases hneg : y < 0
    · have hvalue : -(y.natAbs : Int) = y := by omega
      rw [if_pos hneg, List.cons_append, takeYear, trimStart_cons (by decide)]
      simp only [hsigned, Except.map, hvalue]
      exact if_pos hbounds
    · have hvalue : (y.natAbs : Int) = y := by omega
      rw [if_neg hneg, List.cons_append, takeYear, trimStart_cons (by decide)]
      simp only [hsigned, Except.map, hvalue]
      exact if_pos hbounds

theorem takeSign_cons {sign : Char} (h : isBlank sign = false) (rest : List Char) :
    takeSign sign (sign :: rest) = .ok rest := by
  simp [takeSign, trimStart_cons h]

/-- Digits behind a point are read as nanoseconds. -/
theorem takeFraction_point {count n : Nat} (hcount : 0 < count ∧ count ≤ 9) (h : n < 10 ^ count)
    (hrest : EndsDigits rest) :
    takeFraction ('.' :: (digits count n ++ rest)) = .ok (n * Nat.pow 10 (9 - count), rest) := by
  have hlength : (digits count n ++ rest).length - rest.length = count := by
    rw [List.length_append, length_digits hcount.1 h]
    omega
  rw [takeFraction, takeNumber_some hcount.1 h hcount.2 hrest]
  change Except.ok (n * Nat.pow 10 (9 - ((digits count n ++ rest).length - rest.length)),
    rest.dropWhile Char.isDigit) = _
  rw [hlength, dropWhile_of_endsDigits hrest]

/-- A fraction is read up to the zone. -/
theorem takeFraction_fractionChars {nanos : Nat} (h : nanos < secondNanos)
    (hrest : EndsDigits rest) (hpoint : ∀ cs, rest ≠ '.' :: cs) :
    takeFraction (fractionChars nanos ++ rest) = .ok (nanos, rest) := by
  unfold secondNanos at h
  unfold fractionChars
  split
  case isTrue hzero =>
    subst hzero
    rw [List.nil_append]
    unfold takeFraction
    split
    case h_1 => exact absurd rfl (hpoint _)
    case h_2 => rfl
  split
  case isTrue hmillis =>
    rw [List.cons_append, takeFraction_point (by decide) (by omega) hrest]
    exact congrArg Except.ok (Prod.ext (Nat.div_mul_cancel (Nat.dvd_of_mod_eq_zero hmillis)) rfl)
  split
  case isTrue hmicros =>
    rw [List.cons_append, takeFraction_point (by decide) (by omega) hrest]
    exact congrArg Except.ok (Prod.ext (Nat.div_mul_cancel (Nat.dvd_of_mod_eq_zero hmicros)) rfl)
  · rw [List.cons_append, takeFraction_point (by decide) (by omega) hrest]
    exact congrArg Except.ok (Prod.ext (Nat.mul_one nanos) rfl)

/-! ### Times -/

/-- An instant as clocks show it: a leap second that does not end a minute is the second after. -/
def settled (t : Instant) : Instant :=
  if secondNanos ≤ t.nanos ∧ t.seconds % 60 ≠ 59 then ⟨t.seconds + 1, t.nanos - secondNanos⟩ else t

/-- The instants that have a written form. -/
def IsWritable (t : Instant) : Prop := isCovered t.seconds ∧ t.nanos < 2 * secondNanos

instance (t : Instant) : Decidable t.IsWritable := inferInstanceAs (Decidable (_ ∧ _))

/-- The hour, the minute and the second of a day. -/
theorem exists_clock (seconds : Int) :
    ∃ hour minute second : Nat, (hour ≤ 23 ∧ minute ≤ 59 ∧ second ≤ 59) ∧
      ((seconds % daySeconds).toNat / 3600 = hour ∧
        (seconds % daySeconds).toNat / 60 % 60 = minute ∧
          (seconds % daySeconds).toNat % 60 = second) ∧
        seconds % 60 = second ∧
          seconds / daySeconds * daySeconds + (hour * 3600 + minute * 60 + second : Nat) =
            seconds := by
  unfold daySeconds
  exact ⟨_, _, _, by omega, ⟨rfl, rfl, rfl⟩, by omega, by omega⟩

/-- A second that does not end a minute falls on the day of the second after. -/
theorem isCovered_succ {seconds : Int} (h : isCovered seconds) (hminute : seconds % 60 ≠ 59) :
    isCovered (seconds + 1) := by
  have hday : (seconds + 1) / daySeconds = seconds / daySeconds := by
    unfold daySeconds
    omega
  unfold isCovered at h ⊢
  rwa [hday]

/-- A time of a covered day gives the instant of its seconds. -/
theorem ofClock_of_isCovered {day seconds : Int} {hour minute second : Nat} (nanos : Nat)
    (hday : minYear ≤ (Date.ofDayNumber day).year ∧ (Date.ofDayNumber day).year ≤ maxYear)
    (hseconds : day * daySeconds +
      (hour * 3600 + minute * 60 + if second = 60 then 59 else second : Nat) = seconds)
    (hcovered : isCovered seconds) :
    ofClock (Date.ofDayNumber day) hour minute second nanos 0 =
      .ok ⟨seconds, nanos + if second = 60 then secondNanos else 0⟩ := by
  have hdate : (!((Date.ofDayNumber day).isValid && minYear ≤ (Date.ofDayNumber day).year &&
      (Date.ofDayNumber day).year ≤ maxYear)) = false := by
    simp [Date.isValid_ofDayNumber, hday]
  have hzone : ¬ (0 : Int).natAbs ≥ daySeconds := by decide
  simp only [ofClock, hdate, Date.dayNumber_ofDayNumber, hzone, Int.sub_zero, hseconds, hcovered,
    Bool.false_eq_true, if_true, if_false]

/-- A time of the calendar and the clock gives the instant that clocks show. -/
theorem ofClock_parts {t : Instant} (h : t.IsWritable) :
    ofClock (Date.ofDayNumber (t.seconds / daySeconds)) ((t.seconds % daySeconds).toNat / 3600)
      ((t.seconds % daySeconds).toNat / 60 % 60)
      ((t.seconds % daySeconds).toNat % 60 + if secondNanos ≤ t.nanos then 1 else 0)
      (t.nanos % secondNanos) 0 = .ok t.settled := by
  obtain ⟨hcovered, hnanos⟩ := h
  obtain ⟨hour, minute, second, hbounds, ⟨hh, hm, hs⟩, hend, hsum⟩ := exists_clock t.seconds
  have hyear := hcovered
  simp only [isCovered, Bool.and_eq_true, decide_eq_true_eq] at hyear
  rw [hh, hm, hs]
  unfold settled
  by_cases hleap : secondNanos ≤ t.nanos
  · rw [if_pos hleap]
    by_cases hlast : second = 59
    · -- The leap second at the end of a minute is shown as its sixtieth.
      have hshown : second + 1 = 60 := by omega
      have hkept : ¬ (secondNanos ≤ t.nanos ∧ t.seconds % 60 ≠ 59) := fun h => h.2 (by omega)
      have hnanos' : t.nanos % secondNanos + secondNanos = t.nanos := by
        unfold secondNanos at hleap hnanos ⊢
        omega
      rw [if_neg hkept, ofClock_of_isCovered _ hyear (by rw [if_pos hshown, ← hlast]; exact hsum)
        hcovered, if_pos hshown, hnanos']
    · -- Anywhere else it is shown as the second after.
      have hshown : ¬ second + 1 = 60 := by omega
      have hmoved : secondNanos ≤ t.nanos ∧ t.seconds % 60 ≠ 59 := ⟨hleap, by omega⟩
      have hnanos' : t.nanos % secondNanos = t.nanos - secondNanos := by
        unfold secondNanos at hleap hnanos ⊢
        omega
      rw [if_pos hmoved, ofClock_of_isCovered _ hyear (by rw [if_neg hshown]; omega)
        (isCovered_succ hcovered hmoved.2), if_neg hshown, hnanos',
        Nat.add_zero]
  · have hshown : ¬ second + 0 = 60 := by omega
    rw [if_neg hleap, if_neg (fun h => hleap h.1), ofClock_of_isCovered _ hyear
      (by rw [if_neg hshown]; exact hsum) hcovered, if_neg hshown,
      Nat.mod_eq_of_lt (Nat.lt_of_not_le hleap), Nat.add_zero]

theorem endsDigits_fractionChars (nanos : Nat) (hrest : EndsDigits rest) :
    EndsDigits (fractionChars nanos ++ rest) := by
  unfold fractionChars
  split
  · exact hrest
  split
  · exact endsDigits_cons (by decide) _
  split <;> exact endsDigits_cons (by decide) _

/-- A date and a time of the clock are read part by part. -/
theorem parse_parts {date : Date} {hour minute second nanos : Nat}
    (hyear : minYear ≤ date.year ∧ date.year ≤ maxYear) (hdate : date.isValid)
    (hhour : hour ≤ 23) (hminute : minute ≤ 59) (hsecond : second ≤ 60)
    (hnanos : nanos < secondNanos) :
    parse (String.ofList
      (yearChars date.year ++ '-' :: digits 2 date.month ++ '-' :: digits 2 date.day ++
        'T' :: (digits 2 hour ++ ':' :: digits 2 minute ++ ':' :: digits 2 second) ++
          fractionChars nanos ++ ['Z'])) = ofClock date hour minute second nanos 0 := by
  simp only [Date.isValid, Bool.and_eq_true, decide_eq_true_eq] at hdate
  obtain ⟨⟨⟨hmonthLow, hmonthHigh⟩, hdayLow⟩, hdayHigh⟩ := hdate
  have hdayMost := Nat.le_trans hdayHigh (Date.daysInMonth_le date.year date.month)
  have hend : EndsDigits (fractionChars nanos ++ ['Z']) :=
    endsDigits_fractionChars nanos (endsDigits_cons (by decide) [])
  -- What each number is followed by is no digit.
  have hreadYear := fun rest => takeYear_yearChars (y := date.year)
    (Int.le_trans (by decide) hyear.1) (Int.lt_of_le_of_lt hyear.2 (by decide)) rest
  have hreadMonth := fun rest => takeField_digits hmonthLow hmonthHigh (by decide)
    (endsDigits_cons (c := '-') (by decide) rest)
  have hreadDay := fun rest => takeField_digits hdayLow hdayMost (by decide)
    (endsDigits_cons (c := 'T') (by decide) rest)
  have hreadHour := fun rest => takeField_digits (Nat.zero_le hour) hhour (by decide)
    (endsDigits_cons (c := ':') (by decide) rest)
  have hreadMinute := fun rest => takeField_digits (Nat.zero_le minute) hminute (by decide)
    (endsDigits_cons (c := ':') (by decide) rest)
  have hreadSecond := takeField_digits (Nat.zero_le second) hsecond (by decide) hend
  have hreadFraction := takeFraction_fractionChars hnanos
    (endsDigits_cons (c := 'Z') (by decide) []) (by rintro cs ⟨⟩)
  have hdash := takeSign_cons (by decide : isBlank '-' = false)
  have hcolon := takeSign_cons (by decide : isBlank ':' = false)
  have hseparator : ∀ rest, takeSeparator ('T' :: rest) = .ok rest := fun rest => rfl
  have hzone : takeZone (trimStart ['Z']) = .ok (0, []) := rfl
  have htrim : trimStart [] = [] := rfl
  simp only [parse, String.toList_ofList, List.append_assoc, List.cons_append, hreadYear,
    hreadMonth, hreadDay, hreadHour, hreadMinute, hreadSecond, hreadFraction, hdash, hcolon,
    hseparator, hzone, htrim, bind, Except.bind]
  rfl

/-- A time is read back as clocks show it. -/
theorem parse_rfc3339 {t : Instant} (h : t.IsWritable) : parse t.rfc3339 = .ok t.settled := by
  obtain ⟨hour, minute, second, hbounds, ⟨hh, hm, hs⟩, -, -⟩ := exists_clock t.seconds
  have hcovered := h.1
  simp only [isCovered, Bool.and_eq_true, decide_eq_true_eq] at hcovered
  have hsecond : second + (if secondNanos ≤ t.nanos then 1 else 0) ≤ 60 := by
    split <;> omega
  have hread := parse_parts hcovered (Date.isValid_ofDayNumber (t.seconds / daySeconds))
    hbounds.1 hbounds.2.1 hsecond (Nat.mod_lt t.nanos (by decide))
  rw [← hh, ← hm, ← hs, ofClock_parts h] at hread
  rw [← hread]
  simp only [rfc3339, rfc3339With, clockChars, decide_eq_true_eq]

end TreeConsole.Instant
