import Std.Data.String.ToInt
import TreeConsole.Proofs.Calendar.Rfc3339
import TreeConsole.Proofs.Calendar.Succession

/-!
# What the sentence of a time names

The sentence form of a time names a day of the calendar with its weekday, and a second of that day.
All of that can be read off the sentence, since each part but the last has a fixed width. So two
times in one second have one sentence, and two times in different seconds have different ones.

## Main definitions

* `Instant.Parts` — what a sentence names
* `Instant.Parts.IsAt` — the second that is named

## Main results

* `Instant.Parts.text_injective` — a sentence is read in one way only
* `Instant.exists_parts` — the sentence of a second names that second
* `Instant.isCovered_iff` — which seconds have a sentence
-/

namespace TreeConsole.Instant

variable {s s' : Int}

/-! ### The parts of a sentence -/

/-- What a sentence names. -/
structure Parts where
  date : Date
  /-- The day of the week, from Sunday. -/
  weekday : Nat
  hour : Nat
  minute : Nat
  second : Nat
  valid : date.isValid
  year : minYear ≤ date.year ∧ date.year ≤ maxYear
  week : weekday < 7
  clock : hour ≤ 23 ∧ minute ≤ 59 ∧ second ≤ 59

/-- The second that is named: one of a day of the calendar, with its weekday. -/
def Parts.IsAt (p : Parts) (seconds : Int) : Prop :=
  ∃ day, Date.FallsOn day p.date p.weekday ∧
    seconds = day * 86400 + (p.hour * 3600 + p.minute * 60 + p.second : Nat)

/-- The sentence. -/
def Parts.text (p : Parts) : List Char :=
  (weekdayName p.weekday).toList ++ ' ' :: ((monthName p.date.month).toList ++ ' ' ::
    (digits 2 p.date.day ++ ' ' :: (digits 2 p.hour ++ ':' :: (digits 2 p.minute ++ ':' ::
      (digits 2 p.second ++ ' ' :: 'U' :: 'T' :: 'C' :: ' ' :: yearChars p.date.year)))))

theorem length_weekdayName : ∀ w < 7, (weekdayName w).toList.length = 3 := by
  decide

theorem weekdayName_inj :
    ∀ w < 7, ∀ w' < 7, (weekdayName w).toList = (weekdayName w').toList → w = w' := by
  decide

theorem length_monthName : ∀ m < 13, 1 ≤ m → (monthName m).toList.length = 3 := by
  decide

theorem monthName_inj : ∀ m < 13, 1 ≤ m → ∀ m' < 13, 1 ≤ m' →
    (monthName m).toList = (monthName m').toList → m = m' := by
  decide

theorem digits_injective (count : Nat) : Function.Injective (digits count) := by
  intro m n h
  rw [← digitsValue_digits count m, h, digitsValue_digits]

/-- A year that is read back from its characters is known by them. -/
theorem yearChars_inj {y y' : Int} (hy : minYear ≤ y ∧ y ≤ maxYear)
    (hy' : minYear ≤ y' ∧ y' ≤ maxYear) (h : yearChars y = yearChars y') : y = y' := by
  unfold minYear maxYear at hy hy'
  have hread := takeYear_yearChars (y := y) (by omega) (by omega) []
  rw [h, takeYear_yearChars (by omega) (by omega)] at hread
  exact (Prod.mk.inj (Except.ok.inj hread)).1.symm

/-- A part of a known width ends where the next one begins. -/
theorem part_inj {part part' rest rest' : List Char} {c : Char}
    (hlength : part.length = part'.length) (h : part ++ c :: rest = part' ++ c :: rest') :
    part = part' ∧ rest = rest' := by
  obtain ⟨hpart, hrest⟩ := List.append_inj h hlength
  exact ⟨hpart, (List.cons.inj hrest).2⟩

/-- A sentence is read in one way only. -/
theorem Parts.text_injective : Function.Injective Parts.text := by
  rintro ⟨⟨year, month, day⟩, w, hour, minute, second, hvalid, hyear, hw, hclock⟩
    ⟨⟨year', month', day'⟩, w', hour', minute', second', hvalid', hyear', hw', hclock'⟩ h
  obtain ⟨⟨hm, hm12⟩, hd, hdlast⟩ := Date.isValid_iff.mp hvalid
  obtain ⟨⟨hm', hm12'⟩, hd', hdlast'⟩ := Date.isValid_iff.mp hvalid'
  dsimp only at hm hm12 hd hdlast hm' hm12' hd' hdlast' hyear hyear'
  have hday := Nat.le_trans hdlast (Date.daysInMonth_le year month)
  have hday' := Nat.le_trans hdlast' (Date.daysInMonth_le year' month')
  have htwo {m n : Nat} (hm : m < 100) (hn : n < 100) :
      (digits 2 m).length = (digits 2 n).length := by
    rw [length_digits (by decide) hm, length_digits (by decide) hn]
  -- Each part ends where its width has it end, and leaves the parts behind it.
  simp only [Parts.text] at h
  obtain ⟨hweekday, hfromMonth⟩ := part_inj (by
    rw [length_weekdayName w hw, length_weekdayName w' hw']) h
  obtain ⟨hmonth, hfromDay⟩ := part_inj (by
    rw [length_monthName month (by omega) hm, length_monthName month' (by omega) hm']) hfromMonth
  obtain ⟨hdays, hfromHour⟩ := part_inj (htwo (by omega) (by omega)) hfromDay
  obtain ⟨hhours, hfromMinute⟩ := part_inj (htwo (by omega) (by omega)) hfromHour
  obtain ⟨hminutes, hfromSecond⟩ := part_inj (htwo (by omega) (by omega)) hfromMinute
  obtain ⟨hseconds, hfromZone⟩ := part_inj (htwo (by omega) (by omega)) hfromSecond
  simp only [List.cons.injEq, true_and] at hfromZone
  obtain rfl := weekdayName_inj w hw w' hw' hweekday
  obtain rfl := monthName_inj month (by omega) hm month' (by omega) hm' hmonth
  obtain rfl := digits_injective 2 hdays
  obtain rfl := digits_injective 2 hhours
  obtain rfl := digits_injective 2 hminutes
  obtain rfl := digits_injective 2 hseconds
  obtain rfl := yearChars_inj hyear hyear' hfromZone
  rfl

/-- One second only is named. -/
theorem Parts.IsAt.eq {p : Parts} (h : p.IsAt s) (h' : p.IsAt s') : s = s' := by
  obtain ⟨day, hday, rfl⟩ := h
  obtain ⟨day', hday', rfl⟩ := h'
  have hnumber : day = day' := by
    rw [← Date.dayNumber_ofDayNumber day, (Date.fallsOn_iff.mp hday).1,
      ← (Date.fallsOn_iff.mp hday').1, Date.dayNumber_ofDayNumber]
  rw [hnumber]

/-! ### The sentence of a second -/

/-- The sentence of a second names that second. -/
theorem exists_parts (h : isCovered s) : ∃ p : Parts, p.IsAt s ∧ sentence s = p.text := by
  obtain ⟨hour, minute, second, hclock, ⟨hh, hm, hs⟩, -, hsum⟩ := exists_clock s
  simp only [isCovered, Bool.and_eq_true, decide_eq_true_eq] at h
  refine ⟨⟨Date.ofDayNumber (s / daySeconds), Date.weekday (s / daySeconds), hour, minute, second,
    Date.isValid_ofDayNumber _, h, Date.weekday_lt _, hclock⟩, ?_, ?_⟩
  · exact ⟨s / daySeconds, Date.fallsOn_iff.mpr ⟨rfl, rfl⟩, hsum.symm⟩
  · simp only [sentence, clockChars, hh, hm, hs, Parts.text, List.append_assoc, List.cons_append,
      Bool.false_eq_true, if_false, Nat.add_zero, List.nil_append]

theorem sentence_inj (h : isCovered s) (h' : isCovered s') :
    sentence s = sentence s' ↔ s = s' := by
  constructor
  · intro hsame
    obtain ⟨p, hp, htext⟩ := exists_parts h
    obtain ⟨p', hp', htext'⟩ := exists_parts h'
    obtain rfl : p = p' := Parts.text_injective (htext.symm.trans (hsame.trans htext'))
    exact hp.eq hp'
  · rintro rfl
    rfl

/-! ### Times as they are shown -/

/-- The seconds that have a sentence are those from the first second of the first year to the last
second of the last. -/
theorem isCovered_iff : isCovered s ↔ -8334601228800 ≤ s ∧ s < 8210266876800 := by
  have hfirst : (⟨minYear, 1, 1⟩ : Date).dayNumber = -96465292 := by decide
  have hafter : (⟨maxYear + 1, 1, 1⟩ : Date).dayNumber = 95026237 := by decide
  have hlow := Date.le_year_iff minYear (s / daySeconds)
  have hhigh := Date.le_year_iff (maxYear + 1) (s / daySeconds)
  rw [hfirst] at hlow
  rw [hafter] at hhigh
  simp only [isCovered, Bool.and_eq_true, decide_eq_true_eq, hlow]
  unfold daySeconds at hhigh ⊢
  omega

theorem isDigit_of_mem_repr {n : Nat} {c : Char} (h : c ∈ n.repr.toList) : c.isDigit = true := by
  rw [Nat.toList_repr] at h
  exact Nat.isDigit_of_mem_toDigits (by decide) (by decide) h

/-- A number is written in digits, with a sign when it is negative. -/
theorem mem_toString {n : Int} {c : Char} (h : c ∈ (toString n).toList) :
    c = '-' ∨ c.isDigit = true := by
  cases n with
  | ofNat n => exact Or.inr (isDigit_of_mem_repr h)
  | negSucc n =>
    rcases List.mem_append.mp (String.toList_append ▸ h) with hsign | hdigits
    · exact Or.inl (List.mem_singleton.mp hsign)
    · exact Or.inr (isDigit_of_mem_repr hdigits)

/-- A sentence begins with a letter, so that it is no number. -/
theorem Parts.text_ne_toString (p : Parts) (n : Int) : String.ofList p.text ≠ toString n := by
  intro h
  have hletter : ∀ w < 7, ((weekdayName w).toList.any fun c => c != '-' && !c.isDigit) = true := by
    decide
  obtain ⟨c, hc, hno⟩ := List.any_eq_true.mp (hletter p.weekday p.week)
  simp only [Bool.and_eq_true, bne_iff_ne, Bool.not_eq_true'] at hno
  have hmem : c ∈ (toString n).toList := by
    rw [← h, String.toList_ofList, Parts.text]
    exact List.mem_append_left _ hc
  rcases mem_toString hmem with hsign | hdigit
  · exact hno.1 hsign
  · exact absurd hdigit (Bool.eq_false_iff.mp hno.2)

/-- A time is shown by the number itself or by the sentence of its second, and no number is shown
like a second. -/
theorem showMillis_eq_iff (m m' : Int) : showMillis m = showMillis m' ↔
    (isCovered (m / 1000) ∧ isCovered (m' / 1000) ∧ m / 1000 = m' / 1000) ∨ m = m' := by
  constructor
  · intro h
    by_cases hm : isCovered (m / 1000) <;> by_cases hm' : isCovered (m' / 1000)
    · rw [showMillis, if_pos hm, showMillis, if_pos hm'] at h
      exact Or.inl ⟨hm, hm', (sentence_inj hm hm').mp (String.ofList_injective h)⟩
    · obtain ⟨p, -, htext⟩ := exists_parts hm
      rw [showMillis, if_pos hm, showMillis, if_neg hm', htext] at h
      exact absurd h (p.text_ne_toString m')
    · obtain ⟨p, -, htext⟩ := exists_parts hm'
      rw [showMillis, if_neg hm, showMillis, if_pos hm', htext] at h
      exact absurd h.symm (p.text_ne_toString m)
    · rw [showMillis, if_neg hm, showMillis, if_neg hm'] at h
      exact Or.inr (Int.repr_injective h)
  · rintro (⟨hm, hm', hsame⟩ | rfl)
    · rw [showMillis, if_pos hm, showMillis, if_pos hm', hsame]
    · rfl

end TreeConsole.Instant
