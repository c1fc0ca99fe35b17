import TreeConsole.Proofs.Calendar.Rfc3339
import TreeConsole.Proofs.Json.Tokens

/-!
# The strings and numbers of JSON

Which texts stand for which strings and numbers, written down without the reader. A character of a
string stands as it is or as an escape, where a character beyond the first plane takes two numbers.
A number has a sign, digits without a needless zero in front, and perhaps a fraction and an
exponent.

What a text stands for is read off it, whatever follows, as long as that does not go on with a
number; and what is read off the front of a text is what the front stands for.

## Main definitions

* `Json.BodyText` — the texts of the characters of a string
* `Json.NumeralText` — the texts of a number in its parts
* `Json.IsNumber`, `Json.IsInteger` — the texts of all numbers, and those of the integers of 64 bits

## Main results

* `Json.BodyText.read`, `Json.exists_bodyText` — strings are read as they are written
* `Json.IsNumber.read`, `Json.exists_isNumber` — and so are numbers
* `Json.stringText_stringChars`, `Json.IsInteger.isNumber` — the written forms are among the texts
-/

namespace TreeConsole.Json

open Instant (digitsValue EndsDigits endsDigits_cons)

variable {part body cs ds rest fraction exponent : List Char} {c : Char} {n : Nat}

/-! ### Strings -/

/-- What is written for a character of a string. -/
inductive CharText : List Char → Char → Prop
  | plain {c : Char} (shown : 0x20 ≤ c.toNat) (quote : c ≠ '"') (slash : c ≠ '\\') : CharText [c] c
  | short {letter c : Char} (means : unescape? letter = some c) : CharText ['\\', letter] c
  | code {a b c d : Char} {n : Nat} (number : hexValue4? a b c d = some n)
    (high : isHighSurrogate n = false) (low : isLowSurrogate n = false) :
    CharText ['\\', 'u', a, b, c, d] (Char.ofNat n)
  | pair {a b c d e f g h : Char} {n m : Nat} (first : hexValue4? a b c d = some n)
    (second : hexValue4? e f g h = some m) (high : isHighSurrogate n = true)
    (low : isLowSurrogate m = true) :
    CharText ['\\', 'u', a, b, c, d, '\\', 'u', e, f, g, h] (ofSurrogates n m)

/-- What is written between the quotes of a string. -/
inductive BodyText : List Char → List Char → Prop
  | nil : BodyText [] []
  | cons {part body : List Char} {c : Char} {cs : List Char} (first : CharText part c)
    (rest : BodyText body cs) : BodyText (part ++ body) (c :: cs)

/-- What is written for a string. -/
inductive StringText : List Char → String → Prop
  | mk {body cs : List Char} (h : BodyText body cs) :
    StringText ('"' :: body ++ ['"']) (String.ofList cs)

/-- A character is read off its text, whatever follows. -/
theorem CharText.read (h : CharText part c) (rest : List Char) :
    readString (part ++ rest) = (readString rest).map fun r => (c :: r.1, r.2) := by
  cases h with
  | plain shown quote slash =>
    have hread := readString.eq_5 c rest quote (fun _ _ _ _ _ h _ => slash h)
      fun _ _ h _ => slash h
    have hshown : ¬ ((decide (c.toNat < 0x20) || decide (c = '\\')) = true) := by
      simp [slash]
      omega
    rw [List.singleton_append, hread, if_neg hshown]
  | @short letter c means =>
    -- The letter is not the one behind which a number stands.
    have hletter : letter ≠ 'u' := by
      rintro rfl
      cases means
    have hread := readString.eq_4 letter rest fun _ _ _ _ _ hu _ => hletter hu
    rw [List.cons_append, List.singleton_append, hread, means]
  | code number high low =>
    simp only [List.cons_append, List.nil_append]
    rw [readString, number]
    simp [high, low]
  | pair first second high low =>
    simp only [List.cons_append, List.nil_append]
    rw [readString, first]
    simp only [high, if_true]
    rw [second]
    simp only [low, if_true]

theorem BodyText.read (h : BodyText body cs) (rest : List Char) :
    readString (body ++ '"' :: rest) = some (cs, rest) := by
  induction h with
  | nil => simp [readString]
  | cons first _ ih =>
    rw [List.append_assoc, first.read, ih]
    rfl

/-- One more character in front of what is read. -/
theorem exists_bodyText_of_map (first : CharText part c)
    (ih : ∀ ds, readString cs = some (ds, rest) →
      ∃ body, BodyText body ds ∧ cs = body ++ '"' :: rest)
    (h : (readString cs).map (fun r => (c :: r.1, r.2)) = some (ds, rest)) :
    ∃ body, BodyText body ds ∧ part ++ cs = body ++ '"' :: rest := by
  obtain ⟨⟨ds', rest'⟩, hread, hsame⟩ := Option.map_eq_some_iff.mp h
  obtain ⟨rfl, rfl⟩ := Prod.mk.inj hsame
  obtain ⟨body, hbody, rfl⟩ := ih ds' hread
  exact ⟨part ++ body, .cons first hbody, (List.append_assoc part body _).symm⟩

/-- What is read up to a quote is what the text in front of the quote stands for. -/
theorem exists_bodyText (h : readString cs = some (ds, rest)) :
    ∃ body, BodyText body ds ∧ cs = body ++ '"' :: rest := by
  fun_induction readString cs generalizing ds
  case case2 =>
    cases h
    exact ⟨[], .nil, rfl⟩
  case case5 a b c d n hfirst hhigh e f g h' rest m hsecond hlow ih =>
    exact exists_bodyText_of_map (.pair hfirst hsecond hhigh hlow) (fun ds => ih) h
  case case9 hnumber hhigh hlow ih =>
    exact exists_bodyText_of_map
      (.code hnumber (Bool.eq_false_iff.mpr hhigh) (Bool.eq_false_iff.mpr hlow)) (fun ds => ih) h
  case case11 hmeans ih => exact exists_bodyText_of_map (.short hmeans) (fun ds => ih) h
  case case13 hquote _ _ hplain ih =>
    rw [Bool.or_eq_true, decide_eq_true_eq, decide_eq_true_eq, not_or] at hplain
    exact exists_bodyText_of_map (.plain (Nat.le_of_not_lt hplain.1) hquote hplain.2)
      (fun ds => ih) h
  -- In all other cases nothing is read.
  all_goals cases h

/-- What is written for a character stands for it, and so does what is written for a string. -/
theorem charText_escapeChar (c : Char) : CharText (escapeChar c) c := by
  rcases escapeChar_cases c with
    ⟨letter, hchars, hmeans⟩ | ⟨hchars, hcontrol⟩ | ⟨hchars, hquote, hslash, hplain⟩
  · rw [hchars]
    exact .short hmeans
  · -- The number of a control is far below the surrogates.
    have hcode := CharText.code (hexValue4?_hex4 c.toNat hcontrol)
      (by simp [isHighSurrogate]; omega) (by simp [isLowSurrogate]; omega)
    rw [Char.ofNat_toNat] at hcode
    rwa [hchars, hex4]
  · rw [hchars]
    exact .plain hplain hquote hslash

theorem stringText_stringChars (s : String) : StringText (stringChars s) s := by
  have hbody : ∀ cs : List Char, BodyText (cs.flatMap escapeChar) cs := by
    intro cs
    induction cs with
    | nil => exact .nil
    | cons c cs ih => exact .cons (charText_escapeChar c) ih
  have htext := StringText.mk (hbody s.toList)
  rwa [String.ofList_toList] at htext

/-! ### Numbers -/

/-- Some digits, at least one. -/
def AreDigits (ds : List Char) : Prop := ds ≠ [] ∧ ∀ c ∈ ds, c.isDigit = true

/-- What is written for a fraction, if there is one. -/
inductive FractionText : List Char → Option (List Char) → Prop
  | absent : FractionText [] none
  | present {ds : List Char} (digits : AreDigits ds) : FractionText ('.' :: ds) (some ds)

/-- What is written for an exponent, if there is one. -/
inductive ExponentText : List Char → Option Int → Prop
  | absent : ExponentText [] none
  | bare {e : Char} {ds : List Char} (letter : e = 'e' ∨ e = 'E') (digits : AreDigits ds) :
    ExponentText (e :: ds) (some (digitsValue ds))
  | plus {e : Char} {ds : List Char} (letter : e = 'e' ∨ e = 'E') (digits : AreDigits ds) :
    ExponentText (e :: '+' :: ds) (some (digitsValue ds))
  | minus {e : Char} {ds : List Char} (letter : e = 'e' ∨ e = 'E') (digits : AreDigits ds) :
    ExponentText (e :: '-' :: ds) (some (-(digitsValue ds : Int)))

/-- What is written for a number. Only a zero that is the one digit before the point may come
first. -/
inductive NumeralText : List Char → Numeral → Prop
  | mk {negative : Bool} {whole fractionChars exponentChars : List Char}
    {fraction : Option (List Char)} {exponent : Option Int} (digits : AreDigits whole)
    (first : whole.head? = some '0' → whole.length = 1)
    (hfraction : FractionText fractionChars fraction)
    (hexponent : ExponentText exponentChars exponent) :
    NumeralText ((if negative then ['-'] else []) ++ whole ++ fractionChars ++ exponentChars)
      ⟨negative, whole, fraction, exponent⟩

/-- The texts of all numbers, but for those that are too large. -/
def IsNumber (cs : List Char) (n : JsonNumber) : Prop :=
  ∃ numeral, NumeralText cs numeral ∧ numeral.value? = some n

/-- The texts of the integers of 64 bits, signed or unsigned. -/
def IsInteger (cs : List Char) (n : JsonNumber) : Prop :=
  ∃ i, IsWord i ∧ cs = intChars i ∧ n = .int i

/-- A text that does not go on with a number. -/
def EndsNumber (rest : List Char) : Prop :=
  ∀ c ∈ rest.head?, c.isDigit = false ∧ c ≠ '.' ∧ c ≠ 'e' ∧ c ≠ 'E'

theorem endsNumber_cons {c : Char} {rest : List Char}
    (h : c.isDigit = false ∧ c ≠ '.' ∧ c ≠ 'e' ∧ c ≠ 'E') : EndsNumber (c :: rest) := by
  intro c' hc'
  cases hc'
  exact h

/-- What ends a number is neither a point nor an exponent. -/
theorem EndsNumber.ne_point {rest : List Char} (h : EndsNumber rest) (cs : List Char) :
    rest ≠ '.' :: cs := by
  rintro rfl
  exact (h '.' rfl).2.1 rfl

theorem EndsNumber.ne_exponent {rest : List Char} (h : EndsNumber rest) (cs : List Char) :
    rest ≠ 'e' :: cs ∧ rest ≠ 'E' :: cs := by
  constructor
  · rintro rfl
    exact (h 'e' rfl).2.2.1 rfl
  · rintro rfl
    exact (h 'E' rfl).2.2.2 rfl

theorem EndsNumber.endsDigits (h : EndsNumber rest) : EndsDigits rest := fun c hc => (h c hc).1

/-- Digits are taken up to what is no digit. -/
theorem AreDigits.takeWhile (h : AreDigits ds) (hrest : EndsDigits rest) :
    (ds ++ rest).takeWhile Char.isDigit = ds ∧ (ds ++ rest).dropWhile Char.isDigit = rest := by
  rw [List.takeWhile_append_of_pos h.2, List.dropWhile_append_of_pos h.2]
  cases rest with
  | nil => simp
  | cons c rest => simp [hrest c rfl]

theorem AreDigits.ne_sign (h : AreDigits ds) (hc : c.isDigit = false) (rest more : List Char) :
    ds ++ rest ≠ c :: more := by
  obtain ⟨d, ds', rfl⟩ := List.exists_cons_of_ne_nil h.1
  intro hsame
  obtain rfl : d = c := (List.cons.inj hsame).1
  rw [h.2 d List.mem_cons_self] at hc
  cases hc

theorem areDigits_takeWhile (h : cs.takeWhile Char.isDigit ≠ []) :
    AreDigits (cs.takeWhile Char.isDigit) := ⟨h, fun _ => List.mem_takeWhile_imp⟩

/-- The part of a number behind its digits, up to the exponent. -/
def readFraction (cs : List Char) : Option (Option (List Char) × List Char) :=
  match cs with
  | '.' :: rest =>
    if rest.takeWhile Char.isDigit = [] then none
    else some (some (rest.takeWhile Char.isDigit), rest.dropWhile Char.isDigit)
  | _ => some (none, cs)

/-- The part of a number from its exponent on. -/
def readPower (cs : List Char) : Option (Option Int × List Char) :=
  match cs with
  | 'e' :: rest | 'E' :: rest => (readExponent rest).map fun r => (some r.1, r.2)
  | _ => some (none, cs)

/-- A number behind its sign. -/
def readUnsigned (negative : Bool) (cs : List Char) : Option (Numeral × List Char) :=
  let whole := cs.takeWhile Char.isDigit
  if whole = [] || (whole.head? == some '0' && 1 < whole.length) then none
  else
    (readFraction (cs.dropWhile Char.isDigit)).bind fun f =>
      (readPower f.2).map fun e => (⟨negative, whole, f.1, e.1⟩, e.2)

/-- A number is read part by part. -/
theorem readNumeral_eq (cs : List Char) :
    readNumeral cs =
      match cs with
      | '-' :: rest => readUnsigned true rest
      | _ => readUnsigned false cs := by
  -- The reader goes on to the exponent with the number half built, the parts build it afterwards.
  have hpower (negative : Bool) (whole : List Char) (f : Option (List Char) × List Char) :
      (match f.2 with
        | 'e' :: rest | 'E' :: rest => (readExponent rest).map fun r =>
          ((⟨negative, whole, f.1, some r.1⟩, r.2) : Numeral × List Char)
        | _ => some (⟨negative, whole, f.1, none⟩, f.2)) =
      (readPower f.2).map fun e => (⟨negative, whole, f.1, e.1⟩, e.2) := by
    unfold readPower
    split <;> simp [Option.map_map, Function.comp_def]
  split
  · rw [readNumeral.eq_1, readUnsigned]
    simp only [← hpower]
    rfl
  · next h =>
    rw [readNumeral.eq_2 _ (fun rest hsame => h rest hsame), readUnsigned]
    simp only [← hpower]
    rfl

/-! ### Numbers as they are written -/

/-- A fraction is read where neither a digit nor a second point follows. -/
theorem FractionText.read {f : Option (List Char)} (h : FractionText fraction f)
    (hdigit : EndsDigits rest) (hpoint : ∀ cs, rest ≠ '.' :: cs) :
    readFraction (fraction ++ rest) = some (f, rest) := by
  cases h with
  | absent =>
    rw [List.nil_append, readFraction]
    exact fun cs hsame => hpoint cs hsame
  | present digits =>
    obtain ⟨htake, hdrop⟩ := digits.takeWhile hdigit
    rw [List.cons_append, readFraction, htake, hdrop, if_neg digits.1]

theorem exists_fractionText {f : Option (List Char)} (h : readFraction cs = some (f, rest)) :
    ∃ fraction, FractionText fraction f ∧ cs = fraction ++ rest := by
  unfold readFraction at h
  split at h
  · next more =>
    split at h
    · cases h
    · next hdigits =>
      cases h
      exact ⟨'.' :: more.takeWhile Char.isDigit, .present (areDigits_takeWhile hdigits),
        congrArg (List.cons '.') List.takeWhile_append_dropWhile.symm⟩
  · cases h
    exact ⟨[], .absent, rfl⟩

/-- An exponent is read up to what is no digit. -/
theorem ExponentText.read {e : Option Int} (h : ExponentText exponent e) (hrest : EndsNumber rest) :
    readPower (exponent ++ rest) = some (e, rest) := by
  have hbehind {letter : Char} (hletter : letter = 'e' ∨ letter = 'E') (more : List Char) :
      readPower (letter :: more) = (readExponent more).map fun r => (some r.1, r.2) := by
    rcases hletter with rfl | rfl <;> rfl
  cases h with
  | absent =>
    rw [List.nil_append, readPower]
    · exact fun cs hsame => (hrest.ne_exponent cs).1 hsame
    · exact fun cs hsame => (hrest.ne_exponent cs).2 hsame
  | bare letter digits =>
    obtain ⟨htake, hdrop⟩ := digits.takeWhile hrest.endsDigits
    have hplus := digits.ne_sign (c := '+') (by decide) rest
    have hminus := digits.ne_sign (c := '-') (by decide) rest
    rw [List.cons_append, hbehind letter, readExponent.eq_3 _ hplus hminus, htake, hdrop,
      if_neg digits.1]
    rfl
  | plus letter digits =>
    obtain ⟨htake, hdrop⟩ := digits.takeWhile hrest.endsDigits
    rw [List.cons_append, hbehind letter, List.cons_append, readExponent.eq_1, htake, hdrop,
      if_neg digits.1]
    rfl
  | minus letter digits =>
    obtain ⟨htake, hdrop⟩ := digits.takeWhile hrest.endsDigits
    rw [List.cons_append, hbehind letter, List.cons_append, readExponent.eq_2, htake, hdrop,
      if_neg digits.1]
    rfl

theorem exists_exponentText {e : Option Int} (h : readPower cs = some (e, rest)) :
    ∃ exponent, ExponentText exponent e ∧ cs = exponent ++ rest := by
  have hbehind {letter : Char} (hletter : letter = 'e' ∨ letter = 'E') {more : List Char}
      (h : (readExponent more).map (fun r => (some r.1, r.2)) = some (e, rest)) :
      ∃ exponent, ExponentText exponent e ∧ letter :: more = exponent ++ rest := by
    obtain ⟨⟨value, rest'⟩, hread, hsame⟩ := Option.map_eq_some_iff.mp h
    obtain ⟨rfl, rfl⟩ := Prod.mk.inj hsame
    unfold readExponent at hread
    split at hread
    next negative digits heq =>
    dsimp only at hread
    split at hread
    · cases hread
    · next hdigits =>
      cases hread
      split at heq
      · cases heq
        exact ⟨_, .plus hletter (areDigits_takeWhile hdigits), by simp⟩
      · cases heq
        exact ⟨_, .minus hletter (areDigits_takeWhile hdigits), by simp⟩
      · cases heq
        exact ⟨_, .bare hletter (areDigits_takeWhile hdigits), by simp⟩
  unfold readPower at h
  split at h
  · exact hbehind (Or.inl rfl) h
  · exact hbehind (Or.inr rfl) h
  · cases h
    exact ⟨[], .absent, rfl⟩

theorem ExponentText.endsDigits {e : Option Int} (h : ExponentText exponent e)
    (hrest : EndsNumber rest) :
    EndsDigits (exponent ++ rest) ∧ ∀ cs, exponent ++ rest ≠ '.' :: cs := by
  have hletter {letter : Char} (hletter : letter = 'e' ∨ letter = 'E') (more : List Char) :
      EndsDigits (letter :: more) ∧ ∀ cs, letter :: more ≠ '.' :: cs := by
    rcases hletter with rfl | rfl
    · exact ⟨endsDigits_cons (by decide) more, by rintro cs ⟨⟩⟩
    · exact ⟨endsDigits_cons (by decide) more, by rintro cs ⟨⟩⟩
  cases h with
  | absent => exact ⟨hrest.endsDigits, hrest.ne_point⟩
  | bare letter _ => exact hletter letter _
  | plus letter _ => exact hletter letter _
  | minus letter _ => exact hletter letter _

theorem FractionText.endsDigits {f : Option (List Char)} (h : FractionText fraction f)
    (hrest : EndsDigits rest) : EndsDigits (fraction ++ rest) := by
  cases h with
  | absent => exact hrest
  | present _ => exact endsDigits_cons (by decide) _

/-- A number is read where nothing that belongs to one follows. -/
theorem NumeralText.read {numeral : Numeral} (h : NumeralText cs numeral)
    (hrest : EndsNumber rest) : readNumeral (cs ++ rest) = some (numeral, rest) := by
  obtain @⟨negative, whole, fraction, exponent, f, e, digits, first, hfraction, hexponent⟩ := h
  obtain ⟨hend, hpoint⟩ := hexponent.endsDigits hrest
  obtain ⟨htake, hdrop⟩ := digits.takeWhile (hfraction.endsDigits hend)
  have hformed : ¬ (decide (whole = []) || whole.head? == some '0' && decide (1 < whole.length)) =
      true := by
    simp only [Bool.or_eq_true, decide_eq_true_eq, Bool.and_eq_true, beq_iff_eq, not_or, not_and]
    exact ⟨digits.1, fun hzero hlong => absurd (first hzero) (Nat.ne_of_gt hlong)⟩
  have hunsigned : readUnsigned negative (whole ++ (fraction ++ (exponent ++ rest))) =
      some (⟨negative, whole, f, e⟩, rest) := by
    rw [readUnsigned]
    simp only [htake, hdrop]
    rw [if_neg hformed, hfraction.read hend hpoint, Option.bind_some, hexponent.read hrest]
    rfl
  rw [readNumeral_eq]
  simp only [List.append_assoc]
  cases negative with
  | true => exact hunsigned
  | false =>
    split
    · next heq => exact absurd heq (digits.ne_sign (by decide) _ _)
    · exact hunsigned

/-- What is read as a number is what the front of the text stands for. -/
theorem exists_numeralText {numeral : Numeral} (h : readNumeral cs = some (numeral, rest)) :
    ∃ body, NumeralText body numeral ∧ cs = body ++ rest := by
  have hunsigned {negative : Bool} {more : List Char}
      (h : readUnsigned negative more = some (numeral, rest)) :
      ∃ body, NumeralText body numeral ∧
        (if negative then ['-'] else []) ++ more = body ++ rest := by
    rw [readUnsigned] at h
    split at h
    · cases h
    · next hformed =>
      obtain ⟨⟨f, behind⟩, hreadFraction, h⟩ := Option.bind_eq_some_iff.mp h
      obtain ⟨⟨e, rest'⟩, hreadPower, hsame⟩ := Option.map_eq_some_iff.mp h
      obtain ⟨rfl, rfl⟩ := Prod.mk.inj hsame
      obtain ⟨fraction, hfraction, hbehind⟩ := exists_fractionText hreadFraction
      obtain ⟨exponent, hexponent, rfl⟩ := exists_exponentText hreadPower
      simp only [Bool.or_eq_true, decide_eq_true_eq, Bool.and_eq_true, beq_iff_eq, not_or,
        not_and] at hformed
      refine ⟨_, .mk (areDigits_takeWhile hformed.1) (fun hzero => ?_) hfraction hexponent, ?_⟩
      · -- There is at least one digit, and with a zero in front not more than one.
        have hlength := hformed.2 hzero
        have hpos := List.length_pos_iff.mpr hformed.1
        omega
      · rw [List.append_assoc, List.append_assoc, List.append_assoc, ← hbehind,
          List.takeWhile_append_dropWhile]
  rw [readNumeral_eq] at h
  split at h
  · exact hunsigned h
  · exact hunsigned h

theorem IsNumber.read {number : JsonNumber} (h : IsNumber cs number) (hrest : EndsNumber rest) :
    readNumber (cs ++ rest) = some (.num number, rest) := by
  obtain ⟨numeral, hnumeral, hvalue⟩ := h
  rw [readNumber, hnumeral.read hrest]
  simp only [Option.bind_some, hvalue, Option.map_some]

theorem exists_isNumber {v : Json} (h : readNumber cs = some (v, rest)) :
    ∃ body number, IsNumber body number ∧ v = .num number ∧ cs = body ++ rest := by
  obtain ⟨⟨numeral, rest'⟩, hread, h⟩ := Option.bind_eq_some_iff.mp h
  obtain ⟨number, hvalue, hsame⟩ := Option.map_eq_some_iff.mp h
  obtain ⟨rfl, rfl⟩ := Prod.mk.inj hsame
  obtain ⟨body, hbody, rfl⟩ := exists_numeralText hread
  exact ⟨body, number, ⟨numeral, hbody, hvalue⟩, rfl, rfl⟩

/-! ### Integers -/

theorem areDigits_toDigits (k : Nat) : AreDigits (Nat.toDigits 10 k) :=
  ⟨Nat.toDigits_ne_nil, fun _ => Nat.isDigit_of_mem_toDigits (by decide) (by decide)⟩

/-- The digits of a natural number, with a sign or without, are those of a number. -/
theorem numeralText_toDigits (negative : Bool) (k : Nat) :
    NumeralText ((if negative then ['-'] else []) ++ Nat.toDigits 10 k)
      ⟨negative, Nat.toDigits 10 k, none, none⟩ := by
  have hfirst : (Nat.toDigits 10 k).head? = some '0' → (Nat.toDigits 10 k).length = 1 := by
    intro hzero
    rcases Nat.eq_zero_or_pos k with rfl | hk
    · rfl
    · exact absurd hzero (head?_toDigits_ne hk)
  have htext : NumeralText ((if negative then ['-'] else []) ++ Nat.toDigits 10 k ++ [] ++ [])
      ⟨negative, Nat.toDigits 10 k, none, none⟩ :=
    .mk (areDigits_toDigits k) hfirst .absent .absent
  rwa [List.append_nil, List.append_nil] at htext

/-- Integers of 64 bits are among the numbers. -/
theorem IsInteger.isNumber {number : JsonNumber} (h : IsInteger cs number) :
    IsNumber cs number := by
  obtain ⟨n, ⟨hlow, hhigh⟩, rfl, rfl⟩ := h
  have hbound : n.natAbs < wordBound := by
    unfold wordBound at hhigh ⊢
    omega
  have hint := int?_toDigits (decide (n < 0)) hbound fun h => by
    have := of_decide_eq_true h
    omega
  have hvalue : (if decide (n < 0) = true then -(n.natAbs : Int) else n.natAbs) = n := by
    by_cases hneg : n < 0
    · rw [if_pos (decide_eq_true hneg)]
      omega
    · rw [if_neg fun h => hneg (of_decide_eq_true h)]
      omega
  rw [hvalue] at hint
  refine ⟨⟨decide (n < 0), Nat.toDigits 10 n.natAbs, none, none⟩, ?_, ?_⟩
  · rw [intChars_eq]
    exact numeralText_toDigits _ _
  · rw [Numeral.value?, hint]

end TreeConsole.Json
