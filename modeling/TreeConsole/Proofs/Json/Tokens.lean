import TreeConsole.Json.Printer
import TreeConsole.Json.Reader

/-!
# Strings and integers as they are written

Every character of a string has one written form: a letter or a number behind a backslash, or the
character itself. An integer is written in decimal digits without a needless zero in front, and
these are the digits of the same integer as long as it fits 64 bits.

## Main definitions

* `Json.IsWord` — the integers of 64 bits, signed or unsigned

## Main results

* `Json.escapeChar_cases` — how a character is written
* `Json.int?_toDigits` — what written digits stand for
-/

namespace TreeConsole.Json

/-! ### Strings -/

/-- Two hexadecimal digits are enough for the controls that have no short escape. -/
theorem hexValue4?_hex4 : ∀ n < 0x20,
    hexValue4? (hexDigit (n / 4096 % 16)) (hexDigit (n / 256 % 16)) (hexDigit (n / 16 % 16))
      (hexDigit (n % 16)) = some n := by
  decide

/-- How a character of a string is written: by a letter, by its number, or as it is. -/
theorem escapeChar_cases (c : Char) :
    (∃ letter, escapeChar c = ['\\', letter] ∧ unescape? letter = some c) ∨
      (escapeChar c = '\\' :: 'u' :: hex4 c.toNat ∧ c.toNat < 0x20) ∨
        (escapeChar c = [c] ∧ c ≠ '"' ∧ c ≠ '\\' ∧ 0x20 ≤ c.toNat) := by
  unfold escapeChar
  split
  case isTrue h => subst h; exact Or.inl ⟨'"', rfl, rfl⟩
  split
  case isTrue h => subst h; exact Or.inl ⟨'\\', rfl, rfl⟩
  split
  case isTrue h => subst h; exact Or.inl ⟨'b', rfl, rfl⟩
  split
  case isTrue h => subst h; exact Or.inl ⟨'f', rfl, rfl⟩
  split
  case isTrue h => subst h; exact Or.inl ⟨'n', rfl, rfl⟩
  split
  case isTrue h => subst h; exact Or.inl ⟨'r', rfl, rfl⟩
  split
  case isTrue h => subst h; exact Or.inl ⟨'t', rfl, rfl⟩
  split
  case isTrue h => exact Or.inr (Or.inl ⟨rfl, h⟩)
  case isFalse hquote hslash _ _ _ _ _ h =>
    exact Or.inr (Or.inr ⟨rfl, hquote, hslash, Nat.le_of_not_lt h⟩)

/-! ### Integers -/

/-- The integers of 64 bits, signed or unsigned. -/
def IsWord (n : Int) : Prop := -0x8000000000000000 ≤ n ∧ n < (wordBound : Int)

instance (n : Int) : Decidable (IsWord n) := inferInstanceAs (Decidable (_ ∧ _))

/-- Digits that follow only make a number greater. -/
theorem le_ofDigitChars (cs : List Char) (n : Nat) : n ≤ Nat.ofDigitChars 10 cs n := by
  induction cs generalizing n with
  | nil => exact Nat.le_refl n
  | cons c cs ih =>
    rw [Nat.ofDigitChars_cons]
    exact Nat.le_trans (by omega) (ih _)

/-- All digits of a number that fits are taken. -/
theorem takeDigits_of_lt {cs : List Char} {n : Nat} (h : Nat.ofDigitChars 10 cs n < wordBound) :
    takeDigits n cs = (Nat.ofDigitChars 10 cs n, cs.length, 0) := by
  induction cs generalizing n with
  | nil => rfl
  | cons c cs ih =>
    have hvalue : n * 10 + digitValue c = 10 * n + (c.toNat - '0'.toNat) := by
      rw [Nat.mul_comm]
      rfl
    rw [Nat.ofDigitChars_cons, ← hvalue] at h ⊢
    have hfits := Nat.lt_of_le_of_lt (le_ofDigitChars cs _) h
    rw [takeDigits, if_pos hfits, ih h]
    rfl

/-- An integer is written as a sign and digits. -/
theorem intChars_eq (n : Int) :
    intChars n = (if decide (n < 0) then ['-'] else []) ++ Nat.toDigits 10 n.natAbs := by
  unfold intChars
  split <;> simp [*]

/-- No zero is written in front of a number. -/
theorem head?_toDigits_ne {k : Nat} (h : 0 < k) : (Nat.toDigits 10 k).head? ≠ some '0' := by
  induction k using Nat.strongRecOn with
  | _ k ih =>
    rw [Nat.toDigits_eq_if (by decide)]
    split
    case isTrue hsmall =>
      have hdigits : ∀ k < 10, 0 < k → [Nat.digitChar k].head? ≠ some '0' := by decide
      exact hdigits k hsmall h
    case isFalse hlarge =>
      have hhead := ih (k / 10) (by omega) (by omega)
      obtain ⟨d, ds, hds⟩ :=
        List.exists_cons_of_ne_nil (Nat.toDigits_ne_nil (b := 10) (n := k / 10))
      rw [hds] at hhead ⊢
      exact hhead

/-- The number that digits stand for is an integer when it fits 64 bits, except a negative zero. -/
theorem int?_toDigits (negative : Bool) {k : Nat} (hk : k < wordBound)
    (hneg : negative = true → 0 < k ∧ k ≤ 0x8000000000000000) :
    Numeral.int? ⟨negative, Nat.toDigits 10 k, none, none⟩ =
      some (if negative then -(k : Int) else k) := by
  have hvalue : Nat.ofDigitChars 10 (Nat.toDigits 10 k) 0 = k :=
    Nat.ofDigitChars_toDigits (by decide) (by decide)
  have htaken : takeDigits 0 (Nat.toDigits 10 k) = (k, (Nat.toDigits 10 k).length, 0) := by
    rw [takeDigits_of_lt (by rwa [hvalue]), hvalue]
  simp only [Numeral.int?, htaken]
  cases negative with
  | false => rfl
  | true =>
    obtain ⟨hpos, hle⟩ := hneg rfl
    have hfits : ¬ (k = 0 ∨ 0x8000000000000000 < k) := by omega
    simp [hfits]

end TreeConsole.Json
