import TreeConsole.Proofs.Json.Tokens

/-!
# Compact text has no controls

Whatever the strings and keys of a value hold, its compact text has no control character: those of a
string are written as escapes, and nothing else of the text is free. So a value never breaks out of
the line it is written on.

## Main results

* `Json.allShown_compactChars` — every character of a compact text is above the controls
-/

namespace TreeConsole.Json

/-- A character above the controls of ASCII. -/
def IsShown (c : Char) : Prop := 0x20 ≤ c.toNat

instance (c : Char) : Decidable (IsShown c) := inferInstanceAs (Decidable (_ ≤ _))

/-- A text without controls. -/
def AllShown (cs : List Char) : Prop := ∀ c ∈ cs, IsShown c

instance (cs : List Char) : Decidable (AllShown cs) := List.decidableBAll IsShown cs

@[simp] theorem allShown_append {cs ds : List Char} :
    AllShown (cs ++ ds) ↔ AllShown cs ∧ AllShown ds := List.forall_mem_append

@[simp] theorem allShown_cons {c : Char} {cs : List Char} :
    AllShown (c :: cs) ↔ IsShown c ∧ AllShown cs := List.forall_mem_cons

@[simp] theorem allShown_nil : AllShown [] := by decide

theorem AllShown.take {cs : List Char} (h : AllShown cs) (n : Nat) : AllShown (cs.take n) :=
  fun c hc => h c (List.mem_of_mem_take hc)

theorem AllShown.drop {cs : List Char} (h : AllShown cs) (n : Nat) : AllShown (cs.drop n) :=
  fun c hc => h c (List.mem_of_mem_drop hc)

theorem isShown_of_isDigit {c : Char} (h : c.isDigit = true) : IsShown c :=
  Nat.le_trans (by decide) (Char.isDigit_iff_toNat.mp h).1

theorem allShown_toDigits (n : Nat) : AllShown (Nat.toDigits 10 n) := fun _ hc =>
  isShown_of_isDigit (Nat.isDigit_of_mem_toDigits (by decide) (by decide) hc)

theorem allShown_replicate (n : Nat) : AllShown (List.replicate n '0') := by
  intro c hc
  rw [List.eq_of_mem_replicate hc]
  decide

/-! ### Numbers -/

/-- A point, and digits on both sides of it. -/
theorem allShown_plain (n : Nat) (e : Int) : AllShown (Binary64.plain (Nat.toDigits 10 n) e) := by
  have hdigits := allShown_toDigits n
  unfold Binary64.plain
  dsimp only
  split
  · simp only [allShown_append]
    exact ⟨⟨hdigits, allShown_replicate _⟩, by decide⟩
  split
  · simp only [allShown_append]
    exact ⟨⟨hdigits.take _, by decide⟩, hdigits.drop _⟩
  · simp only [allShown_append]
    exact ⟨⟨by decide, allShown_replicate _⟩, hdigits⟩

/-- A point after the first digit, and an exponent with its sign. -/
theorem allShown_scientific (n : Nat) (lead : Int) :
    AllShown (Binary64.scientific (Nat.toDigits 10 n) lead) := by
  have hdigits := allShown_toDigits n
  have hfraction : AllShown
      (if (Nat.toDigits 10 n).length ≤ 1 then [] else '.' :: (Nat.toDigits 10 n).drop 1) := by
    split
    · exact allShown_nil
    · exact allShown_cons.mpr ⟨by decide, hdigits.drop 1⟩
  have hexponent : AllShown ['e', if lead < 0 then '-' else '+'] := by
    split <;> decide
  simp only [Binary64.scientific, allShown_append]
  exact ⟨⟨⟨hdigits.take 1, hfraction⟩, hexponent⟩, allShown_toDigits _⟩

/-- A floating-point number is written in digits, signs, a point and a letter. -/
theorem allShown_text (x : Binary64) : AllShown x.text := by
  have hsigned : ∀ body, AllShown body → AllShown (if x.negative then '-' :: body else body) := by
    intro body hbody
    split
    · exact allShown_cons.mpr ⟨by decide, hbody⟩
    · exact hbody
  -- Whichever digits are the shortest, they are the digits of some number.
  refine hsigned _ ?_
  split
  · decide
  · dsimp only
    split
    · exact allShown_plain _ _
    · exact allShown_scientific _ _

theorem allShown_numberChars (n : JsonNumber) : AllShown (numberChars n) := by
  cases n with
  | int n =>
    rw [numberChars, intChars]
    split
    · exact allShown_cons.mpr ⟨by decide, allShown_toDigits _⟩
    · exact allShown_toDigits _
  | float x => exact allShown_text x

/-! ### Strings -/

theorem isShown_hexDigit (n : Nat) : IsShown (hexDigit (n % 16)) := by
  have hall : ∀ m < 16, IsShown (hexDigit m) := by decide
  exact hall _ (Nat.mod_lt n (by decide))

theorem isShown_of_unescape? {letter c : Char} (h : unescape? letter = some c) :
    IsShown letter := by
  unfold unescape? at h
  split at h
  case h_9 => cases h
  all_goals decide

/-- A control is written as an escape, any other character is above the controls. -/
theorem allShown_escapeChar (c : Char) : AllShown (escapeChar c) := by
  rcases escapeChar_cases c with ⟨letter, hchars, hmeans⟩ | ⟨hchars, -⟩ | ⟨hchars, -, -, hshown⟩
  · simp only [hchars, allShown_cons]
    exact ⟨by decide, isShown_of_unescape? hmeans, allShown_nil⟩
  · simp only [hchars, hex4, allShown_cons]
    exact ⟨by decide, by decide, isShown_hexDigit _, isShown_hexDigit _, isShown_hexDigit _,
      isShown_hexDigit _, allShown_nil⟩
  · rw [hchars]
    exact allShown_cons.mpr ⟨hshown, allShown_nil⟩

theorem allShown_stringChars (s : String) : AllShown (stringChars s) := by
  have hchars : AllShown (s.toList.flatMap escapeChar) := by
    intro c hc
    obtain ⟨d, -, hd⟩ := List.mem_flatMap.mp hc
    exact allShown_escapeChar d c hd
  simp only [stringChars, allShown_cons, allShown_append]
  exact ⟨⟨by decide, hchars⟩, by decide⟩

/-! ### Values -/

mutual

/-- The compact text of a value has no controls. -/
theorem allShown_compactChars : ∀ v : Json, AllShown (compactChars v)
  | .null => by decide
  | .bool b => by cases b <;> decide
  | .num n => allShown_numberChars n
  | .str s => allShown_stringChars s
  | .arr items => by
    simp only [compactChars, allShown_cons, allShown_append]
    exact ⟨⟨by decide, allShown_compactItems items⟩, by decide⟩
  | .obj fields => by
    simp only [compactChars, allShown_cons, allShown_append]
    exact ⟨⟨by decide, allShown_compactFields fields⟩, by decide⟩

theorem allShown_compactItems : ∀ items : List Json, AllShown (compactItems items)
  | [] => allShown_nil
  | [v] => allShown_compactChars v
  | v :: w :: vs => by
    simp only [compactItems, allShown_cons, allShown_append]
    exact ⟨allShown_compactChars v, by decide, allShown_compactItems (w :: vs)⟩

theorem allShown_compactFields : ∀ fields : List (String × Json), AllShown (compactFields fields)
  | [] => allShown_nil
  | [(k, v)] => by
    simp only [compactFields, allShown_cons, allShown_append]
    exact ⟨allShown_stringChars k, by decide, allShown_compactChars v⟩
  | (k, v) :: f :: fs => by
    simp only [compactFields, allShown_cons, allShown_append]
    exact ⟨⟨allShown_stringChars k, by decide, allShown_compactChars v⟩, by decide,
      allShown_compactFields (f :: fs)⟩

end

theorem lineFeed_not_mem_compactChars (v : Json) : '\n' ∉ compactChars v := fun h =>
  absurd (allShown_compactChars v '\n' h) (by decide)

end TreeConsole.Json
