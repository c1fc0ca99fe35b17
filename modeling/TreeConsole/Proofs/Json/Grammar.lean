import TreeConsole.Proofs.Json.Lexicon

/-!
# The grammar of JSON

Which texts stand for which values, written down without the reader. Blanks may stand around every
value and every key, containers stand inside each other as deep as a number says, and of two fields
with one key the later counts. Which numbers are admitted is left open, so that one grammar serves
for all numbers and for the integers of 64 bits.

The reader gives a value just when the text stands for it. From the grammar to the reader that is by
induction on how the text is built; the other way round it is by induction on the steps of the
reader.

## Main definitions

* `Json.Spells` — the texts of a value, without blanks around it
* `Json.SpellsText` — the texts of a value that stands alone

## Main results

* `Json.parse?_eq_some_iff` — what is read is what the text stands for
-/

namespace TreeConsole.Json

variable {N : List Char → JsonNumber → Prop} {d fuel : Nat} {cs ks rest gap : List Char}
  {v : Json} {vs : List Json} {fs : List (String × Json)} {k : String}

/-! ### Texts and values -/

/-- Blanks only, or nothing. -/
def AreGaps (cs : List Char) : Prop := ∀ c ∈ cs, isGap c = true

/-- A key with blanks around it. -/
inductive KeyText : List Char → String → Prop
  | mk {before ks after : List Char} {k : String} (hbefore : AreGaps before) (key : StringText ks k)
    (hafter : AreGaps after) : KeyText (before ++ ks ++ after) k

mutual

/-- What is written for a value in which containers stand at most so deep inside each other. -/
inductive Spells (N : List Char → JsonNumber → Prop) : Nat → List Char → Json → Prop
  | null {d : Nat} : Spells N d ['n', 'u', 'l', 'l'] .null
  | bool {d : Nat} (b : Bool) : Spells N d (literalChars b) (.bool b)
  | num {d : Nat} {cs : List Char} {n : JsonNumber} (h : N cs n) : Spells N d cs (.num n)
  | str {d : Nat} {cs : List Char} {s : String} (h : StringText cs s) : Spells N d cs (.str s)
  | arrEmpty {d : Nat} {gap : List Char} (h : AreGaps gap) :
    Spells N (d + 1) ('[' :: (gap ++ [']'])) (.arr [])
  | arr {d : Nat} {cs : List Char} {vs : List Json} (h : SpellsItems N d cs vs) :
    Spells N (d + 1) ('[' :: (cs ++ [']'])) (.arr vs)
  | objEmpty {d : Nat} {gap : List Char} (h : AreGaps gap) :
    Spells N (d + 1) ('\x7b' :: (gap ++ ['\x7d'])) (.obj [])
  | obj {d : Nat} {cs : List Char} {fs : List (String × Json)} (h : SpellsFields N d cs fs) :
    Spells N (d + 1) ('\x7b' :: (cs ++ ['\x7d'])) (ofFields fs)

/-- A value with blanks around it. -/
inductive SpellsPadded (N : List Char → JsonNumber → Prop) : Nat → List Char → Json → Prop
  | mk {d : Nat} {before cs after : List Char} {v : Json} (hbefore : AreGaps before)
    (h : Spells N d cs v) (hafter : AreGaps after) : SpellsPadded N d (before ++ cs ++ after) v

/-- The items of an array, with commas between them. -/
inductive SpellsItems (N : List Char → JsonNumber → Prop) : Nat → List Char → List Json → Prop
  | last {d : Nat} {cs : List Char} {v : Json} (h : SpellsPadded N d cs v) : SpellsItems N d cs [v]
  | more {d : Nat} {cs more : List Char} {v : Json} {vs : List Json} (h : SpellsPadded N d cs v)
    (others : SpellsItems N d more vs) : SpellsItems N d (cs ++ ',' :: more) (v :: vs)

/-- The fields of an object, with commas between them. -/
inductive SpellsFields (N : List Char → JsonNumber → Prop) :
    Nat → List Char → List (String × Json) → Prop
  | last {d : Nat} {ks cs : List Char} {k : String} {v : Json} (key : KeyText ks k)
    (h : SpellsPadded N d cs v) : SpellsFields N d (ks ++ ':' :: cs) [(k, v)]
  | more {d : Nat} {ks cs more : List Char} {k : String} {v : Json} {fs : List (String × Json)}
    (key : KeyText ks k) (h : SpellsPadded N d cs v) (others : SpellsFields N d more fs) :
    SpellsFields N d (ks ++ ':' :: (cs ++ ',' :: more)) ((k, v) :: fs)

end

/-- The texts of a value that stands alone. -/
def SpellsText (N : List Char → JsonNumber → Prop) (text : String) (v : Json) : Prop :=
  SpellsPadded N nestingLimit text.toList v

/-! ### Blanks -/

theorem skipGap_cons {c : Char} (h : isGap c = false) (cs : List Char) :
    skipGap (c :: cs) = c :: cs := by
  simp [skipGap, h]

theorem skipGap_append (h : AreGaps gap) (cs : List Char) : skipGap (gap ++ cs) = skipGap cs :=
  List.dropWhile_append_of_pos h

theorem exists_gaps (cs : List Char) : ∃ gap, AreGaps gap ∧ cs = gap ++ skipGap cs :=
  ⟨cs.takeWhile isGap, fun _ => List.mem_takeWhile_imp, List.takeWhile_append_dropWhile.symm⟩

theorem skipGap_skipGap (cs : List Char) : skipGap (skipGap cs) = skipGap cs := by
  obtain ⟨gap, hgap, hcs⟩ := exists_gaps cs
  conv => rhs; rw [hcs, skipGap_append hgap]

/-- The reader passes over blanks. -/
theorem readValue_skipGap (fuel d : Nat) (cs : List Char) :
    readValue fuel d (skipGap cs) = readValue fuel d cs := by
  cases fuel with
  | zero => rfl
  | succ fuel => rw [readValue, readValue, skipGap_skipGap]

theorem readItems_skipGap (fuel d : Nat) (cs : List Char) :
    readItems fuel d (skipGap cs) = readItems fuel d cs := by
  cases fuel with
  | zero => rfl
  | succ fuel => rw [readItems, readItems, readValue_skipGap]

theorem readFields_skipGap (fuel d : Nat) (cs : List Char) :
    readFields fuel d (skipGap cs) = readFields fuel d cs := by
  cases fuel with
  | zero => rfl
  | succ fuel => rw [readFields, readFields, skipGap_skipGap]

/-! ### From the grammar to the reader -/

/-- A character that can be the first of a value. -/
def Begins (c : Char) : Prop := isGap c = false ∧ c ≠ ']'

instance (c : Char) : Decidable (Begins c) := inferInstanceAs (Decidable (_ ∧ _))

theorem begins_number {c : Char} (h : c = '-' ∨ c.isDigit = true) : Begins c := by
  constructor
  · simp only [isGap, Bool.or_eq_false_iff, beq_eq_false_iff_ne]
    refine ⟨⟨⟨?_, ?_⟩, ?_⟩, ?_⟩ <;> rintro rfl <;> exact absurd h (by decide)
  · rintro rfl
    exact absurd h (by decide)

/-- What begins like an integer is read as a number. -/
theorem readValue_of_number {c : Char} (hc : c = '-' ∨ c.isDigit = true) (cs : List Char) :
    readValue (fuel + 1) d (c :: cs) = readNumber (c :: cs) := by
  rw [readValue, skipGap_cons (begins_number hc).1]
  -- Every other form begins with a character that is neither a sign nor a digit.
  split
  case h_7 => rfl
  all_goals
    next heq =>
      cases heq
      exact absurd hc (by decide)

/-- A rule for the texts of numbers that the reader keeps to. -/
structure Admits (N : List Char → JsonNumber → Prop) : Prop where
  begins : ∀ {cs : List Char} {n : JsonNumber}, N cs n →
    ∃ c more, cs = c :: more ∧ (c = '-' ∨ c.isDigit = true)
  read : ∀ {cs rest : List Char} {n : JsonNumber}, N cs n → EndsNumber rest →
    readNumber (cs ++ rest) = some (.num n, rest)

theorem admits_isNumber : Admits IsNumber where
  begins := by
    rintro _ _ ⟨_, @⟨negative, whole, _, _, _, _, digits, -, -, -⟩, -⟩
    cases negative with
    | true => exact ⟨'-', _, rfl, Or.inl rfl⟩
    | false =>
      obtain ⟨c, more, rfl⟩ := List.exists_cons_of_ne_nil digits.1
      exact ⟨c, _, rfl, Or.inr (digits.2 c List.mem_cons_self)⟩
  read := IsNumber.read

theorem admits_isInteger : Admits IsInteger where
  begins := fun h => admits_isNumber.begins h.isNumber
  read := fun h => h.isNumber.read

theorem endsNumber_comma (cs : List Char) : EndsNumber (',' :: cs) := endsNumber_cons (by decide)

theorem endsNumber_bracket (cs : List Char) : EndsNumber (']' :: cs) := endsNumber_cons (by decide)

theorem endsNumber_brace (cs : List Char) : EndsNumber ('\x7d' :: cs) := endsNumber_cons (by decide)

theorem endsNumber_gap (h : AreGaps gap) (hrest : EndsNumber rest) : EndsNumber (gap ++ rest) := by
  cases gap with
  | nil => exact hrest
  | cons c gap =>
    have hc := h c List.mem_cons_self
    simp only [isGap, Bool.or_eq_true, beq_iff_eq] at hc
    rcases hc with ((rfl | rfl) | rfl) | rfl <;> exact endsNumber_cons (by decide)

theorem StringText.read {s : String} (h : StringText cs s) (rest : List Char) :
    ∃ body, cs ++ rest = '"' :: body ∧ readString body = some (s.toList, rest) := by
  obtain @⟨body, cs, hbody⟩ := h
  refine ⟨body ++ '"' :: rest, ?_, ?_⟩
  · simp
  · rw [hbody.read, String.toList_ofList]

/-- A value begins with a character that is neither a blank nor the end of an array. -/
theorem Spells.begins (h : Spells N d cs v) (hN : Admits N) :
    ∃ c more, cs = c :: more ∧ Begins c := by
  cases h with
  | null => exact ⟨'n', _, rfl, by decide⟩
  | bool b => cases b <;> exact ⟨_, _, rfl, by decide⟩
  | num h =>
    obtain ⟨c, more, rfl, hc⟩ := hN.begins h
    exact ⟨c, more, rfl, begins_number hc⟩
  | str h =>
    obtain ⟨_⟩ := h
    exact ⟨'"', _, rfl, by decide⟩
  | arrEmpty => exact ⟨'[', _, rfl, by decide⟩
  | arr => exact ⟨'[', _, rfl, by decide⟩
  | objEmpty => exact ⟨'\x7b', _, rfl, by decide⟩
  | obj => exact ⟨'\x7b', _, rfl, by decide⟩

theorem SpellsPadded.begins (h : SpellsPadded N d cs v) (hN : Admits N) (rest : List Char) :
    ∃ c more, skipGap (cs ++ rest) = c :: more ∧ Begins c := by
  obtain @⟨_, before, _, after, _, hbefore, h, -⟩ := h
  obtain ⟨c, more, rfl, hc⟩ := h.begins hN
  refine ⟨c, more ++ (after ++ rest), ?_, hc⟩
  simp only [List.append_assoc, skipGap_append hbefore, List.cons_append, skipGap_cons hc.1]

theorem SpellsItems.begins (h : SpellsItems N d cs vs) (hN : Admits N) (rest : List Char) :
    ∃ c more, skipGap (cs ++ rest) = c :: more ∧ Begins c := by
  cases h with
  | last h => exact h.begins hN rest
  | more h _ =>
    rw [List.append_assoc]
    exact h.begins hN _

/-- An array that does not end at once is read item by item. -/
theorem readValue_bracket {c : Char} {more : List Char} (h : skipGap cs = c :: more)
    (hc : Begins c) :
    readValue (fuel + 1) (d + 1) ('[' :: cs) =
      (readItems fuel d cs).map fun r => (.arr r.1, r.2) := by
  rw [readValue]
  simp only [skipGap_cons (c := '[') rfl, h]
  split
  case h_1 heq =>
    cases heq
    exact absurd rfl hc.2
  case h_2 => rw [← h, readItems_skipGap]

/-- An object that does not end at once is read field by field. -/
theorem readValue_brace {more : List Char} (h : skipGap cs = '"' :: more) :
    readValue (fuel + 1) (d + 1) ('\x7b' :: cs) =
      (readFields fuel d cs).map fun r => (ofFields r.1, r.2) := by
  rw [readValue]
  simp only [skipGap_cons (c := '\x7b') rfl, h]
  split
  case h_1 heq => cases heq
  case h_2 => rw [← h, readFields_skipGap]

/-- The last item of an array is followed by the end of the array. -/
theorem readItems_of_last {left : List Char} (hv : readValue fuel d cs = some (v, left))
    (hleft : skipGap left = ']' :: rest) : readItems (fuel + 1) d cs = some ([v], rest) := by
  rw [readItems, hv]
  simp only [hleft]

theorem readItems_of_more {left more : List Char} (hv : readValue fuel d cs = some (v, left))
    (hleft : skipGap left = ',' :: more) :
    readItems (fuel + 1) d cs = (readItems fuel d more).map fun r => (v :: r.1, r.2) := by
  rw [readItems, hv]
  simp only [hleft]

/-- A key and the colon behind it are read, with the blanks around the key. -/
theorem KeyText.read (h : KeyText ks k) (cs : List Char) :
    ∃ body left, skipGap (ks ++ ':' :: cs) = '"' :: body ∧
      readString body = some (k.toList, left) ∧ skipGap left = ':' :: cs := by
  obtain @⟨before, ks, after, k, hbefore, key, hafter⟩ := h
  obtain ⟨body, hbody, hread⟩ := key.read (after ++ ':' :: cs)
  refine ⟨body, after ++ ':' :: cs, ?_, hread, ?_⟩
  · simp only [List.append_assoc, skipGap_append hbefore, hbody, skipGap_cons (c := '"') rfl]
  · rw [skipGap_append hafter, skipGap_cons (c := ':') rfl]

theorem readFields_of_last {left : List Char} (key : KeyText ks k)
    (hv : readValue fuel d cs = some (v, left)) (hleft : skipGap left = '\x7d' :: rest) :
    readFields (fuel + 1) d (ks ++ ':' :: cs) = some ([(k, v)], rest) := by
  obtain ⟨body, behind, hquote, hread, hcolon⟩ := key.read cs
  rw [readFields]
  simp only [hquote, hread, hcolon, hv, hleft, String.ofList_toList]

theorem readFields_of_more {left more : List Char} (key : KeyText ks k)
    (hv : readValue fuel d cs = some (v, left)) (hleft : skipGap left = ',' :: more) :
    readFields (fuel + 1) d (ks ++ ':' :: cs) =
      (readFields fuel d more).map fun r => ((k, v) :: r.1, r.2) := by
  obtain ⟨body, behind, hquote, hread, hcolon⟩ := key.read cs
  rw [readFields]
  simp only [hquote, hread, hcolon, hv, hleft, String.ofList_toList]

theorem SpellsFields.begins (h : SpellsFields N d cs fs) (rest : List Char) :
    ∃ more, skipGap (cs ++ rest) = '"' :: more := by
  cases h with
  | last key _ =>
    obtain ⟨body, -, hquote, -⟩ := key.read _
    exact ⟨body, by rw [List.append_assoc, List.cons_append, hquote]⟩
  | more key _ _ =>
    obtain ⟨body, -, hquote, -⟩ := key.read _
    exact ⟨body, by rw [List.append_assoc, List.cons_append, hquote]⟩

mutual

/-- A value is read off its text, when nothing behind it belongs to a number. -/
theorem Spells.read (hN : Admits N) {rest : List Char} (hrest : EndsNumber rest) :
    ∀ {d : Nat} {cs : List Char} {v : Json}, Spells N d cs v → ∀ fuel, 2 * cs.length < fuel →
      readValue fuel d (cs ++ rest) = some (v, rest)
  | _, _, _, _, 0, hfuel => absurd hfuel (Nat.not_lt_zero _)
  | _, _, _, .null, fuel + 1, _ => by
    rw [readValue]
    rfl
  | _, _, _, .bool b, fuel + 1, _ => by
    rw [readValue]
    cases b <;> rfl
  | _, _, _, .num h, fuel + 1, _ => by
    obtain ⟨c, more, rfl, hc⟩ := hN.begins h
    rw [List.cons_append, readValue_of_number hc, ← List.cons_append, hN.read h hrest]
  | _, _, _, .str h, fuel + 1, _ => by
    obtain ⟨body, hbody, hread⟩ := h.read rest
    rw [hbody, readValue, skipGap_cons (c := '"') rfl]
    simp [hread, String.ofList_toList]
  | _, _, _, .arrEmpty h, fuel + 1, _ => by
    rw [List.cons_append, List.append_assoc, readValue]
    simp only [skipGap_cons (c := '[') rfl, skipGap_append h]
    rfl
  | _, _, _, .arr h, fuel + 1, hfuel => by
    -- The brackets leave fuel for twice the items and one step more.
    rw [List.length_cons, List.length_append, List.length_singleton] at hfuel
    obtain ⟨c, more, hbegin, hc⟩ := h.begins hN (']' :: rest)
    rw [List.cons_append, List.append_assoc, List.singleton_append, readValue_bracket hbegin hc,
      SpellsItems.read hN rest h fuel (by omega), Option.map_some]
  | _, _, _, .objEmpty h, fuel + 1, _ => by
    rw [List.cons_append, List.append_assoc, readValue]
    simp only [skipGap_cons (c := '\x7b') rfl, skipGap_append h]
    rfl
  | _, _, _, .obj h, fuel + 1, hfuel => by
    rw [List.length_cons, List.length_append, List.length_singleton] at hfuel
    obtain ⟨more, hbegin⟩ := h.begins ('\x7d' :: rest)
    rw [List.cons_append, List.append_assoc, List.singleton_append, readValue_brace hbegin,
      SpellsFields.read hN rest h fuel (by omega), Option.map_some]

/-- The blanks behind a value are left. -/
theorem SpellsPadded.read (hN : Admits N) {rest : List Char} (hrest : EndsNumber rest) :
    ∀ {d : Nat} {cs : List Char} {v : Json}, SpellsPadded N d cs v → ∀ fuel,
      2 * cs.length < fuel →
        ∃ left, readValue fuel d (cs ++ rest) = some (v, left) ∧ skipGap left = skipGap rest
  | _, _, _, @SpellsPadded.mk _ _ before _ after _ hbefore h hafter, fuel, hfuel => by
    rw [List.length_append, List.length_append] at hfuel
    refine ⟨after ++ rest, ?_, skipGap_append hafter rest⟩
    rw [← readValue_skipGap, List.append_assoc, List.append_assoc, skipGap_append hbefore,
      readValue_skipGap]
    exact Spells.read hN (endsNumber_gap hafter hrest) h fuel (by omega)

/-- The items of an array are read up to its end. -/
theorem SpellsItems.read (hN : Admits N) (rest : List Char) :
    ∀ {d : Nat} {cs : List Char} {vs : List Json}, SpellsItems N d cs vs → ∀ fuel,
      2 * cs.length + 1 < fuel → readItems fuel d (cs ++ ']' :: rest) = some (vs, rest)
  | _, _, _, _, 0, hfuel => absurd hfuel (Nat.not_lt_zero _)
  | _, _, _, .last h, fuel + 1, hfuel => by
    obtain ⟨left, hread, hleft⟩ :=
      SpellsPadded.read hN (endsNumber_bracket rest) h fuel (by omega)
    exact readItems_of_last hread (hleft.trans (skipGap_cons rfl rest))
  | _, _, _, @SpellsItems.more _ _ _ more _ _ h others, fuel + 1, hfuel => by
    -- Both the first item and the others are shorter than all of them.
    rw [List.length_append, List.length_cons] at hfuel
    obtain ⟨left, hread, hleft⟩ :=
      SpellsPadded.read hN (endsNumber_comma (more ++ ']' :: rest)) h fuel (by omega)
    rw [List.append_assoc, List.cons_append, readItems_of_more hread
      (hleft.trans (skipGap_cons rfl _)), SpellsItems.read hN rest others fuel (by omega),
      Option.map_some]

/-- The fields of an object are read up to its end. -/
theorem SpellsFields.read (hN : Admits N) (rest : List Char) :
    ∀ {d : Nat} {cs : List Char} {fs : List (String × Json)}, SpellsFields N d cs fs → ∀ fuel,
      2 * cs.length + 1 < fuel → readFields fuel d (cs ++ '\x7d' :: rest) = some (fs, rest)
  | _, _, _, _, 0, hfuel => absurd hfuel (Nat.not_lt_zero _)
  | _, _, _, .last key h, fuel + 1, hfuel => by
    rw [List.length_append, List.length_cons] at hfuel
    obtain ⟨left, hread, hleft⟩ :=
      SpellsPadded.read hN (endsNumber_brace rest) h fuel (by omega)
    rw [List.append_assoc, List.cons_append]
    exact readFields_of_last key hread (hleft.trans (skipGap_cons rfl rest))
  | _, _, _, @SpellsFields.more _ _ _ _ more _ _ _ key h others, fuel + 1, hfuel => by
    rw [List.length_append, List.length_cons, List.length_append, List.length_cons] at hfuel
    obtain ⟨left, hread, hleft⟩ :=
      SpellsPadded.read hN (endsNumber_comma (more ++ '\x7d' :: rest)) h fuel (by omega)
    rw [List.append_assoc, List.cons_append, List.append_assoc, List.cons_append,
      readFields_of_more key hread (hleft.trans (skipGap_cons rfl _)),
      SpellsFields.read hN rest others fuel (by omega), Option.map_some]

end

/-- A text that stands for a value is read as the value. -/
theorem SpellsText.read {text : String} (h : SpellsText N text v) (hN : Admits N) :
    parse? text = some v := by
  have hend : EndsNumber [] := by
    rintro c ⟨⟩
  obtain ⟨left, hread, hleft⟩ :=
    SpellsPadded.read hN hend h (2 * text.toList.length + 2) (by omega)
  rw [List.append_nil] at hread
  rw [parse?, hread]
  exact if_pos hleft

/-! ### From the reader to the grammar -/

/-- The blanks that were passed over belong to the value. -/
theorem Spells.padded {body left tail : List Char} (h : Spells N d body v)
    (hcs : skipGap cs = body ++ left) (hleft : skipGap left = tail) :
    ∃ padded, SpellsPadded N d padded v ∧ cs = padded ++ tail := by
  obtain ⟨before, hbefore, hsplit⟩ := exists_gaps cs
  obtain ⟨after, hafter, hsplit'⟩ := exists_gaps left
  refine ⟨before ++ body ++ after, .mk hbefore h hafter, ?_⟩
  rw [hsplit, hcs, hsplit', hleft]
  simp only [List.append_assoc]

theorem exists_keyText {more left tail key : List Char} (hquote : skipGap cs = '"' :: more)
    (hread : readString more = some (key, left)) (hcolon : skipGap left = ':' :: tail) :
    ∃ ks, KeyText ks (String.ofList key) ∧ cs = ks ++ ':' :: tail := by
  obtain ⟨before, hbefore, hsplit⟩ := exists_gaps cs
  obtain ⟨after, hafter, hsplit'⟩ := exists_gaps left
  obtain ⟨body, hbody, rfl⟩ := exists_bodyText hread
  refine ⟨before ++ ('"' :: body ++ ['"']) ++ after, .mk hbefore (.mk hbody) hafter, ?_⟩
  rw [hsplit, hquote, hsplit', hcolon]
  simp

mutual

/-- What is read off a text is what its front stands for, behind the blanks. -/
theorem exists_spells : ∀ fuel {d : Nat} {cs rest : List Char} {v : Json},
    readValue fuel d cs = some (v, rest) →
      ∃ body, Spells IsNumber d body v ∧ skipGap cs = body ++ rest
  | 0, _, _, _, _, h => by cases h
  | fuel + 1, d, cs, rest, v, h => by
    rw [readValue] at h
    generalize skipGap cs = text at h ⊢
    -- The first character behind the blanks decides what kind of value there is.
    split at h
    case h_1 =>
      cases h
      exact ⟨_, .null, rfl⟩
    case h_2 =>
      cases h
      exact ⟨_, .bool true, rfl⟩
    case h_3 =>
      cases h
      exact ⟨_, .bool false, rfl⟩
    case h_4 more =>
      obtain ⟨⟨ds, rest'⟩, hread, hsame⟩ := Option.map_eq_some_iff.mp h
      obtain ⟨rfl, rfl⟩ := Prod.mk.inj hsame
      obtain ⟨body, hbody, rfl⟩ := exists_bodyText hread
      exact ⟨_, .str (.mk hbody), by simp⟩
    case h_5 more =>
      split at h
      · cases h
      obtain ⟨gap, hgap, hmore⟩ := exists_gaps more
      split at h
      · next hend =>
        cases h
        rw [hend] at hmore
        exact ⟨_, .arrEmpty hgap, by rw [hmore]; simp⟩
      · rw [readItems_skipGap] at h
        obtain ⟨⟨vs, rest'⟩, hread, hsame⟩ := Option.map_eq_some_iff.mp h
        obtain ⟨rfl, rfl⟩ := Prod.mk.inj hsame
        obtain ⟨body, hbody, rfl⟩ := exists_spellsItems fuel hread
        exact ⟨_, .arr hbody, by simp⟩
    case h_6 more =>
      split at h
      · cases h
      obtain ⟨gap, hgap, hmore⟩ := exists_gaps more
      split at h
      · next hend =>
        cases h
        rw [hend] at hmore
        exact ⟨_, .objEmpty hgap, by rw [hmore]; simp⟩
      · rw [readFields_skipGap] at h
        obtain ⟨⟨fs, rest'⟩, hread, hsame⟩ := Option.map_eq_some_iff.mp h
        obtain ⟨rfl, rfl⟩ := Prod.mk.inj hsame
        obtain ⟨body, hbody, rfl⟩ := exists_spellsFields fuel hread
        exact ⟨_, .obj hbody, by simp⟩
    case h_7 =>
      obtain ⟨body, number, hnumber, rfl, hsame⟩ := exists_isNumber h
      exact ⟨body, .num hnumber, hsame⟩

/-- What is read as the items of an array is what the text up to its end stands for. -/
theorem exists_spellsItems : ∀ fuel {d : Nat} {cs rest : List Char} {vs : List Json},
    readItems fuel d cs = some (vs, rest) →
      ∃ body, SpellsItems IsNumber d body vs ∧ cs = body ++ ']' :: rest
  | 0, _, _, _, _, h => by cases h
  | fuel + 1, d, cs, rest, vs, h => by
    rw [readItems] at h
    split at h
    · cases h
    next v left hread =>
    obtain ⟨body, hbody, hcs⟩ := exists_spells fuel hread
    split at h
    case h_1 more hleft =>
      obtain ⟨⟨vs', rest'⟩, hmore, hsame⟩ := Option.map_eq_some_iff.mp h
      obtain ⟨rfl, rfl⟩ := Prod.mk.inj hsame
      obtain ⟨padded, hpadded, rfl⟩ := hbody.padded hcs hleft
      obtain ⟨others, hothers, rfl⟩ := exists_spellsItems fuel hmore
      exact ⟨_, .more hpadded hothers, by simp⟩
    case h_2 hleft =>
      cases h
      obtain ⟨padded, hpadded, rfl⟩ := hbody.padded hcs hleft
      exact ⟨padded, .last hpadded, rfl⟩
    case h_3 => cases h

/-- What is read as the fields of an object is what the text up to its end stands for. -/
theorem exists_spellsFields : ∀ fuel {d : Nat} {cs rest : List Char} {fs : List (String × Json)},
    readFields fuel d cs = some (fs, rest) →
      ∃ body, SpellsFields IsNumber d body fs ∧ cs = body ++ '\x7d' :: rest
  | 0, _, _, _, _, h => by cases h
  | fuel + 1, d, cs, rest, fs, h => by
    rw [readFields] at h
    split at h
    case h_2 => cases h
    case h_1 more hquote =>
    split at h
    case h_1 => cases h
    case h_2 key left hread =>
    split at h
    case h_2 => cases h
    case h_1 behind hcolon =>
    obtain ⟨ks, hkey, rfl⟩ := exists_keyText hquote hread hcolon
    split at h
    case h_1 => cases h
    case h_2 v left hread =>
    obtain ⟨body, hbody, hcs⟩ := exists_spells fuel hread
    split at h
    case h_1 more hleft =>
      obtain ⟨⟨fs', rest'⟩, hmore, hsame⟩ := Option.map_eq_some_iff.mp h
      obtain ⟨rfl, rfl⟩ := Prod.mk.inj hsame
      obtain ⟨padded, hpadded, rfl⟩ := hbody.padded hcs hleft
      obtain ⟨others, hothers, rfl⟩ := exists_spellsFields fuel hmore
      exact ⟨_, .more hkey hpadded hothers, by simp⟩
    case h_2 hleft =>
      cases h
      obtain ⟨padded, hpadded, rfl⟩ := hbody.padded hcs hleft
      exact ⟨_, .last hkey hpadded, by simp⟩
    case h_3 => cases h

end

/-- What is read is what the text stands for, and nothing is read where it stands for no value. -/
theorem parse?_eq_some_iff {text : String} : parse? text = some v ↔ SpellsText IsNumber text v := by
  constructor
  · intro h
    unfold parse? at h
    split at h
    case h_2 => cases h
    case h_1 v' left hread =>
    split at h
    case isFalse => cases h
    case isTrue hend =>
      cases h
      obtain ⟨body, hbody, hcs⟩ := exists_spells _ hread
      obtain ⟨padded, hpadded, htext⟩ := hbody.padded hcs hend
      rw [List.append_nil] at htext
      rwa [SpellsText, htext]
  · exact fun h => h.read admits_isNumber

end TreeConsole.Json
