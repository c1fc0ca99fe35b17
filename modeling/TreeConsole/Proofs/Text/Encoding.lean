import TreeConsole.Text.Utf8

/-!
# Reading back what was written

The reader of UTF-8 is a machine that takes one byte at a time, and the writer is the encoding of
the core library. What the one writes the other reads: over the bytes of a character the machine
goes through the states that owe one byte less each time, and at the end it has the character. The
narrowed ranges after four of the first bytes are met because a character is written in the shortest
form and is no surrogate.

A line feed is written as one byte and that byte has no other use, so that cutting bytes into lines
is cutting the text into lines.

## Main results

* `decode_encode` — reading gives back what was written
* `lineFeed_mem_encode_iff` — the byte that ends a line is written for a line feed only
* `lines_flatMap_line` — lines that are written one after the other are read one after the other
-/

namespace TreeConsole.Utf8

variable {bits owed n : Nat} {low high : UInt8} {cs : List Char}

/-! ### One byte -/

theorem decodeFrom_cons (p : Pending) (b : UInt8) (bs : Bytes) :
    decodeFrom p (b :: bs) = (step p b).1 ++ decodeFrom (step p b).2 bs := rfl

theorem step_idle (b : UInt8) : step .idle b = lead b := rfl

/-- The bytes that may follow the first one of a character carry six bits each. -/
theorem step_within (hn : n < 64) (hlow : low.toNat ≤ n + 128) (hhigh : n + 128 ≤ high.toNat) :
    step (.within bits owed low high) (UInt8.ofNat (n + 128)) =
      if owed ≤ 1 then ([Char.ofNat (bits * 64 + n)], .idle)
      else ([], .within (bits * 64 + n) (owed - 1) 0x80 0xBF) := by
  have hbyte : (UInt8.ofNat (n + 128)).toNat = n + 128 := by
    rw [UInt8.toNat_ofNat']
    omega
  have hrange : low ≤ UInt8.ofNat (n + 128) ∧ UInt8.ofNat (n + 128) ≤ high := by
    rw [UInt8.le_iff_toNat_le, UInt8.le_iff_toNat_le, hbyte]
    exact ⟨hlow, hhigh⟩
  rw [step, if_pos hrange, hbyte, Nat.add_sub_cancel]

/-- Any byte after the first but the last leaves one byte less to come. -/
theorem step_more (bits owed : Nat) (hn : n < 64) (hlow : low.toNat ≤ n + 128)
    (hhigh : n + 128 ≤ high.toNat) :
    step (.within bits (owed + 2) low high) (UInt8.ofNat (n + 128)) =
      ([], .within (bits * 64 + n) (owed + 1) 0x80 0xBF) := by
  rw [step_within hn hlow hhigh, if_neg (by omega)]
  rfl

theorem full_range (hn : n < 64) :
    (0x80 : UInt8).toNat ≤ n + 128 ∧ n + 128 ≤ (0xBF : UInt8).toNat :=
  ⟨Nat.le_add_left 128 n, Nat.add_le_add_right (Nat.le_of_lt_succ hn) 128⟩

/-- The last byte of a character completes it. -/
theorem step_last (bits : Nat) (hn : n < 64) :
    step (.within bits 1 0x80 0xBF) (UInt8.ofNat (n + 128)) =
      ([Char.ofNat (bits * 64 + n)], .idle) := by
  rw [step_within hn (full_range hn).1 (full_range hn).2, if_pos (Nat.le_refl 1)]

theorem lead_one (hn : n ≤ 127) : lead (UInt8.ofNat n) = ([Char.ofNat n], .idle) := by
  have hbyte : (UInt8.ofNat n).toNat = n := by
    rw [UInt8.toNat_ofNat']
    omega
  have hlt : UInt8.ofNat n < 0x80 := by
    rw [UInt8.lt_iff_toNat_lt, hbyte]
    exact Nat.lt_succ_of_le hn
  rw [lead, if_pos hlt, hbyte]

/-- The first of two bytes. Below two it would begin a form that is longer than it has to be. -/
theorem lead_two (hn : n < 32) (h : 2 ≤ n) :
    lead (UInt8.ofNat (n + 192)) = ([], .within n 1 0x80 0xBF) := by
  have hall : ∀ m < 32, 2 ≤ m → lead (UInt8.ofNat (m + 192)) = ([], .within m 1 0x80 0xBF) := by
    decide
  exact hall n hn h

/-- The first of three bytes, and the range that it leaves to the second. -/
theorem lead_three (hn : n < 16) :
    lead (UInt8.ofNat (n + 224)) =
      ([], .within n 2 (if n = 0 then 0xA0 else 0x80) (if n = 13 then 0x9F else 0xBF)) := by
  have hall : ∀ m < 16, lead (UInt8.ofNat (m + 224)) =
      ([], .within m 2 (if m = 0 then 0xA0 else 0x80) (if m = 13 then 0x9F else 0xBF)) := by
    decide
  exact hall n hn

/-- The first of four bytes, and the range that it leaves to the second. -/
theorem lead_four (hn : n < 5) :
    lead (UInt8.ofNat (n + 240)) =
      ([], .within n 3 (if n = 0 then 0x90 else 0x80) (if n = 4 then 0x8F else 0xBF)) := by
  have hall : ∀ m < 5, lead (UInt8.ofNat (m + 240)) =
      ([], .within m 3 (if m = 0 then 0x90 else 0x80) (if m = 4 then 0x8F else 0xBF)) := by
    decide
  exact hall n hn

/-! ### One character -/

section Forms

variable {v : Nat}

theorem decodeFrom_one (h : v ≤ 127) (bs : Bytes) :
    decodeFrom .idle (UInt8.ofNat v :: bs) = Char.ofNat v :: decodeFrom .idle bs := by
  simp only [decodeFrom_cons, step_idle, lead_one h, List.cons_append, List.nil_append]

theorem decodeFrom_two (h : 127 < v) (h' : v ≤ 2047) (bs : Bytes) :
    decodeFrom .idle (UInt8.ofNat (v / 64 % 32 + 192) :: UInt8.ofNat (v % 64 + 128) :: bs) =
      Char.ofNat v :: decodeFrom .idle bs := by
  have hbits : v / 64 % 32 * 64 + v % 64 = v := by omega
  have hfirst := lead_two (n := v / 64 % 32) (by omega) (by omega)
  have hlast : v % 64 < 64 := Nat.mod_lt v (by decide)
  have hsecond := step_last (v / 64 % 32) hlast
  rw [hbits] at hsecond
  simp only [decodeFrom_cons, step_idle, hfirst, hsecond, List.cons_append, List.nil_append]

theorem decodeFrom_three (h : 2047 < v) (h' : v ≤ 65535) (hv : v < 0xD800 ∨ 0xDFFF < v)
    (bs : Bytes) :
    decodeFrom .idle (UInt8.ofNat (v / 4096 % 16 + 224) :: UInt8.ofNat (v / 64 % 64 + 128) ::
      UInt8.ofNat (v % 64 + 128) :: bs) = Char.ofNat v :: decodeFrom .idle bs := by
  have hbits : (v / 4096 % 16 * 64 + v / 64 % 64) * 64 + v % 64 = v := by omega
  have hfirst := lead_three (n := v / 4096 % 16) (by omega)
  -- The second byte is in its range: the form is the shortest, and there are no surrogates.
  have hmiddle : v / 64 % 64 < 64 := Nat.mod_lt _ (by decide)
  have hlow : (if v / 4096 % 16 = 0 then 0xA0 else 0x80 : UInt8).toNat ≤ v / 64 % 64 + 128 := by
    split
    · change 160 ≤ v / 64 % 64 + 128
      omega
    · exact (full_range hmiddle).1
  have hhigh : v / 64 % 64 + 128 ≤ (if v / 4096 % 16 = 13 then 0x9F else 0xBF : UInt8).toNat := by
    split
    · change v / 64 % 64 + 128 ≤ 159
      omega
    · exact (full_range hmiddle).2
  have hsecond := step_more (v / 4096 % 16) 0 hmiddle hlow hhigh
  have hlast : v % 64 < 64 := Nat.mod_lt v (by decide)
  have hthird := step_last (v / 4096 % 16 * 64 + v / 64 % 64) hlast
  rw [hbits] at hthird
  simp only [decodeFrom_cons, step_idle, hfirst, hsecond, hthird, List.cons_append, List.nil_append]

theorem decodeFrom_four (h : 65535 < v) (h' : v < 0x110000) (bs : Bytes) :
    decodeFrom .idle (UInt8.ofNat (v / 262144 % 8 + 240) :: UInt8.ofNat (v / 4096 % 64 + 128) ::
      UInt8.ofNat (v / 64 % 64 + 128) :: UInt8.ofNat (v % 64 + 128) :: bs) =
        Char.ofNat v :: decodeFrom .idle bs := by
  have hbits : ((v / 262144 % 8 * 64 + v / 4096 % 64) * 64 + v / 64 % 64) * 64 + v % 64 = v := by
    omega
  have hfirst := lead_four (n := v / 262144 % 8) (by omega)
  -- The second byte is in its range: the form is the shortest, and the last plane is not passed.
  have hplane : v / 4096 % 64 < 64 := Nat.mod_lt _ (by decide)
  have hlow : (if v / 262144 % 8 = 0 then 0x90 else 0x80 : UInt8).toNat ≤ v / 4096 % 64 + 128 := by
    split
    · change 144 ≤ v / 4096 % 64 + 128
      omega
    · exact (full_range hplane).1
  have hhigh : v / 4096 % 64 + 128 ≤ (if v / 262144 % 8 = 4 then 0x8F else 0xBF : UInt8).toNat := by
    split
    · change v / 4096 % 64 + 128 ≤ 143
      omega
    · exact (full_range hplane).2
  have hsecond := step_more (v / 262144 % 8) 1 hplane hlow hhigh
  have hmiddle : v / 64 % 64 < 64 := Nat.mod_lt _ (by decide)
  have hthird := step_more (v / 262144 % 8 * 64 + v / 4096 % 64) 0 hmiddle (full_range hmiddle).1
    (full_range hmiddle).2
  have hlast : v % 64 < 64 := Nat.mod_lt v (by decide)
  have hfourth := step_last ((v / 262144 % 8 * 64 + v / 4096 % 64) * 64 + v / 64 % 64) hlast
  rw [hbits] at hfourth
  simp only [decodeFrom_cons, step_idle, hfirst, hsecond, hthird, hfourth, List.cons_append,
    List.nil_append]

end Forms

/-- Reading a character off the front of some bytes leaves the machine between two characters. -/
theorem decodeFrom_encodeChar_append (c : Char) (bs : Bytes) :
    decodeFrom .idle (String.utf8EncodeChar c ++ bs) = c :: decodeFrom .idle bs := by
  obtain ⟨v, hv⟩ : ∃ v, c.val.toNat = v := ⟨_, rfl⟩
  have hchar : Char.ofNat v = c := by
    rw [← hv]
    exact Char.ofNat_toNat c
  have hvalid : v < 0xD800 ∨ 0xDFFF < v ∧ v < 0x110000 := by
    rw [← hv]
    exact c.valid
  simp only [String.utf8EncodeChar, hv]
  rw [← hchar]
  -- By the length of the form.
  by_cases h1 : v ≤ 127
  · rw [if_pos h1]
    exact decodeFrom_one h1 bs
  by_cases h2 : v ≤ 2047
  · rw [if_neg h1, if_pos h2]
    exact decodeFrom_two (by omega) h2 bs
  by_cases h3 : v ≤ 65535
  · rw [if_neg h1, if_neg h2, if_pos h3]
    exact decodeFrom_three (by omega) h3 (by omega) bs
  · rw [if_neg h1, if_neg h2, if_neg h3]
    exact decodeFrom_four (by omega) (by omega) bs

/-! ### Texts -/

theorem encode_cons (c : Char) (cs : List Char) :
    encode (c :: cs) = String.utf8EncodeChar c ++ encode cs := rfl

theorem encode_append (cs ds : List Char) : encode (cs ++ ds) = encode cs ++ encode ds :=
  List.flatMap_append

/-- Reading gives back what was written. -/
theorem decode_encode (cs : List Char) : decode (encode cs) = cs := by
  unfold decode
  induction cs with
  | nil => rfl
  | cons c cs ih => rw [encode_cons, decodeFrom_encodeChar_append, ih]

theorem toText_ofText (s : String) : toText (ofText s) = s := by
  rw [toText, ofText, decode_encode, String.ofList_toList]

/-! ### Lines -/

theorem length_ofText_pos {s : String} (h : s ≠ "") : 0 < (ofText s).length := by
  refine List.length_pos_iff.mpr fun hnil => ?_
  have hread := toText_ofText s
  rw [hnil] at hread
  exact h hread.symm

/-- In a form of more than one byte every byte has its highest bit set. -/
theorem le_toNat_of_mem_encodeChar {c : Char} {b : UInt8} (hc : 127 < c.val.toNat)
    (hb : b ∈ String.utf8EncodeChar c) : 128 ≤ b.toNat := by
  simp only [String.utf8EncodeChar, if_neg (Nat.not_le.mpr hc)] at hb
  split at hb
  · simp only [List.mem_cons, List.not_mem_nil, or_false] at hb
    rcases hb with rfl | rfl <;> rw [UInt8.toNat_ofNat'] <;> omega
  · split at hb
    · simp only [List.mem_cons, List.not_mem_nil, or_false] at hb
      rcases hb with rfl | rfl | rfl <;> rw [UInt8.toNat_ofNat'] <;> omega
    · simp only [List.mem_cons, List.not_mem_nil, or_false] at hb
      rcases hb with rfl | rfl | rfl | rfl <;> rw [UInt8.toNat_ofNat'] <;> omega

/-- The byte that ends a line is written for a line feed only. -/
theorem lineFeed_mem_encodeChar_iff {c : Char} : lineFeed ∈ String.utf8EncodeChar c ↔ c = '\n' := by
  constructor
  · intro h
    have hc : c.val.toNat ≤ 127 := by
      apply Nat.le_of_not_lt
      intro hlong
      exact absurd (le_toNat_of_mem_encodeChar hlong h) (by decide)
    simp only [String.utf8EncodeChar, if_pos hc, List.mem_singleton] at h
    have hten := congrArg UInt8.toNat h
    rw [UInt8.toNat_ofNat', Nat.mod_eq_of_lt (by omega)] at hten
    have hval : c.toNat = 10 := hten.symm
    rw [← Char.ofNat_toNat c, hval]
  · rintro rfl
    decide

theorem lineFeed_mem_encode_iff : lineFeed ∈ encode cs ↔ '\n' ∈ cs := by
  rw [encode, List.mem_flatMap]
  constructor
  · rintro ⟨c, hc, hbyte⟩
    exact lineFeed_mem_encodeChar_iff.mp hbyte ▸ hc
  · intro h
    exact ⟨'\n', h, lineFeed_mem_encodeChar_iff.mpr rfl⟩

/-- The first line ends with the first line feed. -/
theorem lines_append_lineFeed {bs rest : Bytes} (h : lineFeed ∉ bs) :
    lines (bs ++ lineFeed :: rest) = (bs ++ [lineFeed]) :: lines rest := by
  induction bs with
  | nil => simp [lines]
  | cons b bs ih =>
    obtain ⟨hb, hbs⟩ := not_or.mp (fun hmem => h (List.mem_cons.mpr hmem))
    have hne : ¬ b = lineFeed := fun heq => hb heq.symm
    simp only [List.cons_append, lines, if_neg hne, ih hbs]

theorem ofText_line (s : String) : ofText (s ++ "\n") = ofText s ++ [lineFeed] := by
  rw [ofText, String.toList_append, encode_append]
  rfl

/-- Lines that are written one after the other are read one after the other. -/
theorem lines_flatMap_line {texts : List String} (h : ∀ s ∈ texts, '\n' ∉ s.toList) :
    lines (texts.flatMap fun s => ofText (s ++ "\n")) = texts.map fun s => ofText (s ++ "\n") := by
  induction texts with
  | nil => rfl
  | cons s texts ih =>
    have hs : lineFeed ∉ ofText s := fun hmem =>
      h s List.mem_cons_self (lineFeed_mem_encode_iff.mp hmem)
    have htexts := ih fun s' hs' => h s' (List.mem_cons_of_mem s hs')
    rw [List.flatMap_cons, List.map_cons, ← htexts, ofText_line, List.append_assoc,
      List.singleton_append, lines_append_lineFeed hs]

end TreeConsole.Utf8
