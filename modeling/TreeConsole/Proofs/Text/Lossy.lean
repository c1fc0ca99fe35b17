import Mathlib.Data.List.Infix
import TreeConsole.Proofs.Text.Encoding

/-!
# What is read where bytes are no text

Bytes that are no text are read all the same. Where the form of a character stands it is read, and
where none does, one replacement character is read for as many bytes as could still have become a
form, or for the one byte that cannot begin any. This says all of what is read, without the machine
that reads it.

The machine stands in the middle of a form exactly as long as the bytes it has seen can be completed
to one, and it accepts the bytes that keep it so. Both are read off what completes a state: the
bytes it still takes, in the ranges it has for them.

## Main definitions

* `ReadsAs` — what some bytes are read as
* `Begun` — the bytes of a form that is under way

## Main results

* `readsAs_iff` — the machine reads what is to be read
-/

namespace TreeConsole.Utf8

variable {part bs xs ys : Bytes} {cs : List Char} {b : UInt8} {n bits owed : Nat}
  {low high : UInt8}

/-- Bytes with which the form of some character begins; they may be all of it. -/
def Begins (part : Bytes) : Prop := ∃ c, part <+: String.utf8EncodeChar c

/-- What some bytes are read as. A part that is no form is replaced, as long a part as begins a form
or, where no form begins, one byte. -/
inductive ReadsAs : Bytes → List Char → Prop
  | nil : ReadsAs [] []
  | char {bs : Bytes} {cs : List Char} (c : Char) (rest : ReadsAs bs cs) :
    ReadsAs (String.utf8EncodeChar c ++ bs) (c :: cs)
  | invalid {part bs : Bytes} {cs : List Char} (nonempty : part ≠ [])
    (begins : Begins part ∨ part.length = 1) (incomplete : ∀ c, part ≠ String.utf8EncodeChar c)
    (maximal : ∀ longer, part <+: longer → longer <+: part ++ bs → Begins longer → longer = part)
    (rest : ReadsAs bs cs) : ReadsAs (part ++ bs) (replacement :: cs)

/-! ### The machine -/

theorem lead_ne (b : UInt8) : (lead b).1 ≠ [] ∨ (lead b).2 ≠ .idle := by
  unfold lead
  repeat' split
  all_goals simp

theorem step_ne (p : Pending) (b : UInt8) : (step p b).1 ≠ [] ∨ (step p b).2 ≠ .idle := by
  cases p with
  | idle => exact lead_ne b
  | within bits owed low high =>
    by_cases hb : low ≤ b ∧ b ≤ high
    · rw [step, if_pos hb]
      split
      · exact Or.inl (List.cons_ne_nil _ _)
      · exact Or.inr (by simp)
    · rw [step, if_neg hb]
      exact Or.inl (List.cons_ne_nil _ _)

/-- Where there are bytes, or a form is under way, something is read. -/
theorem decodeFrom_ne_nil {p : Pending} (h : bs ≠ [] ∨ p ≠ .idle) : decodeFrom p bs ≠ [] := by
  induction bs generalizing p with
  | nil =>
    cases p with
    | idle => simp at h
    | within => exact List.cons_ne_nil _ _
  | cons b bs ih =>
    rw [decodeFrom_cons]
    rcases step_ne p b with hsome | hpending
    · exact List.append_ne_nil_of_left_ne_nil hsome _
    · exact List.append_ne_nil_of_right_ne_nil _ (ih (Or.inr hpending))

/-- A byte that does not go on with a form ends it and is read on its own. -/
theorem decodeFrom_of_not_in_range (h : ¬ (low ≤ b ∧ b ≤ high)) (bs : Bytes) :
    decodeFrom (.within bits owed low high) (b :: bs) = replacement :: decode (b :: bs) := by
  rw [decodeFrom_cons, step, if_neg h]
  rfl

theorem decode_encodeChar_append (c : Char) (bs : Bytes) :
    decode (String.utf8EncodeChar c ++ bs) = c :: decode bs := decodeFrom_encodeChar_append c bs

/-- No form begins another. -/
theorem encodeChar_inj_of_prefix {c d : Char}
    (h : String.utf8EncodeChar c <+: String.utf8EncodeChar d) : c = d := by
  obtain ⟨rest, hrest⟩ := h
  have hread := decode_encodeChar_append c rest
  rw [hrest, ← List.append_nil (String.utf8EncodeChar d), decode_encodeChar_append] at hread
  exact (List.cons.inj hread).1.symm

/-! ### Forms that are under way -/

/-- The bytes that complete a form: so many, the first of them in some range. -/
def Completes : Nat → UInt8 → UInt8 → Bytes → Prop
  | 0, _, _, tail => tail = []
  | owed + 1, low, high, tail =>
    ∃ b more, tail = b :: more ∧ (low ≤ b ∧ b ≤ high) ∧ Completes owed 0x80 0xBF more

theorem completes_replicate (n : Nat) : Completes n 0x80 0xBF (List.replicate n 0x80) := by
  induction n with
  | zero => rfl
  | succ n ih => exact ⟨0x80, List.replicate n 0x80, rfl, by decide, ih⟩

/-- The bytes of a form that is under way, and what the machine knows of it. -/
structure Begun (part : Bytes) (bits owed : Nat) (low high : UInt8) : Prop where
  range : low ≤ high
  read : ∀ bs, decode (part ++ bs) = decodeFrom (.within bits (owed + 1) low high) bs
  completed : ∀ tail, Completes (owed + 1) low high tail →
    ∃ c, part ++ tail = String.utf8EncodeChar c

namespace Begun

/-- A byte that the machine accepts goes on with a form. -/
theorem begins_append (h : Begun part bits owed low high) (hb : low ≤ b ∧ b ≤ high) :
    Begins (part ++ [b]) := by
  obtain ⟨c, hc⟩ := h.completed (b :: List.replicate owed 0x80)
    ⟨b, _, rfl, hb, completes_replicate owed⟩
  exact ⟨c, List.replicate owed 0x80, by rw [← hc, List.append_assoc]; rfl⟩

theorem begins (h : Begun part bits owed low high) : Begins part := by
  obtain ⟨c, hc⟩ := h.begins_append ⟨UInt8.le_refl low, h.range⟩
  exact ⟨c, (List.prefix_append part [low]).trans hc⟩

/-- And a byte that goes on with a form is accepted: otherwise what is read for the form would begin
with a replacement and go on with what is read for the byte. -/
theorem in_range (h : Begun part bits owed low high) (hb : Begins (part ++ [b])) :
    low ≤ b ∧ b ≤ high := by
  by_contra hout
  obtain ⟨c, rest, hrest⟩ := hb
  have hform := decode_encodeChar_append c []
  rw [← hrest, List.append_nil, List.append_assoc, List.singleton_append, h.read,
    decodeFrom_of_not_in_range hout] at hform
  exact decodeFrom_ne_nil (Or.inl (List.cons_ne_nil b rest)) (List.cons.inj hform).2

/-- What is under way is not complete. -/
theorem incomplete (h : Begun part bits owed low high) (c : Char) :
    part ≠ String.utf8EncodeChar c := by
  rintro rfl
  obtain ⟨d, rest, hrest⟩ := h.begins_append ⟨UInt8.le_refl low, h.range⟩
  rw [List.append_assoc] at hrest
  obtain rfl := encodeChar_inj_of_prefix ⟨_, hrest⟩
  exact absurd (List.append_right_eq_self.mp hrest) (List.cons_ne_nil _ _)

/-- The last byte completes the form of the character that is read. -/
theorem complete (h : Begun part bits 0 low high) (hb : low ≤ b ∧ b ≤ high) :
    part ++ [b] = String.utf8EncodeChar (Char.ofNat (bits * 64 + (b.toNat - 0x80))) := by
  obtain ⟨c, hc⟩ := h.completed [b] ⟨b, [], rfl, hb, rfl⟩
  have hread := h.read [b]
  have hform := decode_encodeChar_append c []
  rw [List.append_nil, ← hc, hread, decodeFrom_cons, step, if_pos hb] at hform
  rw [hc, ← (List.cons.inj hform).1]

/-- Any other byte that is accepted leaves the form under way. -/
theorem more (h : Begun part bits (owed + 1) low high) (hb : low ≤ b ∧ b ≤ high) :
    Begun (part ++ [b]) (bits * 64 + (b.toNat - 0x80)) owed 0x80 0xBF where
  range := by decide
  read bs := by
    rw [List.append_assoc, List.singleton_append, h.read, decodeFrom_cons, step, if_pos hb,
      if_neg (by omega)]
    rfl
  completed tail htail := by
    rw [List.append_assoc]
    exact h.completed (b :: tail) ⟨b, tail, rfl, hb, htail⟩

end Begun

/-! ### How a form begins -/

theorem val_ofNat {v : Nat} (h : v.isValidChar) : (Char.ofNat v).val.toNat = v := by
  rw [Char.ofNat, dif_pos h]
  rfl

/-- A byte that follows the first one of a form carries six bits, fewer of them where its range is
narrowed. -/
theorem exists_of_range (h : low ≤ b ∧ b ≤ high) (hlow : 0x80 ≤ low) (hhigh : high ≤ 0xBF) :
    ∃ m < 64, low.toNat ≤ m + 128 ∧ m + 128 ≤ high.toNat ∧ b = UInt8.ofNat (m + 128) := by
  have hleast : 128 ≤ b.toNat := UInt8.le_iff_toNat_le.mp (UInt8.le_trans hlow h.1)
  have hmost : b.toNat ≤ 191 := UInt8.le_iff_toNat_le.mp (UInt8.le_trans h.2 hhigh)
  refine ⟨b.toNat - 128, by omega, ?_⟩
  rw [Nat.sub_add_cancel hleast, UInt8.ofNat_toNat]
  exact ⟨UInt8.le_iff_toNat_le.mp h.1, UInt8.le_iff_toNat_le.mp h.2, rfl⟩

theorem exists_of_full_range (h : 0x80 ≤ b ∧ b ≤ 0xBF) : ∃ m < 64, b = UInt8.ofNat (m + 128) := by
  obtain ⟨m, hm, -, -, hb⟩ := exists_of_range h (UInt8.le_refl _) (UInt8.le_refl _)
  exact ⟨m, hm, hb⟩

section Forms

variable {m k l : Nat}

theorem encodeChar_two (h : 2 ≤ n) (hn : n < 32) (hm : m < 64) :
    String.utf8EncodeChar (Char.ofNat (n * 64 + m)) =
      [UInt8.ofNat (n + 192), UInt8.ofNat (m + 128)] := by
  have hval := val_ofNat (v := n * 64 + m) (Or.inl (by omega))
  have hfirst : (n * 64 + m) / 64 % 32 = n := by omega
  have hlast : (n * 64 + m) % 64 = m := by omega
  simp only [String.utf8EncodeChar, hval, hfirst, hlast]
  rw [if_neg (by omega), if_pos (by omega)]

theorem encodeChar_three (hn : n < 16) (hm : m < 64) (hk : k < 64) (hshort : n = 0 → 32 ≤ m)
    (hsurrogate : n = 13 → m < 32) :
    String.utf8EncodeChar (Char.ofNat ((n * 64 + m) * 64 + k)) =
      [UInt8.ofNat (n + 224), UInt8.ofNat (m + 128), UInt8.ofNat (k + 128)] := by
  have hval := val_ofNat (v := (n * 64 + m) * 64 + k) (by unfold Nat.isValidChar; omega)
  have hfirst : ((n * 64 + m) * 64 + k) / 4096 % 16 = n := by omega
  have hmiddle : ((n * 64 + m) * 64 + k) / 64 % 64 = m := by omega
  have hlast : ((n * 64 + m) * 64 + k) % 64 = k := by omega
  simp only [String.utf8EncodeChar, hval, hfirst, hmiddle, hlast]
  rw [if_neg (by omega), if_neg (by omega), if_pos (by omega)]

theorem encodeChar_four (hn : n < 5) (hm : m < 64) (hk : k < 64) (hl : l < 64)
    (hshort : n = 0 → 16 ≤ m) (hplanes : n = 4 → m < 16) :
    String.utf8EncodeChar (Char.ofNat (((n * 64 + m) * 64 + k) * 64 + l)) =
      [UInt8.ofNat (n + 240), UInt8.ofNat (m + 128), UInt8.ofNat (k + 128),
        UInt8.ofNat (l + 128)] := by
  have hval := val_ofNat (v := ((n * 64 + m) * 64 + k) * 64 + l) (Or.inr (by omega))
  have hfirst : (((n * 64 + m) * 64 + k) * 64 + l) / 262144 % 8 = n := by omega
  have hplane : (((n * 64 + m) * 64 + k) * 64 + l) / 4096 % 64 = m := by omega
  have hmiddle : (((n * 64 + m) * 64 + k) * 64 + l) / 64 % 64 = k := by omega
  have hlast : (((n * 64 + m) * 64 + k) * 64 + l) % 64 = l := by omega
  simp only [String.utf8EncodeChar, hval, hfirst, hplane, hmiddle, hlast]
  rw [if_neg (by omega), if_neg (by omega), if_neg (by omega)]

end Forms

/-- A form of two bytes is under way after its first byte. -/
theorem begun_two (h : 2 ≤ n) (hn : n < 32) : Begun [UInt8.ofNat (n + 192)] n 0 0x80 0xBF where
  range := by decide
  read bs := by
    rw [decode, List.singleton_append, decodeFrom_cons, step_idle, lead_two hn h]
    rfl
  completed := by
    rintro _ ⟨b, _, rfl, hb, rfl⟩
    obtain ⟨m, hm, rfl⟩ := exists_of_full_range hb
    exact ⟨_, (encodeChar_two h hn hm).symm⟩

/-- A form of three bytes is under way after its first byte. -/
theorem begun_three (hn : n < 16) : Begun [UInt8.ofNat (n + 224)] n 1
    (if n = 0 then 0xA0 else 0x80) (if n = 13 then 0x9F else 0xBF) where
  range := by
    split <;> split <;> first | decide | omega
  read bs := by
    rw [decode, List.singleton_append, decodeFrom_cons, step_idle, lead_three hn]
    rfl
  completed := by
    rintro _ ⟨b, _, rfl, hb, b', _, rfl, hb', rfl⟩
    obtain ⟨k, hk, rfl⟩ := exists_of_full_range hb'
    obtain ⟨m, hm, hlow, hhigh, rfl⟩ := exists_of_range hb
      (by split <;> decide) (by split <;> decide)
    have hshort : n = 0 → 32 ≤ m := by
      intro hzero
      rw [if_pos hzero] at hlow
      exact Nat.le_of_add_le_add_right (b := 128) hlow
    have hsurrogate : n = 13 → m < 32 := by
      intro hthirteen
      rw [if_pos hthirteen] at hhigh
      exact Nat.lt_of_add_lt_add_right (n := 128) (Nat.lt_succ_of_le hhigh)
    exact ⟨_, (encodeChar_three hn hm hk hshort hsurrogate).symm⟩

/-- A form of four bytes is under way after its first byte. -/
theorem begun_four (hn : n < 5) : Begun [UInt8.ofNat (n + 240)] n 2
    (if n = 0 then 0x90 else 0x80) (if n = 4 then 0x8F else 0xBF) where
  range := by
    split <;> split <;> first | decide | omega
  read bs := by
    rw [decode, List.singleton_append, decodeFrom_cons, step_idle, lead_four hn]
    rfl
  completed := by
    rintro _ ⟨b, _, rfl, hb, b', _, rfl, hb', b'', _, rfl, hb'', rfl⟩
    obtain ⟨k, hk, rfl⟩ := exists_of_full_range hb'
    obtain ⟨l, hl, rfl⟩ := exists_of_full_range hb''
    obtain ⟨m, hm, hlow, hhigh, rfl⟩ := exists_of_range hb
      (by split <;> decide) (by split <;> decide)
    have hshort : n = 0 → 16 ≤ m := by
      intro hzero
      rw [if_pos hzero] at hlow
      exact Nat.le_of_add_le_add_right (b := 128) hlow
    have hplanes : n = 4 → m < 16 := by
      intro hfour
      rw [if_pos hfour] at hhigh
      exact Nat.lt_of_add_lt_add_right (n := 128) (Nat.lt_succ_of_le hhigh)
    exact ⟨_, (encodeChar_four hn hm hk hl hshort hplanes).symm⟩

/-- A byte that begins no form is replaced. -/
theorem lead_of_invalid (h : 128 ≤ n) (h' : n < 194 ∨ 245 ≤ n) (hn : n < 256) :
    lead (UInt8.ofNat n) = ([replacement], .idle) := by
  have hlow : ∀ m < 66, lead (UInt8.ofNat (m + 128)) = ([replacement], .idle) := by decide
  have hhigh : ∀ m < 11, lead (UInt8.ofNat (m + 245)) = ([replacement], .idle) := by decide
  rcases h' with h' | h'
  · have hread := hlow (n - 128) (by omega)
    rwa [Nat.sub_add_cancel h] at hread
  · have hread := hhigh (n - 245) (by omega)
    rwa [Nat.sub_add_cancel h'] at hread

/-- A byte is a form, or begins one, or neither. -/
theorem lead_cases (b : UInt8) :
    (∃ c, String.utf8EncodeChar c = [b]) ∨ (∃ bits owed low high, Begun [b] bits owed low high) ∨
      lead b = ([replacement], .idle) := by
  obtain ⟨n, hn, rfl⟩ : ∃ n < 256, b = UInt8.ofNat n := ⟨b.toNat, b.toNat_lt, by simp⟩
  by_cases hone : n ≤ 127
  · refine Or.inl ⟨Char.ofNat n, ?_⟩
    have hval := val_ofNat (v := n) (Or.inl (by omega))
    simp only [String.utf8EncodeChar, hval, if_pos hone]
  by_cases hbad : n < 194 ∨ 245 ≤ n
  · exact Or.inr (Or.inr (lead_of_invalid (by omega) hbad hn))
  refine Or.inr (Or.inl ?_)
  by_cases htwo : n < 224
  · have hbegun := begun_two (n := n - 192) (by omega) (by omega)
    rw [Nat.sub_add_cancel (by omega)] at hbegun
    exact ⟨_, _, _, _, hbegun⟩
  by_cases hthree : n < 240
  · have hbegun := begun_three (n := n - 224) (by omega)
    rw [Nat.sub_add_cancel (by omega)] at hbegun
    exact ⟨_, _, _, _, hbegun⟩
  · have hbegun := begun_four (n := n - 240) (by omega)
    rw [Nat.sub_add_cancel (by omega)] at hbegun
    exact ⟨_, _, _, _, hbegun⟩

/-- Where the machine replaces a first byte, no form begins with it: the form of the replacement
itself does not. -/
theorem not_begins_of_lead (h : lead b = ([replacement], .idle)) : ¬ Begins [b] := by
  rintro ⟨c, rest, hrest⟩
  have hform := decode_encodeChar_append c []
  rw [List.append_nil, ← hrest, List.singleton_append, decode, decodeFrom_cons, step_idle,
    h] at hform
  obtain rfl : replacement = c := (List.cons.inj hform).1
  obtain rfl : b = 0xEF := (List.cons.inj hrest).1
  exact absurd h (by decide)

/-- With some of the bytes of a form, but not all, the form is under way. -/
theorem exists_begun (hnil : part ≠ []) (hbegins : Begins part)
    (hincomplete : ∀ c, part ≠ String.utf8EncodeChar c) :
    ∃ bits owed low high, Begun part bits owed low high := by
  induction part using List.reverseRecOn with
  | nil => exact absurd rfl hnil
  | append_singleton front b ih =>
    by_cases hfront : front = []
    · subst hfront
      rcases lead_cases b with ⟨c, hc⟩ | hbegun | hbad
      · exact absurd hc.symm (hincomplete c)
      · exact hbegun
      · exact absurd hbegins (not_begins_of_lead hbad)
    · obtain ⟨c, hc⟩ := hbegins
      have hpart : ∀ d, front ≠ String.utf8EncodeChar d := by
        rintro d rfl
        obtain rfl := encodeChar_inj_of_prefix ((List.prefix_append _ [b]).trans hc)
        have hlength := hc.length_le
        rw [List.length_append, List.length_singleton] at hlength
        exact Nat.not_succ_le_self _ hlength
      obtain ⟨bits, owed, low, high, hbegun⟩ :=
        ih hfront ⟨c, (List.prefix_append front [b]).trans hc⟩ hpart
      have hb := hbegun.in_range ⟨c, hc⟩
      cases owed with
      | zero => exact absurd (hbegun.complete hb) (hincomplete _)
      | succ owed => exact ⟨_, _, _, _, hbegun.more hb⟩

/-! ### What is read -/

/-- What is to be read is read. -/
theorem ReadsAs.decode_eq (h : ReadsAs bs cs) : decode bs = cs := by
  induction h with
  | nil => rfl
  | char c rest ih => rw [decode_encodeChar_append, ih]
  | @invalid part bs cs hnil hbegins hincomplete hmaximal rest ih =>
    rw [← ih]
    by_cases hbegun : ∃ bits owed low high, Begun part bits owed low high
    · -- The form is under way, and the next byte does not go on with it.
      obtain ⟨bits, owed, low, high, hbegun⟩ := hbegun
      rw [hbegun.read]
      cases bs with
      | nil => rfl
      | cons b bs =>
        apply decodeFrom_of_not_in_range
        intro hb
        have hlonger := hmaximal (part ++ [b]) (List.prefix_append part [b])
          ⟨bs, by rw [List.append_assoc, List.singleton_append]⟩ (hbegun.begins_append hb)
        exact absurd (List.append_right_eq_self.mp hlonger) (List.cons_ne_nil b [])
    · -- No form is under way, so that there is one byte.
      obtain ⟨b, rfl⟩ : ∃ b, part = [b] := by
        rcases hbegins with hbegins | hone
        · exact absurd (exists_begun hnil hbegins hincomplete) hbegun
        · exact List.length_eq_one_iff.mp hone
      rcases lead_cases b with ⟨c, hc⟩ | hform | hbad
      · exact absurd hc.symm (hincomplete c)
      · exact absurd hform hbegun
      · rw [decode, List.singleton_append, decodeFrom_cons, step_idle, hbad]
        rfl

/-- A byte that begins no form is replaced on its own. -/
theorem ReadsAs.of_lead (h : lead b = ([replacement], .idle)) (rest : ReadsAs bs cs) :
    ReadsAs (b :: bs) (replacement :: cs) := by
  have hno := not_begins_of_lead h
  refine ReadsAs.invalid (List.cons_ne_nil b []) (Or.inr rfl) ?_ ?_ rest
  · rintro c hc
    exact hno ⟨c, by rw [hc]⟩
  · rintro longer hshort - ⟨c, hc⟩
    exact absurd ⟨c, hshort.trans hc⟩ hno

/-- A form that is under way is replaced where the next byte does not go on with it. -/
theorem ReadsAs.of_begun (h : Begun part bits owed low high) (hnil : part ≠ [])
    (hout : ∀ b, bs.head? = some b → ¬ (low ≤ b ∧ b ≤ high)) (rest : ReadsAs bs cs) :
    ReadsAs (part ++ bs) (replacement :: cs) := by
  refine ReadsAs.invalid hnil (Or.inl h.begins) h.incomplete ?_ rest
  rintro _ ⟨more, rfl⟩ hpart ⟨c, hc⟩
  cases more with
  | nil => exact List.append_nil part
  | cons b more =>
    obtain ⟨rest', hrest'⟩ := (List.prefix_append_right_inj part).mp hpart
    have hlonger : part ++ [b] <+: part ++ b :: more :=
      (List.prefix_append_right_inj part).mpr (List.prefix_append [b] more)
    exact absurd (h.in_range ⟨c, hlonger.trans hc⟩) (hout b (by rw [← hrest']; rfl))

/-- What is read is to be read: by induction on the bytes, both between two forms and in the middle
of one. -/
theorem readsAs_decode (bs : Bytes) :
    ReadsAs bs (decode bs) ∧ ∀ part bits owed low high, part ≠ [] → Begun part bits owed low high →
      ReadsAs (part ++ bs) (decodeFrom (.within bits (owed + 1) low high) bs) := by
  induction bs with
  | nil =>
    refine ⟨.nil, fun part bits owed low high hnil hbegun => ?_⟩
    exact ReadsAs.of_begun hbegun hnil nofun .nil
  | cons b bs ih =>
    obtain ⟨ihIdle, ihWithin⟩ := ih
    have hidle : ReadsAs (b :: bs) (decode (b :: bs)) := by
      rcases lead_cases b with ⟨c, hc⟩ | ⟨bits, owed, low, high, hbegun⟩ | hbad
      · have hread := ReadsAs.char c ihIdle
        rw [← decode_encodeChar_append, hc] at hread
        exact hread
      · have hread := ihWithin [b] bits owed low high (List.cons_ne_nil b []) hbegun
        rw [← hbegun.read] at hread
        exact hread
      · rw [decode, decodeFrom_cons, step_idle, hbad]
        exact ReadsAs.of_lead hbad ihIdle
    refine ⟨hidle, fun part bits owed low high hnil hbegun => ?_⟩
    by_cases hb : low ≤ b ∧ b ≤ high
    · have hpart : part ++ b :: bs = part ++ [b] ++ bs := by
        rw [List.append_assoc, List.singleton_append]
      rw [hpart, decodeFrom_cons, step, if_pos hb]
      cases owed with
      | zero =>
        rw [if_pos (Nat.le_refl 1), hbegun.complete hb]
        exact ReadsAs.char _ ihIdle
      | succ owed =>
        rw [if_neg (by omega)]
        exact ihWithin (part ++ [b]) _ owed 0x80 0xBF
          (List.append_ne_nil_of_left_ne_nil hnil [b]) (hbegun.more hb)
    · rw [decodeFrom_of_not_in_range hb]
      refine ReadsAs.of_begun hbegun hnil ?_ hidle
      rintro _ ⟨⟩
      exact hb

/-- The machine reads what is to be read. -/
theorem readsAs_iff : ReadsAs bs cs ↔ decode bs = cs := by
  constructor
  · exact ReadsAs.decode_eq
  · rintro rfl
    exact (readsAs_decode bs).1

end TreeConsole.Utf8
