import Mathlib.Data.String.Basic
import TreeConsole.Proofs.Text.Encoding

/-!
# The order of bytes

Texts compare as their bytes do. Characters are written so that of two of them the smaller one is
written first in the order of bytes: a longer form begins with a greater byte, and in forms of one
length the bits of the number stand in order, six in a byte. No form begins another one, so that the
first character in which two texts differ decides about their bytes as well.

## Main results

* `encodeChar_append_lt` — a smaller character is written before a greater one
* `ofText_lt_ofText_iff` — the order of texts is the order of their bytes
-/

namespace TreeConsole.Utf8

variable {n m v w : Nat} {xs ys : Bytes} {cs ds : List Char}

/-! ### Bytes -/

theorem ofNat_cons_lt (hn : n < m) (hm : m < 256) : UInt8.ofNat n :: xs < UInt8.ofNat m :: ys := by
  refine List.cons_lt_cons_iff.mpr (Or.inl ?_)
  rw [UInt8.lt_iff_toNat_lt, UInt8.toNat_ofNat', UInt8.toNat_ofNat']
  omega

/-- Where the first bytes are the same or in order, it is enough that those after them are. -/
theorem ofNat_cons_lt_of_le (hle : n ≤ m) (hm : m < 256) (h : n = m → xs < ys) :
    UInt8.ofNat n :: xs < UInt8.ofNat m :: ys := by
  rcases Nat.lt_or_eq_of_le hle with hlt | rfl
  · exact ofNat_cons_lt hlt hm
  · exact List.cons_lt_cons_iff.mpr (Or.inr ⟨rfl, h rfl⟩)

/-! ### Characters -/

/-- The bytes of a smaller character come before those of a greater one, whatever follows them. -/
theorem encodeChar_append_lt {c d : Char} (h : c < d) (xs ys : Bytes) :
    String.utf8EncodeChar c ++ xs < String.utf8EncodeChar d ++ ys := by
  obtain ⟨v, hv⟩ : ∃ v, c.val.toNat = v := ⟨_, rfl⟩
  obtain ⟨w, hw⟩ : ∃ w, d.val.toNat = w := ⟨_, rfl⟩
  have hlt : v < w := by
    rw [← hv, ← hw]
    exact h
  have hmost : w < 0xD800 ∨ 0xDFFF < w ∧ w < 0x110000 := by
    rw [← hw]
    exact d.valid
  simp only [String.utf8EncodeChar, hv, hw]
  -- By the length of both forms; a longer one begins with a greater byte.
  by_cases hw1 : w ≤ 127
  · rw [if_pos hw1, if_pos (by omega)]
    exact ofNat_cons_lt hlt (by omega)
  by_cases hw2 : w ≤ 2047
  · rw [if_neg hw1, if_pos hw2]
    by_cases hv1 : v ≤ 127
    · rw [if_pos hv1]
      exact ofNat_cons_lt (by omega) (by omega)
    · rw [if_neg hv1, if_pos (by omega)]
      exact ofNat_cons_lt_of_le (by omega) (by omega) fun _ => ofNat_cons_lt (by omega) (by omega)
  by_cases hw3 : w ≤ 65535
  · rw [if_neg hw1, if_neg hw2, if_pos hw3]
    by_cases hv1 : v ≤ 127
    · rw [if_pos hv1]
      exact ofNat_cons_lt (by omega) (by omega)
    by_cases hv2 : v ≤ 2047
    · rw [if_neg hv1, if_pos hv2]
      exact ofNat_cons_lt (by omega) (by omega)
    · rw [if_neg hv1, if_neg hv2, if_pos (by omega)]
      exact ofNat_cons_lt_of_le (by omega) (by omega) fun _ =>
        ofNat_cons_lt_of_le (by omega) (by omega) fun _ => ofNat_cons_lt (by omega) (by omega)
  · rw [if_neg hw1, if_neg hw2, if_neg hw3]
    by_cases hv1 : v ≤ 127
    · rw [if_pos hv1]
      exact ofNat_cons_lt (by omega) (by omega)
    by_cases hv2 : v ≤ 2047
    · rw [if_neg hv1, if_pos hv2]
      exact ofNat_cons_lt (by omega) (by omega)
    by_cases hv3 : v ≤ 65535
    · rw [if_neg hv1, if_neg hv2, if_pos hv3]
      exact ofNat_cons_lt (by omega) (by omega)
    · rw [if_neg hv1, if_neg hv2, if_neg hv3]
      exact ofNat_cons_lt_of_le (by omega) (by omega) fun _ =>
        ofNat_cons_lt_of_le (by omega) (by omega) fun _ =>
          ofNat_cons_lt_of_le (by omega) (by omega) fun _ => ofNat_cons_lt (by omega) (by omega)

/-! ### Texts -/

theorem encode_lt_encode (h : cs < ds) : encode cs < encode ds := by
  induction ds generalizing cs with
  | nil => exact absurd h (List.not_lt_nil cs)
  | cons d ds ih =>
    cases cs with
    | nil =>
      have hne : encode (d :: ds) ≠ [] := by
        intro hnil
        have hread := decode_encode (d :: ds)
        rw [hnil] at hread
        cases hread
      obtain ⟨b, bs, hbytes⟩ := List.exists_cons_of_ne_nil hne
      rw [hbytes]
      exact List.nil_lt_cons b bs
    | cons c cs =>
      rw [encode_cons, encode_cons]
      rcases List.cons_lt_cons_iff.mp h with hlt | ⟨rfl, hrest⟩
      · exact encodeChar_append_lt hlt _ _
      · exact List.append_left_lt (ih hrest)

/-- The order of texts is the order of their bytes. -/
theorem ofText_lt_ofText_iff {a b : String} : ofText a < ofText b ↔ a < b := by
  constructor
  · intro h
    rcases lt_trichotomy a b with hlt | rfl | hgt
    · exact hlt
    · exact absurd h (List.lt_irrefl _)
    · exact absurd h (List.lt_asymm (encode_lt_encode hgt))
  · intro h
    exact encode_lt_encode h

end TreeConsole.Utf8
