import Mathlib.Algebra.GroupWithZero.Nat
import TreeConsole.Proofs.Text.Lossy
import TreeConsole.Terminal

/-!
# Reading line by line

A text that grows line by line comes out as if all of it had been read at once. That is no matter of
course where bytes are replaced, for a form that is cut off at the end of a piece could have gone on
in the next one. A piece that ends with a line feed cuts nothing off.

## Main definitions

* `Utf8.IsFirstLine` — the first line of some bytes, and what comes after it
* `Terminal.readTimes` — reads so many times onto one text

## Main results

* `Terminal.readTimes_ofInput` — nothing is lost, and the pieces are read like the whole
-/

namespace TreeConsole

namespace Utf8

variable {bs xs ys line rest : Bytes}

/-- The first line of some bytes, with its line feed if it has one, and what comes after it. -/
structure IsFirstLine (bs line rest : Bytes) : Prop where
  parted : line ++ rest = bs
  ended : (∃ front, line = front ++ [lineFeed] ∧ lineFeed ∉ front) ∨ lineFeed ∉ line ∧ rest = []

theorem isFirstLine_splitLine (bs : Bytes) : IsFirstLine bs (splitLine bs).1 (splitLine bs).2 := by
  refine ⟨splitLine_append bs, ?_⟩
  induction bs with
  | nil => exact Or.inr ⟨List.not_mem_nil, rfl⟩
  | cons b bs ih =>
    by_cases hb : b = lineFeed
    · rw [splitLine, if_pos hb]
      exact Or.inl ⟨[], by rw [hb]; rfl, List.not_mem_nil⟩
    · rw [splitLine, if_neg hb]
      rcases ih with ⟨front, hline, hfront⟩ | ⟨hline, hrest⟩
      · refine Or.inl ⟨b :: front, by rw [hline]; rfl, ?_⟩
        exact List.not_mem_cons_of_ne_of_not_mem (Ne.symm hb) hfront
      · exact Or.inr ⟨List.not_mem_cons_of_ne_of_not_mem (Ne.symm hb) hline, hrest⟩

/-- Bytes that cut no form off at their end. -/
def EndsLine (bs : Bytes) : Prop := bs = [] ∨ ∃ front, bs = front ++ [lineFeed]

theorem toText_append_of_endsLine (h : EndsLine xs) (ys : Bytes) :
    toText (xs ++ ys) = toText xs ++ toText ys := by
  rcases h with rfl | ⟨front, rfl⟩
  · exact (String.empty_append).symm
  · rw [toText, List.append_assoc, List.singleton_append, decode_append_lineFeed,
      String.ofList_append]
    rfl

/-- A line leaves nothing cut off, unless it is the last one. -/
theorem IsFirstLine.endsLine (h : IsFirstLine bs line rest) (xs : Bytes) :
    EndsLine (xs ++ line) ∨ rest = [] := by
  rcases h.ended with ⟨front, rfl, -⟩ | ⟨-, hrest⟩
  · exact Or.inl (Or.inr ⟨xs ++ front, (List.append_assoc xs front [lineFeed]).symm⟩)
  · exact Or.inr hrest

theorem lines_eq_nil_iff : lines bs = [] ↔ bs = [] := by
  constructor
  · intro h
    rw [← flatten_lines bs, h, List.flatten_nil]
  · rintro rfl
    rfl

theorem splitLine_fst_eq_nil_iff : (splitLine bs).1 = [] ↔ bs = [] := by
  cases bs with
  | nil => exact Iff.rfl
  | cons b bs =>
    rw [splitLine]
    split <;> simp

end Utf8

theorem Reading.bytes_ofBytes (bs : Bytes) : (Reading.ofBytes bs).bytes = bs := by
  unfold Reading.ofBytes
  split
  · next h => exact h.symm
  · rfl

namespace Terminal

open Utf8

variable {t : Terminal} {b rest : Bytes} {text start : String} {n : Nat}

/-! ### One read -/

/-- A terminal that delivers some bytes, line by line, and then nothing more. -/
structure Delivers (t : Terminal) (rest : Bytes) : Prop where
  incoming : t.incoming = Reading.ofInput rest
  ending : t.ending = .endOfInput

theorem delivers_ofInput (b : Bytes) : (ofInput b).Delivers b := ⟨rfl, rfl⟩

theorem Delivers.unread (h : t.Delivers rest) : t.unread = rest := by
  rw [Terminal.unread, h.incoming, Reading.ofInput, List.flatMap_map]
  simp only [Reading.bytes_ofBytes]
  exact List.flatMap_id'.trans (flatten_lines rest)

theorem readOnto_line {line : Bytes} {hline : line ≠ []} {incoming : List Reading}
    (h : t.incoming = .line line hline :: incoming) (text : String) :
    t.readOnto text = (.ok line.length, text ++ toText line,
      { t with
        incoming := incoming
        transcript := t.transcript ++ [.read (.line line hline)] }) := by
  rw [readOnto, read_of_incoming h]

theorem readOnto_endOfInput (h : t.incoming = []) (hending : t.ending = .endOfInput)
    (text : String) :
    t.readOnto text =
      (.ok 0, text, { t with transcript := t.transcript ++ [.read .endOfInput] }) := by
  have hread : t.read =
      (.endOfInput, { t with transcript := t.transcript ++ [.read .endOfInput] }) := by
    rw [read, h]
    simp only [hending, Ending.reading]
  rw [readOnto, hread]

/-- Reading takes the first line and leaves the others. -/
theorem Delivers.readOnto (h : t.Delivers rest) (text : String) :
    ∃ t', t.readOnto text =
        (.ok (splitLine rest).1.length, text ++ toText (splitLine rest).1, t') ∧
      t'.Delivers (splitLine rest).2 := by
  by_cases hrest : rest = []
  · subst hrest
    refine ⟨{ t with transcript := t.transcript ++ [.read .endOfInput] }, ?_, h.incoming,
      h.ending⟩
    rw [readOnto_endOfInput h.incoming h.ending]
    exact Prod.ext rfl (Prod.ext (String.append_empty).symm rfl)
  · have hline : (splitLine rest).1 ≠ [] := mt splitLine_fst_eq_nil_iff.mp hrest
    have hincoming : t.incoming =
        .line (splitLine rest).1 hline :: Reading.ofInput (splitLine rest).2 := by
      rw [h.incoming, Reading.ofInput, lines_eq_splitLine hrest, List.map_cons, Reading.ofBytes,
        dif_neg hline]
      rfl
    exact ⟨_, readOnto_line hincoming text, ⟨rfl, h.ending⟩⟩

/-! ### Many reads -/

/-- What has come of some reads onto one text. -/
structure Progress where
  counts : List (Except Reading Nat)
  text : String
  terminal : Terminal

/-- Reads so many times onto one text. -/
def readTimes (t : Terminal) (text : String) : Nat → Progress
  | 0 => ⟨[], text, t⟩
  | n + 1 =>
    let s := t.readTimes text n
    let r := s.terminal.readOnto s.text
    ⟨s.counts ++ [r.1], r.2.1, r.2.2⟩

/-- What some reads leave: some of the bytes are read, and the others are still there. Nothing that
has been read is cut off, as long as there is more. -/
structure Progress.IsAt (s : Progress) (start : String) (done rest : Bytes) : Prop where
  counts : ∃ counts : List Nat, s.counts = counts.map .ok ∧ counts.sum = done.length
  text : s.text = start ++ toText done
  delivers : s.terminal.Delivers rest
  whole : EndsLine done ∨ rest = []

/-- One more read takes the first of the lines that are left. -/
theorem isAt_readTimes_succ {done : Bytes} (h : (t.readTimes start n).IsAt start done rest) :
    (t.readTimes start (n + 1)).IsAt start (done ++ (splitLine rest).1) (splitLine rest).2 := by
  obtain ⟨t', hread, hdelivers⟩ := h.delivers.readOnto (t.readTimes start n).text
  obtain ⟨counts, hcounts, hsum⟩ := h.counts
  have hfirst := isFirstLine_splitLine rest
  refine ⟨⟨counts ++ [(splitLine rest).1.length], ?_, ?_⟩, ?_, ?_, hfirst.endsLine done⟩
  · simp only [readTimes, hread, hcounts, List.map_append, List.map_cons, List.map_nil]
  · rw [List.sum_append, List.sum_singleton, hsum, List.length_append]
  · -- A form can be cut off only where nothing is left, and then the line is empty.
    have htext :
        toText (done ++ (splitLine rest).1) = toText done ++ toText (splitLine rest).1 := by
      rcases h.whole with hends | rfl
      · exact toText_append_of_endsLine hends _
      · rw [splitLine, List.append_nil]
        exact (String.append_empty).symm
    simp only [readTimes, hread]
    rw [h.text, htext, String.append_assoc]
  · simp only [readTimes, hread]
    exact hdelivers

theorem isAt_readTimes (b : Bytes) (start : String) (n : Nat) :
    ∃ done rest, done ++ rest = b ∧ lines rest = (lines b).drop n ∧
      ((ofInput b).readTimes start n).IsAt start done rest := by
  induction n with
  | zero =>
    refine ⟨[], b, rfl, rfl, ⟨[], rfl, rfl⟩, ?_, delivers_ofInput b, Or.inl (Or.inl rfl)⟩
    exact (String.append_empty).symm
  | succ n ih =>
    obtain ⟨done, rest, hb, hlines, hat⟩ := ih
    refine ⟨done ++ (splitLine rest).1, (splitLine rest).2, ?_, ?_, isAt_readTimes_succ hat⟩
    · rw [List.append_assoc, splitLine_append, hb]
    · rw [← List.drop_drop, ← hlines]
      by_cases hrest : rest = []
      · rw [hrest]
        rfl
      · rw [lines_eq_splitLine hrest]
        rfl

/-- Reading some bytes line by line onto a text. After any number of reads some of the bytes have
been counted and the others are left, and what has been counted is read as it would be at once; the
next read takes the first line of what is left, or nothing when nothing is. When nothing is left,
which is so after as many reads as there are lines, all of the bytes have been read. -/
theorem readTimes_ofInput (b : Bytes) (start : String) (n : Nat) {s : Progress}
    {r : Except Reading Nat × String × Terminal} (hs : (ofInput b).readTimes start n = s)
    (hr : s.terminal.readOnto s.text = r) :
    (∃ line, IsFirstLine s.terminal.unread line r.2.2.unread ∧ r.1 = .ok line.length ∧
      r.2.1 = s.text ++ toText line) ∧
    (r.1 = .ok 0 ↔ s.terminal.unread = []) ∧
    (∃ counts : List Nat, s.counts = counts.map .ok ∧ b.drop counts.sum = s.terminal.unread ∧
      counts.sum + s.terminal.unread.length = b.length ∧
      s.text = start ++ toText (b.take counts.sum)) ∧
    (s.terminal.unread = [] →
      s.text = start ++ toText b ∧ ∀ v, b = ofText v → s.text = start ++ v) ∧
    (s.terminal.unread = [] ↔ (lines b).length ≤ n) ∧
    ∀ cs, ReadsAs b cs ↔ (toText b).toList = cs := by
  obtain ⟨done, rest, hb, hlines, hat⟩ := isAt_readTimes b start n
  rw [hs] at hat
  obtain ⟨t', hread, hdelivers⟩ := hat.delivers.readOnto s.text
  rw [hr] at hread
  obtain ⟨counts, hcounts, hsum⟩ := hat.counts
  rw [hat.delivers.unread, hread, hdelivers.unread]
  refine ⟨⟨_, isFirstLine_splitLine rest, rfl, rfl⟩, ?_, ⟨counts, hcounts, ?_, ?_, ?_⟩, ?_, ?_, ?_⟩
  · rw [← splitLine_fst_eq_nil_iff, ← List.length_eq_zero_iff, Except.ok.injEq]
  · rw [hsum, ← hb, List.drop_left]
  · rw [hsum, ← hb, List.length_append]
  · rw [hsum, ← hb, List.take_left, hat.text]
  · rintro rfl
    rw [List.append_nil] at hb
    refine ⟨by rw [hat.text, hb], ?_⟩
    rintro v rfl
    rw [hat.text, hb, toText_ofText]
  · rw [← lines_eq_nil_iff, hlines, List.drop_eq_nil_iff]
  · intro cs
    rw [toText, String.toList_ofList]
    exact readsAs_iff

/-- After the first line, which holds a byte that is no text, the second one is read. -/
theorem readTimes_ofInput_second :
    ∃ s r, (ofInput [0x79, 0xFF, 0x0A, 0x6E, 0x0A]).readTimes "" 1 = s ∧
      s.terminal.readOnto s.text = r ∧ s.text = "y\uFFFD\n" ∧
      ∃ line, IsFirstLine s.terminal.unread line r.2.2.unread ∧ r.1 = .ok line.length ∧
        r.2.1 = s.text ++ toText line :=
  ⟨_, _, rfl, rfl, by decide, (readTimes_ofInput _ "" 1 rfl rfl).1⟩

end Terminal
end TreeConsole
