/-!
# UTF-8

Texts and their bytes. Writing is the core library's encoding of a character. Reading never
fails: bytes that no encoding produces are replaced, one replacement character for each longest
part that could have begun a character. The reader is a machine that takes one byte at a time and
remembers the character under way, so it can stop and go on at any line feed.

Main statements: `decode_append_lineFeed` lets a text be read line by line.
-/

namespace TreeConsole

/-- A payload, a line of input, the content of a file. -/
abbrev Bytes := List UInt8

namespace Utf8

/-- Stands for bytes that are not UTF-8. -/
def replacement : Char := '\uFFFD'

/-- Ends a line. -/
def lineFeed : UInt8 := 10

/-- What the reader knows between two bytes. -/
inductive Pending where
  /-- Between characters. -/
  | idle
  /-- Inside a character: its bits so far, how many bytes are owed, and the range the next one
  must fall in. -/
  | within (bits owed : Nat) (low high : UInt8)
  deriving DecidableEq, Repr

/-- The effect of a byte that starts a character. The narrowed ranges after `E0`, `ED`, `F0` and
`F4` keep out overlong forms, surrogates and numbers above `10FFFF`. -/
def lead (b : UInt8) : List Char × Pending :=
  if b < 0x80 then ([Char.ofNat b.toNat], .idle)
  else if 0xC2 ≤ b ∧ b ≤ 0xDF then ([], .within (b.toNat - 0xC0) 1 0x80 0xBF)
  else if b = 0xE0 then ([], .within 0 2 0xA0 0xBF)
  else if b = 0xED then ([], .within 0x0D 2 0x80 0x9F)
  else if 0xE1 ≤ b ∧ b ≤ 0xEF then ([], .within (b.toNat - 0xE0) 2 0x80 0xBF)
  else if b = 0xF0 then ([], .within 0 3 0x90 0xBF)
  else if 0xF1 ≤ b ∧ b ≤ 0xF3 then ([], .within (b.toNat - 0xF0) 3 0x80 0xBF)
  else if b = 0xF4 then ([], .within 4 3 0x80 0x8F)
  else ([replacement], .idle)

/-- Takes one byte. A byte that cannot continue the character under way ends it as a replacement
and is looked at afresh. -/
def step : Pending → UInt8 → List Char × Pending
  | .idle, b => lead b
  | .within bits owed low high, b =>
    if low ≤ b ∧ b ≤ high then
      let bits := bits * 64 + (b.toNat - 0x80)
      if owed ≤ 1 then ([Char.ofNat bits], .idle) else ([], .within bits (owed - 1) 0x80 0xBF)
    else
      -- The byte is not lost: it may start a character of its own.
      let (cs, next) := lead b
      (replacement :: cs, next)

/-- What is written when the bytes end. -/
def finish : Pending → List Char
  | .idle => []
  | .within .. => [replacement]

/-- Reads on from a given state. -/
def decodeFrom (p : Pending) : Bytes → List Char
  | [] => finish p
  | b :: bs => (step p b).1 ++ decodeFrom (step p b).2 bs

/-- The characters of some bytes, replacing what is not UTF-8. -/
def decode (bs : Bytes) : List Char := decodeFrom .idle bs

/-- The bytes of some characters. -/
def encode (cs : List Char) : Bytes := cs.flatMap String.utf8EncodeChar

/-- The bytes of a text. -/
def ofText (s : String) : Bytes := encode s.toList

/-- The text of some bytes, replacing what is not UTF-8. -/
def toText (bs : Bytes) : String := String.ofList (decode bs)

/-- The text of some bytes when they are UTF-8, which is when nothing had to be replaced. -/
def toText? (bs : Bytes) : Option String :=
  let cs := decode bs
  if encode cs = bs then some (String.ofList cs) else none

/-- The number of bytes of some characters. -/
def width (cs : List Char) : Nat := cs.foldr (fun c n => c.utf8Size + n) 0

/-- Splits off the bytes up to and including the first line feed, or all of them. -/
def splitLine : Bytes → Bytes × Bytes
  | [] => ([], [])
  | b :: bs => if b = lineFeed then ([b], bs) else (b :: (splitLine bs).1, (splitLine bs).2)

theorem splitLine_append (bs : Bytes) : (splitLine bs).1 ++ (splitLine bs).2 = bs := by
  induction bs with
  | nil => rfl
  | cons b bs ih => by_cases h : b = lineFeed <;> simp [splitLine, h, ih]

/-- The lines of some bytes, each with its line feed; the last may lack one. -/
def lines : Bytes → List Bytes
  | [] => []
  | b :: bs =>
    if b = lineFeed then [b] :: lines bs
    else
      match lines bs with
      | [] => [[b]]
      | l :: ls => (b :: l) :: ls

theorem lines_eq_splitLine {bs : Bytes} (h : bs ≠ []) :
    lines bs = (splitLine bs).1 :: lines (splitLine bs).2 := by
  induction bs with
  | nil => exact absurd rfl h
  | cons b bs ih =>
    by_cases hb : b = lineFeed
    · simp [lines, splitLine, hb]
    · by_cases hbs : bs = []
      · subst hbs; simp [lines, splitLine, hb]
      · simp [lines, splitLine, hb, ih hbs]

theorem flatten_lines (bs : Bytes) : (lines bs).flatten = bs := by
  induction bs with
  | nil => rfl
  | cons b bs ih =>
    simp only [lines]
    split
    · simp [ih]
    · split <;> simp_all

theorem length_encode (cs : List Char) : (encode cs).length = width cs := by
  induction cs with
  | nil => rfl
  | cons c cs ih => simp_all [encode, width, String.length_utf8EncodeChar]

/-- After a line feed nothing is under way, whatever came before. -/
theorem decodeFrom_append_lineFeed (p : Pending) (xs ys : Bytes)
    (hp : ∀ bits owed low high, p = .within bits owed low high → lineFeed < low) :
    decodeFrom p (xs ++ lineFeed :: ys) = decodeFrom p (xs ++ [lineFeed]) ++ decode ys := by
  induction xs generalizing p with
  | nil =>
    have hlead : lead lineFeed = (['\n'], .idle) := by decide
    cases p with
    | idle => simp [decodeFrom, step, hlead, decode, finish]
    | within bits owed low high =>
      have hlow := hp bits owed low high rfl
      have hnot : ¬ (low ≤ lineFeed ∧ lineFeed ≤ high) := by
        rintro ⟨h, -⟩
        exact absurd hlow (by simpa using h)
      simp [decodeFrom, step, hnot, hlead, decode, finish]
  | cons x xs ih =>
    simp only [List.cons_append, decodeFrom, List.append_assoc]
    congr 1
    refine ih _ fun bits owed low high h => ?_
    have hleads : ∀ b, (lead b).2 = .within bits owed low high → lineFeed < low := by
      intro b hb
      simp only [lead] at hb
      repeat' split at hb
      all_goals simp at hb
      all_goals obtain ⟨-, -, rfl, -⟩ := hb
      all_goals decide
    cases p with
    | idle => exact hleads x h
    | within bits' owed' low' high' =>
      simp only [step] at h
      split at h
      · split at h
        · simp at h
        · simp at h
          obtain ⟨-, -, rfl, -⟩ := h
          decide
      · exact hleads x h

/-- A text can be read line by line. -/
theorem decode_append_lineFeed (xs ys : Bytes) :
    decode (xs ++ lineFeed :: ys) = decode (xs ++ [lineFeed]) ++ decode ys :=
  decodeFrom_append_lineFeed .idle xs ys (by simp)

end Utf8
end TreeConsole
