import TreeConsole.Text.Hidden

/-!
# Quoted texts

How a text is shown inside a message when its exact content matters: between double quotes, with
the quote, the backslash and whatever cannot be seen spelled out. A hidden character without a
letter of its own is written as its code point in lower-case hexadecimal between braces.

Main statement: `quotedChar_eq_self`.
-/

namespace TreeConsole.Text

/-- The hexadecimal digits of a number, lower case, without leading zeros. -/
def hexDigits (n : Nat) : List Char := Nat.toDigits 16 n

/-- One character of a quoted text. -/
def quotedChar (c : Char) : List Char :=
  if c = '\x00' then ['\\', '0']
  else if c = '\t' then ['\\', 't']
  else if c = '\r' then ['\\', 'r']
  else if c = '\n' then ['\\', 'n']
  else if c = '"' then ['\\', '"']
  else if c = '\\' then ['\\', '\\']
  else if isHidden c then ['\\', 'u', '\x7b'] ++ hexDigits c.toNat ++ ['\x7d']
  else [c]

/-- A text between double quotes, with everything spelled out that could be misread. -/
def quoted (s : String) : String :=
  String.ofList ('"' :: s.toList.flatMap quotedChar ++ ['"'])

/-- A character without a special spelling stands for itself. -/
theorem quotedChar_eq_self {c : Char} (hq : c ≠ '"') (hb : c ≠ '\\') (h : isHidden c = false) :
    quotedChar c = [c] := by
  have h0 : c ≠ '\x00' := by rintro rfl; exact absurd h (by decide)
  have ht : c ≠ '\t' := by rintro rfl; exact absurd h (by decide)
  have hr : c ≠ '\r' := by rintro rfl; exact absurd h (by decide)
  have hn : c ≠ '\n' := by rintro rfl; exact absurd h (by decide)
  simp [quotedChar, h0, ht, hr, hn, hq, hb, h]

end TreeConsole.Text
