import TreeConsole.Json.Basic

/-!
# Reading JSON

A strict reader. Blanks are the space, the tab and the two line ends; a string holds no bare
control and no half of a surrogate pair; containers nest at most `nestingLimit` deep; nothing but
blanks follows the value. Of two fields with one key the later counts.

A number without a fraction and an exponent is an integer when it fits 64 bits. Any other number is
floating-point: as many digits as fit 64 bits are kept, and the rest only moves the decimal point.
-/

namespace TreeConsole.Json

/-- The greatest number of containers inside each other. -/
def nestingLimit : Nat := 127

/-! ### Strings -/

/-- Whether a character may stand between two parts of a text. -/
def isGap (c : Char) : Bool := c == ' ' || c == '\n' || c == '\t' || c == '\r'

/-- What follows the blanks. -/
def skipGap (cs : List Char) : List Char := cs.dropWhile isGap

/-- The value of a hexadecimal digit. -/
def hexValue? (c : Char) : Option Nat :=
  if '0' ≤ c ∧ c ≤ '9' then some (c.toNat - 48)
  else if 'a' ≤ c ∧ c ≤ 'f' then some (c.toNat - 87)
  else if 'A' ≤ c ∧ c ≤ 'F' then some (c.toNat - 55)
  else none

/-- The value of four hexadecimal digits. -/
def hexValue4? (a b c d : Char) : Option Nat := do
  return (((← hexValue? a) * 16 + (← hexValue? b)) * 16 + (← hexValue? c)) * 16 + (← hexValue? d)

/-- The character a short escape stands for. -/
def unescape? : Char → Option Char
  | '"' => some '"'
  | '\\' => some '\\'
  | '/' => some '/'
  | 'b' => some '\x08'
  | 'f' => some '\x0c'
  | 'n' => some '\n'
  | 'r' => some '\r'
  | 't' => some '\t'
  | _ => none

/-- The first half of a surrogate pair. -/
def isHighSurrogate (n : Nat) : Bool := 0xD800 ≤ n && n ≤ 0xDBFF

/-- The second half of a surrogate pair. -/
def isLowSurrogate (n : Nat) : Bool := 0xDC00 ≤ n && n ≤ 0xDFFF

/-- The character of a surrogate pair. -/
def ofSurrogates (high low : Nat) : Char :=
  Char.ofNat (0x10000 + (high - 0xD800) * 1024 + (low - 0xDC00))

/-- The rest of a string after its opening quote, and what follows the closing one. -/
def readString : List Char → Option (List Char × List Char)
  | [] => none
  | '"' :: rest => some ([], rest)
  | '\\' :: 'u' :: a :: b :: c :: d :: rest =>
    match hexValue4? a b c d with
    | none => none
    | some n =>
      if isHighSurrogate n then
        match rest with
        | '\\' :: 'u' :: e :: f :: g :: h :: rest =>
          match hexValue4? e f g h with
          | none => none
          | some m =>
            if isLowSurrogate m then
              (readString rest).map fun r => (ofSurrogates n m :: r.1, r.2)
            else none
        | _ => none
      -- A second half without a first.
      else if isLowSurrogate n then none
      else (readString rest).map fun r => (Char.ofNat n :: r.1, r.2)
  | '\\' :: e :: rest =>
    match unescape? e with
    | none => none
    | some c => (readString rest).map fun r => (c :: r.1, r.2)
  | c :: rest =>
    if c.toNat < 0x20 || c = '\\' then none
    else (readString rest).map fun r => (c :: r.1, r.2)

/-! ### Numbers -/

/-- The value of a decimal digit. -/
def digitValue (c : Char) : Nat := c.toNat - 48

/-- One more than the greatest integer of 64 bits. -/
def wordBound : Nat := 0x10000000000000000

/-- Takes digits into a number of 64 bits while they fit; gives the number, how many were taken
and how many were left out. -/
def takeDigits : Nat → List Char → Nat × Nat × Nat
  | n, [] => (n, 0, 0)
  | n, c :: cs =>
    let m := n * 10 + digitValue c
    if m < wordBound then
      let r := takeDigits m cs
      (r.1, r.2.1 + 1, r.2.2)
    else (n, 0, cs.length + 1)

/-- The parts of a number: its sign, the digits before the point, the digits after it if there is
one, and the exponent if there is one. -/
structure Numeral where
  negative : Bool
  whole : List Char
  fraction : Option (List Char)
  exponent : Option Int
  deriving Repr

/-- The digits of an exponent and what follows them. -/
def readExponent (cs : List Char) : Option (Int × List Char) :=
  let (negative, cs) : Bool × List Char :=
    match cs with
    | '+' :: rest => (false, rest)
    | '-' :: rest => (true, rest)
    | _ => (false, cs)
  let ds := cs.takeWhile Char.isDigit
  if ds = [] then none
  else
    let n : Nat := ds.foldl (fun n c => n * 10 + digitValue c) 0
    some (if negative then -(n : Int) else n, cs.dropWhile Char.isDigit)

/-- The parts of the number at the front of a text, and what follows it. -/
def readNumeral (cs : List Char) : Option (Numeral × List Char) :=
  let (negative, cs) : Bool × List Char :=
    match cs with
    | '-' :: rest => (true, rest)
    | _ => (false, cs)
  let whole := cs.takeWhile Char.isDigit
  let rest := cs.dropWhile Char.isDigit
  if whole = [] || (whole.head? == some '0' && 1 < whole.length) then none
  else
    let fraction? : Option (Option (List Char) × List Char) :=
      match rest with
      | '.' :: rest =>
        let ds := rest.takeWhile Char.isDigit
        if ds = [] then none else some (some ds, rest.dropWhile Char.isDigit)
      | _ => some (none, rest)
    fraction?.bind fun (fraction, rest) =>
      match rest with
      | 'e' :: rest | 'E' :: rest =>
        (readExponent rest).map fun r => (⟨negative, whole, fraction, some r.1⟩, r.2)
      | _ => some (⟨negative, whole, fraction, none⟩, rest)

/-- The number that a numeral without fraction and exponent stands for, if it is an integer. A
negative zero is not. -/
def Numeral.int? (n : Numeral) : Option Int :=
  let (value, _, dropped) := takeDigits 0 n.whole
  if n.fraction.isSome || n.exponent.isSome || dropped ≠ 0 then none
  else if !n.negative then some value
  -- A negative zero has a sign to keep, which no integer has.
  else if value = 0 ∨ 0x8000000000000000 < value then none
  else some (-(value : Int))

/-- The number a numeral stands for; nothing when it is too large. -/
def Numeral.value? (n : Numeral) : Option JsonNumber :=
  match n.int? with
  | some i => some (.int i)
  | none =>
    let (value, _, dropped) := takeDigits 0 n.whole
    -- Digits after the point go on from the number that those before it gave.
    let (value, taken, _) := takeDigits value (n.fraction.getD [])
    let scale : Int := (dropped : Int) - taken + n.exponent.getD 0
    (Binary64.ofDecimal n.negative value scale).map .float

/-- The number at the front of a text, and what follows it. -/
def readNumber (cs : List Char) : Option (Json × List Char) :=
  (readNumeral cs).bind fun r => r.1.value?.map fun n => (.num n, r.2)

/-! ### Values -/

mutual

/-- The value at the front of a text, and what follows it. The first number bounds the recursion,
the second the depth of containers. -/
def readValue : Nat → Nat → List Char → Option (Json × List Char)
  | 0, _, _ => none
  | fuel + 1, depth, cs =>
    match skipGap cs with
    | 'n' :: 'u' :: 'l' :: 'l' :: rest => some (.null, rest)
    | 't' :: 'r' :: 'u' :: 'e' :: rest => some (.bool true, rest)
    | 'f' :: 'a' :: 'l' :: 's' :: 'e' :: rest => some (.bool false, rest)
    | '"' :: rest => (readString rest).map fun r => (.str (String.ofList r.1), r.2)
    | '[' :: rest =>
      match depth with
      | 0 => none
      | depth + 1 =>
        match skipGap rest with
        | ']' :: rest => some (.arr [], rest)
        | rest => (readItems fuel depth rest).map fun r => (.arr r.1, r.2)
    | '\x7b' :: rest =>
      match depth with
      | 0 => none
      | depth + 1 =>
        match skipGap rest with
        | '\x7d' :: rest => some (.obj [], rest)
        | rest => (readFields fuel depth rest).map fun r => (ofFields r.1, r.2)
    | rest => readNumber rest

/-- The items of an array up to its end. -/
def readItems : Nat → Nat → List Char → Option (List Json × List Char)
  | 0, _, _ => none
  | fuel + 1, depth, cs =>
    match readValue fuel depth cs with
    | none => none
    | some (v, rest) =>
      match skipGap rest with
      | ',' :: rest => (readItems fuel depth rest).map fun r => (v :: r.1, r.2)
      | ']' :: rest => some ([v], rest)
      | _ => none

/-- The fields of an object up to its end. -/
def readFields : Nat → Nat → List Char → Option (List (String × Json) × List Char)
  | 0, _, _ => none
  | fuel + 1, depth, cs =>
    match skipGap cs with
    | '"' :: rest =>
      match readString rest with
      | none => none
      | some (key, rest) =>
        match skipGap rest with
        | ':' :: rest =>
          match readValue fuel depth rest with
          | none => none
          | some (v, rest) =>
            match skipGap rest with
            | ',' :: rest =>
              (readFields fuel depth rest).map fun r => ((String.ofList key, v) :: r.1, r.2)
            | '\x7d' :: rest => some ([(String.ofList key, v)], rest)
            | _ => none
        | _ => none
    | _ => none

end

/-- The value of a whole text. -/
def parse? (s : String) : Option Json :=
  match readValue (2 * s.toList.length + 2) nestingLimit s.toList with
  | some (v, rest) => if skipGap rest = [] then some v else none
  | none => none

end TreeConsole.Json
