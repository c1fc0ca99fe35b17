import TreeConsole.Calendar.Date
import TreeConsole.Json.Reader
import TreeConsole.Toml.Value

/-!
# Reading TOML

A strict reader of TOML 1.0. Each reader takes what it reads off the front of the characters and
gives the rest. A line holds one pair, one header or nothing; comments run to the end of a line;
inline tables stay on one line and arrays need not. Line ends inside a text of several lines are
single line feeds, whatever they are in the document.

Arrays and inline tables nest at most `nestingLimit` deep, and no key has more parts. A number that
is too great for a floating-point number is refused, one that is too small for it is not.
-/

namespace TreeConsole.Toml

/-! ### Blanks and comments -/

/-- The greatest number of arrays and inline tables inside each other, and of the parts of a key. -/
def nestingLimit : Nat := 79

/-- A blank within a line. -/
def isGap (c : Char) : Bool := c == ' ' || c == '\t'

/-- What follows the blanks. -/
def skipGap (cs : List Char) : List Char := cs.dropWhile isGap

/-- A character that may stand in a comment. -/
def isPlain (c : Char) : Bool := c == '\t' || (' ' ≤ c && c != '\x7f')

/-- A character of a key without quotes. -/
def isBare (c : Char) : Bool := c.isAlphanum || c == '_' || c == '-'

/-- What follows a line end, if there is one. -/
def lineEnd? : List Char → Option (List Char)
  | '\n' :: cs => some cs
  | '\r' :: '\n' :: cs => some cs
  | _ => none

/-- What follows a comment, if there is one. -/
def skipComment : List Char → List Char
  | '#' :: cs => cs.dropWhile isPlain
  | cs => cs

/-- What follows a line end, or the end of the document, behind blanks and a comment. -/
def endLine (cs : List Char) : Option (List Char) :=
  match skipComment (skipGap cs) with
  | [] => some []
  | cs => lineEnd? cs

/-- What follows blanks, comments and line ends. -/
def skipLines : Nat → List Char → List Char
  | 0, cs => cs
  | fuel + 1, cs =>
    match lineEnd? (skipComment (skipGap cs)) with
    | some rest => skipLines fuel rest
    | none => skipComment (skipGap cs)

/-! ### Texts -/

/-- The character of a code point in hexadecimal digits. -/
def charOfHex (digits : List Char) : Option Char := do
  let values ← digits.mapM Json.hexValue?
  let n := values.foldl (fun n d => n * 16 + d) 0
  if n.isValidChar then some (Char.ofNat n) else none

/-- The character of an escape, behind its backslash. -/
def takeEscape : List Char → Option (Char × List Char)
  | 'b' :: cs => some ('\x08', cs)
  | 't' :: cs => some ('\t', cs)
  | 'n' :: cs => some ('\n', cs)
  | 'f' :: cs => some ('\x0c', cs)
  | 'r' :: cs => some ('\r', cs)
  | '"' :: cs => some ('"', cs)
  | '\\' :: cs => some ('\\', cs)
  | 'u' :: cs => if cs.length < 4 then none else (charOfHex (cs.take 4)).map (·, cs.drop 4)
  | 'U' :: cs => if cs.length < 8 then none else (charOfHex (cs.take 8)).map (·, cs.drop 8)
  | _ => none

/-- The rest of a text in double quotes. -/
def takeBasic : Nat → List Char → Option (List Char × List Char)
  | 0, _ => none
  | _, '"' :: cs => some ([], cs)
  | fuel + 1, '\\' :: cs => do
    let (c, cs) ← takeEscape cs
    let (body, cs) ← takeBasic fuel cs
    some (c :: body, cs)
  | fuel + 1, c :: cs =>
    if isPlain c then do
      let (body, cs) ← takeBasic fuel cs
      some (c :: body, cs)
    else none
  | _, [] => none

/-- The rest of a text in single quotes. -/
def takeLiteral (cs : List Char) : Option (List Char × List Char) :=
  match cs.dropWhile fun c => isPlain c && c != '\'' with
  | '\'' :: rest => some (cs.takeWhile fun c => isPlain c && c != '\'', rest)
  | _ => none

/-- The end of a text of several lines: three quotes, and up to two before them that belong to the
text. -/
def takeClosing (quote : Char) (cs : List Char) : Option (List Char × List Char) :=
  let n := (cs.takeWhile (· == quote)).length
  if n < 3 then none
  else
    -- Of five quotes the first two are text and the last three close it.
    let own := min (n - 3) 2
    some (List.replicate own quote, cs.drop (own + 3))

/-- What follows blanks and line ends. -/
def skipBlanks : Nat → List Char → List Char
  | 0, cs => cs
  | fuel + 1, cs =>
    match lineEnd? (skipGap cs) with
    | some rest => skipBlanks fuel rest
    | none => skipGap cs

/-- The rest of a text of several lines. With escapes, a backslash before a line end takes away the
line end and all blanks and line ends behind it. -/
def takeMulti (quote : Char) (escapes : Bool) : Nat → List Char → Option (List Char × List Char)
  | 0, _ => none
  | _, [] => none
  | fuel + 1, c :: cs =>
    match takeClosing quote (c :: cs), lineEnd? (c :: cs) with
    | some closed, _ => some closed
    | none, some rest => do
      let (body, rest) ← takeMulti quote escapes fuel rest
      some ('\n' :: body, rest)
    | none, none =>
      if c = '\\' && escapes then
        -- Blanks between the backslash and the line end are passed over.
        if (lineEnd? (skipGap cs)).isSome then
          takeMulti quote escapes fuel (skipBlanks fuel cs)
        else do
          let (c, cs) ← takeEscape cs
          let (body, cs) ← takeMulti quote escapes fuel cs
          some (c :: body, cs)
      else if isPlain c then do
        let (body, cs) ← takeMulti quote escapes fuel cs
        some (c :: body, cs)
      else none

/-- What follows a line end right at the start of a text of several lines. -/
def skipFirstLineEnd (cs : List Char) : List Char := (lineEnd? cs).getD cs

/-- A text with its quotes. -/
def takeText (fuel : Nat) : List Char → Option (List Char × List Char)
  | '"' :: '"' :: '"' :: cs => takeMulti '"' true fuel (skipFirstLineEnd cs)
  | '\'' :: '\'' :: '\'' :: cs => takeMulti '\'' false fuel (skipFirstLineEnd cs)
  | '"' :: cs => takeBasic fuel cs
  | '\'' :: cs => takeLiteral cs
  | _ => none

/-! ### Keys -/

/-- One part of a key. -/
def takeSimpleKey (fuel : Nat) (cs : List Char) : Option (String × List Char) :=
  match cs with
  | '"' :: rest => (takeBasic fuel rest).map fun r => (String.ofList r.1, r.2)
  | '\'' :: rest => (takeLiteral rest).map fun r => (String.ofList r.1, r.2)
  | _ =>
    match cs.takeWhile isBare with
    | [] => none
    | key => some (String.ofList key, cs.dropWhile isBare)

/-- The parts of a key, with the blanks around them. -/
def takeKeyParts : Nat → List Char → Option (List String × List Char)
  | 0, _ => none
  | fuel + 1, cs => do
    let (key, cs) ← takeSimpleKey fuel (skipGap cs)
    match skipGap cs with
    | '.' :: cs => do
      let (keys, cs) ← takeKeyParts fuel cs
      some (key :: keys, cs)
    | cs => some ([key], cs)

/-- A key of no more parts than there may be. -/
def takeKey (fuel : Nat) (cs : List Char) : Option (List String × List Char) :=
  (takeKeyParts fuel cs).filter fun r => r.1.length ≤ nestingLimit

/-! ### Numbers -/

/-- Digits of some base, with single underscores between them. -/
def isDigitRun (isDigit : Char → Bool) : List Char → Bool
  | [] => false
  | [c] => isDigit c
  | c :: '_' :: cs => isDigit c && isDigitRun isDigit cs
  | c :: cs => isDigit c && isDigitRun isDigit cs

/-- Decimal digits without a leading zero. -/
def isDecimal (cs : List Char) : Bool :=
  isDigitRun Char.isDigit cs && (cs.length == 1 || cs.head? != some '0')

/-- A number without its sign. -/
def unsigned : List Char → List Char
  | '+' :: cs | '-' :: cs => cs
  | cs => cs

/-- The value of digits, with underscores between them. -/
def valueOf (base : Nat) (cs : List Char) : Nat :=
  ((cs.filter (· != '_')).filterMap Json.hexValue?).foldl (fun n d => n * base + d) 0

/-- Whether an integer fits 64 bits. -/
def fits (negative : Bool) (base : Nat) (cs : List Char) : Bool :=
  let n := valueOf base cs
  n < 0x8000000000000000 || (negative && n == 0x8000000000000000)

/-- Whether a text is an integer. -/
def isInteger : List Char → Bool
  | '0' :: 'x' :: cs => isDigitRun (fun c => (Json.hexValue? c).isSome) cs && fits false 16 cs
  | '0' :: 'o' :: cs => isDigitRun (fun c => '0' ≤ c && c ≤ '7') cs && fits false 8 cs
  | '0' :: 'b' :: cs => isDigitRun (fun c => c == '0' || c == '1') cs && fits false 2 cs
  | cs => isDecimal (unsigned cs) && fits (cs.head? == some '-') 10 (unsigned cs)

/-- Whether a text is an exponent without its letter. -/
def isExponent (cs : List Char) : Bool := isDigitRun Char.isDigit (unsigned cs)

/-- Whether a text is a fraction without its point, and an exponent if there is one. -/
def isFraction (cs : List Char) : Bool :=
  let isMark := fun c => c == 'e' || c == 'E'
  isDigitRun Char.isDigit (cs.takeWhile (!isMark ·)) &&
    match cs.dropWhile (!isMark ·) with
    | [] => true
    | _ :: cs => isExponent cs

/-- Whether a number without its sign is one with a fraction or an exponent. -/
def isFractional (body : List Char) : Bool :=
  isDecimal (body.takeWhile fun c => c.isDigit || c == '_') &&
    match body.dropWhile fun c => c.isDigit || c == '_' with
    | '.' :: cs => isFraction cs
    | 'e' :: cs | 'E' :: cs => isExponent cs
    | _ => false

/-- The value of an exponent with its sign. -/
def exponentOf (cs : List Char) : Int :=
  let n : Int := valueOf 10 (unsigned cs)
  if cs.head? == some '-' then -n else n

/-- Whether a number with a fraction or an exponent, without its sign, rounds to a floating-point
number. -/
def isInRange (body : List Char) : Bool :=
  let isMark := fun c => c == 'e' || c == 'E'
  let mantissa := (body.takeWhile (!isMark ·)).filter (· != '_')
  let whole := mantissa.takeWhile (· != '.')
  let fraction := (mantissa.dropWhile (· != '.')).drop 1
  let exponent := exponentOf ((body.dropWhile (!isMark ·)).drop 1) - fraction.length
  let digits := (whole ++ fraction).dropWhile (· == '0')
  let top : Int := digits.length + exponent
  -- Far from the bound the number of digits decides, so that no great power is worked out.
  if digits.isEmpty || top < 300 then true
  else if 310 < top then false
  else
    (Binary64.roundQuotient false (valueOf 10 digits * Nat.pow 10 exponent.toNat)
      (Nat.pow 10 (-exponent).toNat)).isSome

/-- Whether a text is a number with a fraction or an exponent, or one of the special numbers. Only a
positive number can be too great: a negative one stands for the least there is. -/
def isFloat (cs : List Char) : Bool :=
  let body := unsigned cs
  body == ['i', 'n', 'f'] || body == ['n', 'a', 'n'] ||
    (isFractional body && (cs.head? == some '-' || isInRange body))

/-! ### Dates and times -/

/-- The value of two digits. -/
def twoDigits? (a b : Char) : Option Nat :=
  if a.isDigit && b.isDigit then some ((a.toNat - 48) * 10 + (b.toNat - 48)) else none

/-- Whether a text is an offset from UTC. -/
def isOffset : List Char → Bool
  | ['Z'] | ['z'] => true
  | [s, a, b, ':', c, d] =>
    (s == '+' || s == '-') && (twoDigits? a b).any (· ≤ 23) && (twoDigits? c d).any (· ≤ 59)
  | _ => false

/-- Whether a text is a time of day, followed by an offset if there may be one. -/
def isTime (zoned : Bool) : List Char → Bool
  | a :: b :: ':' :: c :: d :: ':' :: e :: f :: cs =>
    (twoDigits? a b).any (· ≤ 23) && (twoDigits? c d).any (· ≤ 59) &&
      (twoDigits? e f).any (· ≤ 60) &&
      (let rest := match cs with
        | '.' :: x :: cs => if x.isDigit then cs.dropWhile Char.isDigit else '.' :: x :: cs
        | cs => cs
      rest == [] || (zoned && isOffset rest))
  | _ => false

/-- The day that ten characters name, which the calendar has to have. -/
def day? (a b c d e f g h : Char) : Option Date := do
  let century ← twoDigits? a b
  let year ← twoDigits? c d
  let month ← twoDigits? e f
  let day ← twoDigits? g h
  let date : Date := ⟨century * 100 + year, month, day⟩
  if date.isValid then some date else none

/-- Whether a text is a date, followed by a time if there is one. -/
def isDate : List Char → Bool
  | a :: b :: c :: d :: '-' :: e :: f :: '-' :: g :: h :: cs =>
    (day? a b c d e f g h).isSome &&
      match cs with
      | [] => true
      | t :: cs => (t == 'T' || t == 't' || t == ' ') && isTime true cs
  | _ => false

/-! ### Values -/

/-- A character of a number or a date. -/
def isWordChar (c : Char) : Bool := c.isAlphanum || "+-_.:".toList.contains c

/-- A truth value, a number or a date. A date and a time may have a space between them. -/
def takeWord (cs : List Char) : Option (Value × List Char) :=
  let word := cs.takeWhile isWordChar
  let rest := cs.dropWhile isWordChar
  -- A blank may be the mark between a date and a time, so what follows it is looked at too.
  let long := match rest with
    | ' ' :: more => word ++ ' ' :: more.takeWhile isWordChar
    | _ => word
  if word == ['t', 'r', 'u', 'e'] then some (.bool true, rest)
  else if word == ['f', 'a', 'l', 's', 'e'] then some (.bool false, rest)
  else if isDate word && isDate long then
    some (.literal (String.ofList long), cs.drop long.length)
  else if isInteger word || isFloat word || isDate word || isTime false word then
    some (.literal (String.ofList word), rest)
  else none

mutual

/-- A value. The first number bounds the recursion, the second the depth of arrays and tables. -/
def takeValue : Nat → Nat → List Char → Option (Value × List Char)
  | 0, _, _ => none
  | _, 0, '[' :: _ | _, 0, '\x7b' :: _ => none
  | fuel + 1, depth + 1, '[' :: cs => takeItems fuel depth (skipLines fuel cs)
  | fuel + 1, depth + 1, '\x7b' :: cs =>
    match skipGap cs with
    | '\x7d' :: cs => some (.table [], cs)
    | cs => takeFields fuel depth [] cs
  | fuel + 1, _, cs =>
    match cs with
    | '"' :: _ | '\'' :: _ => (takeText fuel cs).map fun r => (.text (String.ofList r.1), r.2)
    | _ => takeWord cs

/-- The rest of an array, from an item or the closing bracket on. -/
def takeItems : Nat → Nat → List Char → Option (Value × List Char)
  | 0, _, _ => none
  | _, _, ']' :: cs => some (.array [], cs)
  | fuel + 1, depth, cs => do
    let (item, cs) ← takeValue fuel depth cs
    match skipLines fuel cs with
    | ',' :: cs =>
      match ← takeItems fuel depth (skipLines fuel cs) with
      | (.array items, cs) => some (.array (item :: items), cs)
      | _ => none
    | ']' :: cs => some (.array [item], cs)
    | _ => none

/-- The rest of an inline table, from a key on, given the entries before it. -/
def takeFields : Nat → Nat → Entries → List Char → Option (Value × List Char)
  | 0, _, _, _ => none
  | fuel + 1, depth, es, cs => do
    let (keys, cs) ← takeKey fuel cs
    match cs with
    | '=' :: cs => do
      let (value, cs) ← takeValue fuel depth (skipGap cs)
      let es ← setDotted (.value value) .header false keys es
      match skipGap cs with
      | ',' :: cs => takeFields fuel depth es cs
      | '\x7d' :: cs => some (.table (fieldsOf es), cs)
      | _ => none
    | _ => none

end

/-! ### Lines -/

/-- A line of a document that is not empty. -/
def takeLine (fuel : Nat) : List Char → Option (Line × List Char)
  | '[' :: '[' :: cs => do
    let (keys, cs) ← takeKey fuel cs
    match cs with
    | ']' :: ']' :: cs => some (.element keys, cs)
    | _ => none
  | '[' :: cs => do
    let (keys, cs) ← takeKey fuel cs
    match cs with
    | ']' :: cs => some (.header keys, cs)
    | _ => none
  | cs => do
    let (keys, cs) ← takeKey fuel cs
    match cs with
    | '=' :: cs => do
      let (value, cs) ← takeValue fuel nestingLimit (skipGap cs)
      some (.pair keys value, cs)
    | _ => none

/-- The lines of a document. -/
def takeLines : Nat → List Char → Option (List Line)
  | 0, _ => none
  | fuel + 1, cs =>
    match skipLines fuel cs with
    | [] => some []
    | cs => do
      let (line, cs) ← takeLine fuel cs
      let rest ← endLine cs
      let lines ← takeLines fuel rest
      some (line :: lines)

/-- The text behind a byte order mark. -/
def withoutMark : List Char → List Char
  | '\uFEFF' :: cs => cs
  | cs => cs

/-- The fields of a document. -/
def parse? (text : String) : Option (List (String × Value)) := do
  let cs := withoutMark text.toList
  let lines ← takeLines (2 * cs.length + 2) cs
  let entries ← build lines
  some (fieldsOf entries)

end TreeConsole.Toml
