import TreeConsole.Main.LineEdit.Basic

/-!
# Reading line edits

A script is a list of instructions, parted by semicolons and line feeds. In a pattern the dot, the
brackets, the star and the two anchors have a meaning of their own; so have a few signs behind a
backslash, or bare ones in an extended pattern. Patterns with parts are not read.
-/

namespace TreeConsole.Console.LineEdit

/-- The byte of an ASCII character. -/
def ascii (c : Char) : UInt8 := UInt8.ofNat c.toNat

/-- The bytes of a class that has a name. -/
def namedClass? (name : Bytes) : Option (UInt8 → Bool) :=
  let isUpper := fun x => ascii 'A' ≤ x && x ≤ ascii 'Z'
  let isLower := fun x => ascii 'a' ≤ x && x ≤ ascii 'z'
  let isNumber := fun x => ascii '0' ≤ x && x ≤ ascii '9'
  let isSpace := fun x => x == 32 || (9 ≤ x && x ≤ 13)
  ([("alpha", fun x => isUpper x || isLower x), ("digit", isNumber), ("upper", isUpper),
    ("lower", isLower), ("alnum", fun x => isUpper x || isLower x || isNumber x),
    ("space", isSpace), ("blank", fun x => x == 32 || x == 9)].map
      fun c => (Utf8.ofText c.1, c.2)).lookup name

/-- The members of a class in brackets, up to the closing bracket, and what follows it. A bracket
that comes first is a member. -/
def takeClass : Nat → Bool → Bytes → Option ((UInt8 → Bool) × Bytes)
  | 0, _, _ => none
  | _, _, [] => none
  | fuel + 1, first, a :: bs =>
    if a == ascii ']' && !first then some (fun _ => false, bs)
    else if a == ascii '[' && bs.head? == some (ascii ':') then do
      let name := (bs.drop 1).takeWhile (· != ascii ':')
      let test ← namedClass? name
      let r ← takeClass fuel false (bs.drop (name.length + 3))
      some (fun x => test x || r.1 x, r.2)
    else
      match bs with
      | d :: b :: rest =>
        if d == ascii '-' && b != ascii ']' then
          if b < a then none
          else (takeClass fuel false rest).map fun r => (fun x => (a ≤ x && x ≤ b) || r.1 x, r.2)
        else (takeClass fuel false bs).map fun r => (fun x => x == a || r.1 x, r.2)
      | _ => (takeClass fuel false bs).map fun r => (fun x => x == a || r.1 x, r.2)

/-- The control that a letter behind a backslash stands for. -/
def control? (c : UInt8) : Option UInt8 :=
  [(ascii 'a', 7), (ascii 't', 9), (ascii 'n', 10), (ascii 'v', 11), (ascii 'f', 12),
    (ascii 'r', 13)].lookup c

/-- The bytes that an escape stands for, if it stands for bytes. -/
def escaped? (c : UInt8) : Option (UInt8 → Bool) :=
  let isWord := fun x => x == ascii '_' || ((namedClass? (Utf8.ofText "alnum")).any (· x))
  let isSpace := fun x => (namedClass? (Utf8.ofText "space")).any (· x)
  if let some b := control? c then some (· == b)
  else if c == ascii 'w' then some isWord
  else if c == ascii 'W' then some fun x => !isWord x
  else if c == ascii 's' then some isSpace
  else if c == ascii 'S' then some fun x => !isSpace x
  else if isWord c then none
  else some (· == c)

/-- The signs with a meaning of their own that a backslash gives to a byte, or takes from it in an
extended pattern. -/
def isSign (c : UInt8) : Bool := "+?()\x7b\x7d|".toList.any fun s => ascii s == c

/-- A test that takes a letter for the other of its two cases as well. -/
def eitherCase (test : UInt8 → Bool) (x : UInt8) : Bool :=
  let c := Char.ofNat x.toNat
  test x || (x < 128 && (test (ascii c.toLower) || test (ascii c.toUpper)))

/-- One byte of a pattern as a test, and what follows it. In a folded pattern a letter stands for
both of its cases. -/
def takeSingle (extended folded : Bool) (fuel : Nat) (b : UInt8) (bs : Bytes) :
    Option ((UInt8 → Bool) × Bytes) :=
  let fold := fun test => if folded then eitherCase test else test
  if b == ascii '.' then some (fun _ => true, bs)
  else if b == ascii '[' then
    -- Cases are folded inside the brackets, so that a class leaves out both or neither.
    if bs.head? == some (ascii '^') then
      (takeClass fuel true (bs.drop 1)).map fun r => (fun x => !fold r.1 x, r.2)
    else (takeClass fuel true bs).map fun r => (fold r.1, r.2)
  else if b == ascii '\\' then
    match bs with
    | c :: rest => if isSign c && !extended then none else (escaped? c).map (·, rest)
    | [] => none
  else if extended && (isSign b || b == ascii '*') then none
  else some (fold fun x => x == b, bs)

/-- How often a byte of a pattern may stand there, and what follows the sign for it. -/
def takeBounds (extended : Bool) (bs : Bytes) : Option (Nat × Option Nat) × Bytes :=
  let sign := if extended then bs.head? else
    if bs.head? == some (ascii '\\') then (bs.drop 1).head? else none
  let rest := bs.drop (if extended then 1 else 2)
  if bs.head? == some (ascii '*') then (some (0, none), bs.drop 1)
  else if sign == some (ascii '+') then (some (1, none), rest)
  else if sign == some (ascii '?') then (some (0, some 1), rest)
  else (none, bs)

/-- The pieces of a pattern. -/
def takePieces (extended folded : Bool) : Nat → Bytes → Option (List Piece)
  | 0, _ => none
  | _, [] => some []
  | fuel + 1, b :: bs =>
    if b == ascii '$' && bs.isEmpty then some [.lineEnd]
    else do
      let (test, rest) ← takeSingle extended folded fuel b bs
      match takeBounds extended rest with
      | (some (least, most), rest) =>
        let pieces ← takePieces extended folded fuel rest
        some (.many test least most :: pieces)
      | (none, rest) =>
        let pieces ← takePieces extended folded fuel rest
        some (.one test :: pieces)

/-- Reads a pattern. -/
def Pattern.ofBytes (extended folded : Bool) (bs : Bytes) : Option Pattern := do
  if bs.isEmpty then none
  let anchored := bs.head? == some (ascii '^')
  let pieces ← takePieces extended folded (bs.length + 1) (if anchored then bs.drop 1 else bs)
  some ⟨anchored, pieces⟩

/-- The bytes up to a mark and what follows it. A mark behind a backslash is part of the text and
loses the backslash. -/
def takeUntil (mark : UInt8) : Bytes → Option (Bytes × Bytes)
  | [] => none
  | [b] => if b == mark then some ([], []) else none
  | b :: c :: rest =>
    if b == mark then some ([], c :: rest)
    else if b == ascii '\\' then
      (takeUntil mark rest).map fun r => ((if c == mark then [c] else [b, c]) ++ r.1, r.2)
    else (takeUntil mark (c :: rest)).map fun r => (b :: r.1, r.2)

/-- Whether a byte is a digit. -/
def isDigit (b : UInt8) : Bool := ascii '0' ≤ b && b ≤ ascii '9'

/-- The value of some digits. -/
def numberOf (bs : Bytes) : Nat := bs.foldl (fun n b => n * 10 + (b - ascii '0').toNat) 0

/-- Reads what is put in place of a match. A number behind a backslash would stand for a part of the
match, and no pattern has parts. -/
def fillings : Bytes → Option (List Filling)
  | [] => some []
  | [b] => some [if b == ascii '&' then .whole else .byte b]
  | b :: c :: rest =>
    if b == ascii '&' then (fillings (c :: rest)).map (.whole :: ·)
    else if b == ascii '\\' then
      if (escaped? c).isNone && c != ascii '_' then none
      else (fillings rest).map (.byte ((control? c).getD c) :: ·)
    else (fillings (c :: rest)).map (.byte b :: ·)

/-- Reads an address, if there is one. -/
def takeAddress (extended : Bool) (bs : Bytes) : Option (Option Address × Bytes) :=
  match bs with
  | [] => some (none, bs)
  | b :: rest =>
    if isDigit b then
      let n := numberOf (bs.takeWhile isDigit)
      let rest := bs.dropWhile isDigit
      if rest.head? == some (ascii '~') then
        some (some (.every n (numberOf ((rest.drop 1).takeWhile isDigit))),
          (rest.drop 1).dropWhile isDigit)
      else some (some (.number n), rest)
    else if b == ascii '$' then some (some .last, rest)
    else if b == ascii '/' then do
      let (text, rest) ← takeUntil b rest
      let folded := rest.head? == some (ascii 'I')
      let p ← Pattern.ofBytes extended folded text
      some (some (.holding p), if folded then rest.drop 1 else rest)
    else some (none, bs)

/-- Reads the addresses of an instruction. Line zero is only there for a range that a pattern ends,
which may then end on the first line. -/
def takeAddresses (extended : Bool) (bs : Bytes) : Option (List Address × Bytes) := do
  let (first, rest) ← takeAddress extended bs
  match first with
  | none => some ([], rest)
  | some a =>
    if rest.head? == some (ascii ',') then
      let (second, rest) ← takeAddress extended (rest.drop 1)
      let b ← second
      if a.isZero && !b.isPattern then none
      some ([a, b], rest)
    else if a.isZero then none
    else some ([a], rest)

/-- The options of a substitution. -/
structure Options where
  /-- Which match is replaced. -/
  number : Option Nat
  /-- Whether all later ones are as well. -/
  all : Bool
  /-- Whether the line is written once more. -/
  twice : Bool
  folded : Bool

/-- Reads the options of a substitution, each of which may be given once. -/
def takeOptions : Nat → Options → Bytes → Option Options
  | 0, _, _ => none
  | _, o, [] => some o
  | fuel + 1, o, b :: bs =>
    if b == ascii 'g' && !o.all then takeOptions fuel { o with all := true } bs
    else if b == ascii 'p' && !o.twice then takeOptions fuel { o with twice := true } bs
    else if b == ascii 'I' || b == ascii 'i' then takeOptions fuel { o with folded := true } bs
    else if isDigit b && o.number.isNone then
      let n := numberOf ((b :: bs).takeWhile isDigit)
      if n = 0 then none else takeOptions fuel { o with number := some n } (bs.dropWhile isDigit)
    else none

/-- Whether a byte ends an instruction. -/
def isEnd (b : UInt8) : Bool := b == ascii ';' || b == Utf8.lineFeed

/-- Reads a substitution, behind its letter. -/
def takeSubstitution (extended : Bool) : Bytes → Option (Action × Bytes)
  | [] => none
  | mark :: rest => do
    let (pattern, rest) ← takeUntil mark rest
    let (filling, rest) ← takeUntil mark rest
    let filling ← fillings filling
    let letters := rest.takeWhile (!isEnd ·)
    let o ← takeOptions (letters.length + 1) ⟨none, false, false, false⟩ letters
    let p ← Pattern.ofBytes extended o.folded pattern
    some (.substitute p filling (o.number.getD 1) o.all o.twice, rest.dropWhile (!isEnd ·))

/-- Reads an exchange of bytes, behind its letter. -/
def takeExchange : Bytes → Option (Action × Bytes)
  | [] => none
  | mark :: rest => do
    let (old, rest) ← takeUntil mark rest
    let (new, rest) ← takeUntil mark rest
    if old.length = new.length then some (.exchange (old.zip new), rest) else none

/-- A text with what its backslashes stand for: a control, or the byte behind them. -/
def withoutBackslashes : Bytes → Bytes
  | b :: c :: rest =>
    if b == ascii '\\' then (control? c).getD c :: withoutBackslashes rest
    else b :: withoutBackslashes (c :: rest)
  | bs => bs

/-- The text of an instruction that puts lines in, up to the end of its line, and what follows. -/
def takeText (bs : Bytes) : Option (Bytes × Bytes) :=
  let bs := if bs.head? == some (ascii '\\') then bs.drop 1 else bs
  let text := bs.takeWhile (· != Utf8.lineFeed)
  if text.isEmpty then none else some (withoutBackslashes text, bs.drop text.length)

/-- Reads an action for a number of addresses. -/
def takeAction (extended : Bool) (addresses : Nat) : Bytes → Option (Action × Bytes)
  | [] => none
  | b :: rest =>
    if b == ascii 's' then takeSubstitution extended rest
    else if b == ascii 'y' then takeExchange rest
    else if b == ascii 'd' then some (.delete, rest)
    else if b == ascii 'p' then some (.print, rest)
    else if b == ascii 'q' || b == ascii 'Q' then
      if 1 < addresses then none
      else
        some (.quit (numberOf (rest.takeWhile isDigit) % 256) (b == ascii 'Q'),
          rest.dropWhile isDigit)
    else if b == ascii 'i' then (takeText rest).map fun r => (.before r.1, r.2)
    else if b == ascii 'a' then (takeText rest).map fun r => (.after r.1, r.2)
    else if b == ascii 'c' then (takeText rest).map fun r => (.change r.1, r.2)
    else none

/-- Reads the instructions of a script. -/
def takeScript (extended : Bool) : Nat → Bytes → Option (List Instruction)
  | 0, _ => none
  | fuel + 1, bs =>
    let bs := bs.dropWhile isEnd
    if bs.isEmpty then some []
    else if bs.head? == some (ascii '#') then
      takeScript extended fuel (bs.dropWhile (· != Utf8.lineFeed))
    else do
      let (addresses, rest) ← takeAddresses extended bs
      let negated := rest.head? == some (ascii '!')
      let rest := rest.dropWhile (· == ascii '!')
      let (action, rest) ← takeAction extended addresses.length rest
      if !(rest.take 1).all isEnd then none
      let more ← takeScript extended fuel rest
      let isOpen := addresses.head?.any Address.isZero
      some ({ addresses, negated, action, isOpen } :: more)

/-- Reads a script. -/
def script? (extended : Bool) (text : String) : Option (List Instruction) :=
  takeScript extended ((Utf8.ofText text).length + 1) (Utf8.ofText text)

end TreeConsole.Console.LineEdit
