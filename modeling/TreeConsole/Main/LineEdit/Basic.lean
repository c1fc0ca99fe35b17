import TreeConsole.Text.Utf8

/-!
# Line edits

What the line editor among the small programs does: a small language of edits that are made to a
file line by line. They are substitutions of a pattern, deletions, repetitions, insertions and
exchanges of bytes, each for the lines that an address picks out. A pattern is a row of bytes, each
of some class and there once or a number of times.

Everything works on bytes. A last line without a line feed stays without one.
-/

namespace TreeConsole.Console.LineEdit

/-! ### Patterns -/

/-- A part of a pattern. -/
inductive Piece where
  /-- One byte. -/
  | one (test : UInt8 → Bool)
  /-- A number of bytes between two bounds, the upper of which may be missing. -/
  | many (test : UInt8 → Bool) (least : Nat) (most : Option Nat)
  /-- The end of the line. -/
  | lineEnd

/-- What is looked for in a line. -/
structure Pattern where
  /-- Whether it is only looked for at the start of the line. -/
  anchored : Bool
  pieces : List Piece

/-- What follows the longest match at the start of some bytes. -/
def matchHere : List Piece → Bytes → Option Bytes
  | [], bs => some bs
  | .one test :: pieces, bs =>
    match bs with
    | [] => none
    | b :: bs => if test b then matchHere pieces bs else none
  | .many test least most :: pieces, bs =>
    let found := (bs.takeWhile test).length
    let most := min found (most.getD found)
    (List.range (most + 1)).reverse.findSome? fun k =>
      if k < least then none else matchHere pieces (bs.drop k)
  | .lineEnd :: pieces, bs => if bs.isEmpty then matchHere pieces bs else none

/-- A part of what is put in place of a match. -/
inductive Filling where
  | byte (b : UInt8)
  /-- The match itself. -/
  | whole

/-- What is put in place of a match. -/
def fill (filling : List Filling) (found : Bytes) : Bytes :=
  filling.flatMap fun
    | .byte b => [b]
    | .whole => found

/-! ### Instructions -/

/-- The lines an instruction is for. -/
inductive Address where
  | number (n : Nat)
  /-- One line and every so many behind it. -/
  | every (first step : Nat)
  | last
  | holding (pattern : Pattern)

/-- What an instruction does to a line. -/
inductive Action where
  /-- Replaces a match: the one with a number, or that and all later ones. -/
  | substitute (pattern : Pattern) (filling : List Filling) (nth : Nat) (all twice : Bool)
  | exchange (pairs : List (UInt8 × UInt8))
  | delete
  | print
  /-- Ends the work, with a status. -/
  | quit (status : Nat) (silent : Bool)
  | before (text : Bytes)
  | after (text : Bytes)
  | change (text : Bytes)

/-- An action for some lines. -/
structure Instruction where
  /-- No address, one, or the two ends of a range. -/
  addresses : List Address
  /-- Whether the action is for all other lines. -/
  negated : Bool
  action : Action
  /-- Whether the range began on a line before and goes on. -/
  isOpen : Bool := false

/-! ### Substitution -/

/-- Whether a pattern is found from some place on. -/
def Pattern.isIn (p : Pattern) : Bytes → Bool
  | [] => (matchHere p.pieces []).isSome
  | b :: bs =>
    (matchHere p.pieces (b :: bs)).isSome || (!p.anchored && p.isIn bs)

/-- Substitutes from some place of a line on. The number counts the matches down to the first one
that is replaced; `start` says whether the place is the start of the line, and `mayBeEmpty` whether
an empty match counts here, which it does not just behind a match. -/
def substituteFrom (p : Pattern) (filling : List Filling) (all : Bool) :
    Nat → Nat → Bool → Bool → Bytes → Bytes × Bool
  | 0, _, _, _, bs => (bs, false)
  | fuel + 1, nth, start, mayBeEmpty, bs =>
    let found := if p.anchored && !start then none else matchHere p.pieces bs
    let usable := found.filter fun rest => mayBeEmpty || rest.length < bs.length
    match usable, bs with
    | none, [] => ([], false)
    | none, b :: rest =>
      let r := substituteFrom p filling all fuel nth false true rest
      (b :: r.1, r.2)
    | some rest, _ =>
      let text := bs.take (bs.length - rest.length)
      let put := if nth ≤ 1 then fill filling text else text
      if nth ≤ 1 && !all then (put ++ rest, true)
      -- The next match starts behind this one and may not be empty there.
      else if rest.length < bs.length then
        let r := substituteFrom p filling all fuel (nth - 1) false false rest
        (put ++ r.1, r.2 || nth ≤ 1)
      else
        -- Behind an empty match one byte is kept, so that the search goes on.
        match bs with
        | [] => (put, nth ≤ 1)
        | b :: rest =>
          let r := substituteFrom p filling all fuel (nth - 1) false true rest
          (put ++ b :: r.1, r.2 || nth ≤ 1)

/-- Substitutes in a line, and says whether anything was. -/
def substitute (p : Pattern) (filling : List Filling) (nth : Nat) (all : Bool) (line : Bytes) :
    Bytes × Bool :=
  substituteFrom p filling all (line.length + 1) nth true true line

/-! ### Lines and their addresses -/

/-- A line where an instruction may apply. -/
structure Place where
  number : Nat
  isLast : Bool
  line : Bytes

/-- Whether an address names a line. -/
def Address.names (place : Place) : Address → Bool
  | number n => n == place.number
  | every first step =>
    first ≤ place.number && (place.number - first == 0 || (place.number - first) % step == 0) &&
      (step != 0 || place.number == first)
  | last => place.isLast
  | holding p => p.isIn place.line

/-- Whether an address names the line before the first. -/
def Address.isZero : Address → Bool
  | number n => n == 0
  | _ => false

/-- Whether an address is a pattern. -/
def Address.isPattern : Address → Bool
  | holding _ => true
  | _ => false

/-- Whether a range that ends at an address goes on behind a line. A pattern is not looked for on
the line where the range begins. -/
def Address.goesOn (place : Place) (begins : Bool) : Address → Bool
  | number n | every n _ => place.number < n
  | last => !place.isLast
  | holding p => begins || !p.isIn place.line

/-- Whether an instruction is for a line, with the instruction as the line leaves it. -/
def Instruction.look (i : Instruction) (place : Place) : Bool × Instruction :=
  match i.addresses with
  | [] => (!i.negated, i)
  | [a] => (a.names place != i.negated, i)
  | a :: b :: _ =>
    if i.isOpen || a.names place then
      (!i.negated, { i with isOpen := b.goesOn place !i.isOpen })
    else (i.negated, i)

/-- What becomes of a line: what is written before it, the line unless it is dropped, what is
written after it, and the status if the work ends here, with whether that is silent. A text that is
written before the line ends with a line feed unless it stands for a line that has none. -/
structure Effect where
  before : List (Bytes × Bool)
  line : Option Bytes
  after : List Bytes
  ended : Option (Nat × Bool)

/-- Applies instructions to a line, one after the other; gives the effect and the instructions as
the line leaves them. `complete` says whether the line has a line feed. -/
def apply (place : Place) (complete : Bool) :
    List Instruction → Effect → Effect × List Instruction
  | [], e => (e, [])
  | i :: is, e =>
    match e.line, e.ended with
    | some line, none =>
      let (isFor, i) := i.look { place with line }
      let goOn (e : Effect) : Effect × List Instruction :=
        let r := apply place complete is e
        (r.1, i :: r.2)
      if isFor then
        match i.action with
        | .substitute p filling nth all twice =>
          let r := substitute p filling nth all line
          let before := if r.2 && twice then e.before ++ [(r.1, complete)] else e.before
          goOn { e with line := some r.1, before }
        | .exchange pairs =>
          goOn { e with line := some (line.map fun b => (pairs.lookup b).getD b) }
        | .delete => ({ e with line := none }, i :: is)
        | .print => goOn { e with before := e.before ++ [(line, complete)] }
        | .quit status silent =>
          let kept := if silent then none else some line
          ({ e with ended := some (status, silent), line := kept }, i :: is)
        | .before text => goOn { e with before := e.before ++ [(text, true)] }
        | .after text => goOn { e with after := e.after ++ [text] }
        | .change text =>
          -- A range of lines is changed as a whole, where it ends.
          let put := if i.isOpen && !i.negated then [] else [(text, true)]
          ({ e with before := e.before ++ put, line := none }, i :: is)
      else goOn e
    | _, _ => (e, i :: is)

/-- Writes a line behind others; a line feed that was missing there is added. -/
def appendLine (text : Bytes) (complete : Bool) (written : Bytes × Bool) : Bytes × Bool :=
  (written.1 ++ (if written.2 then [] else [Utf8.lineFeed]) ++ text ++
    (if complete then [Utf8.lineFeed] else []), complete)

/-- Applies instructions to every line, and gives the status of the end as well; `quiet` drops the
lines themselves. -/
def editFrom (quiet : Bool) (number : Nat) (is : List Instruction) :
    List Bytes → Bytes × Bool → Nat × Bytes
  | [], written => (0, written.1)
  | l :: ls, written =>
    let complete := l.getLast? == some Utf8.lineFeed
    let line := if complete then l.dropLast else l
    let (e, is) := apply ⟨number, ls.isEmpty, line⟩ complete is ⟨[], some line, [], none⟩
    let kept := if quiet then [] else e.line.toList
    let written := e.before.foldl (fun w t => appendLine t.1 t.2 w) written
    let written := kept.foldl (fun w t => appendLine t complete w) written
    let written := e.after.foldl (fun w t => appendLine t true w) written
    -- The lines that nobody came to are lost. Only a silent end leaves out a missing line feed.
    match e.ended with
    | some (status, silent) =>
      (status, written.1 ++ if silent || written.2 then [] else [Utf8.lineFeed])
    | none => editFrom quiet (number + 1) is ls written

/-- Applies instructions to a file; gives the status and the new file. -/
def editAll (is : List Instruction) (quiet : Bool) (file : Bytes) : Nat × Bytes :=
  editFrom quiet 1 is (Utf8.lines file) ([], true)

end TreeConsole.Console.LineEdit
