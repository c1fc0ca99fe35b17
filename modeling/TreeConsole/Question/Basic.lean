import TreeConsole.Terminal

/-!
# Questions

Questions that are answered with yes or no, and how they are put on a terminal. The first character
of an answer decides, in either case; an answer that starts with anything else, an empty one too, is
asked for again. When the input ends, fails or is broken off, or the question cannot be written out,
the default is taken and the line is ended.

Main statements: `ask_of_unwritable` reads nothing when the question cannot be written out, and
`length_incoming_ask_le`.
-/

namespace TreeConsole

/-- A question with two answers. -/
structure Question where
  message : String
  /-- The answer that is taken when none is given. -/
  default : Bool
  deriving DecidableEq, Repr, Inhabited

/-- What an answer says. -/
inductive Verdict where
  | yes
  | no
  /-- The question has to be asked again. -/
  | unclear
  /-- There will be no answer. -/
  | silent
  deriving DecidableEq, Repr

/-- What the first character of an answer says. -/
def Verdict.ofFirst : Option Char → Verdict
  | some 'y' | some 'Y' => .yes
  | some 'n' | some 'N' => .no
  | _ => .unclear

/-- What a reading says. -/
def Reading.verdict : Reading → Verdict
  | .line bytes _ => .ofFirst (Utf8.decode bytes).head?
  | .interrupted | .endOfInput | .failed _ => .silent

theorem Ending.verdict_reading (e : Ending) : e.reading.verdict = .silent := by
  cases e <;> rfl

namespace Question

/-- A question as it is written. -/
def text (q : Question) : String := q.message ++ " [y/n] "

/-- Takes the default and ends the line. -/
def giveUp (q : Question) (t : Terminal) : Bool × Terminal := (q.default, (t.write "\n").2)

/-- Puts a question until it is answered. -/
def ask (q : Question) (t : Terminal) : Bool × Terminal :=
  if !(t.writeOut q.text).1 then q.giveUp (t.writeOut q.text).2
  else
    match _h : (t.writeOut q.text).2.incoming with
    | [] => q.giveUp (t.writeOut q.text).2.read.2
    | r :: _ =>
      match r.verdict with
      | .yes => (true, (t.writeOut q.text).2.read.2)
      | .no => (false, (t.writeOut q.text).2.read.2)
      | .silent => q.giveUp (t.writeOut q.text).2.read.2
      | .unclear => q.ask (t.writeOut q.text).2.read.2
termination_by t.incoming.length
decreasing_by
  have hlen := congrArg List.length _h
  simp only [Terminal.incoming_writeOut, List.length_cons] at hlen
  rw [Terminal.read_of_incoming _h]
  simp [hlen]

theorem ask_of_unwritable {q : Question} {t : Terminal} (h : (t.writeOut q.text).1 = false) :
    q.ask t = q.giveUp (t.writeOut q.text).2 := by
  rw [ask]
  simp [h]

theorem length_incoming_ask_le (q : Question) (t : Terminal) :
    (q.ask t).2.incoming.length ≤ t.incoming.length := by
  fun_induction ask q t with
  | case1 t h => simp [giveUp]
  | case2 t _ h =>
    exact Nat.le_trans (Terminal.length_incoming_read_le _) (by simp)
  | case3 t _ r rest h _ =>
    exact Nat.le_trans (Terminal.length_incoming_read_le _) (by simp)
  | case4 t _ r rest h _ =>
    exact Nat.le_trans (Terminal.length_incoming_read_le _) (by simp)
  | case5 t _ r rest h _ =>
    exact Nat.le_trans (Terminal.length_incoming_read_le _) (by simp)
  | case6 t _ r rest h _ ih =>
    exact Nat.le_trans ih (Nat.le_trans (Terminal.length_incoming_read_le _) (by simp))

end Question
end TreeConsole
