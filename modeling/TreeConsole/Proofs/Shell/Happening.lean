import Mathlib.Data.Stream.Init
import TreeConsole.Question.Basic
import TreeConsole.Session

/-!
# What happens on a terminal

A terminal keeps what was written and read, but not by whom and what for. A log tells that too:
that a prompt was written or a question, that a line was read to be run or as an answer. A log takes
one terminal to another when it accounts for all that was written and read in between, for the
readings in the order in which they had been laid out, and for how often the terminal was asked how
wide it is.

A question that is put on a terminal goes in rounds, and every round has one reading.

## Main definitions

* `Happening` — what a log is made of
* `Terminal.source` — what all the reads of a terminal will deliver
* `Terminal.Takes` — a log takes one terminal to another
* `Question.Inquiry` — the logs of questions
* `Paired` — every reading of a log has its own prompt or question right before it

## Main results

* `Terminal.Takes.append` — logs are put together at the terminal between them
* `Question.ask_takes` — to ask on a terminal is an inquiry
-/

namespace TreeConsole

/-- Something that happens in a conversation. -/
inductive Happening where
  /-- The terminal is asked for its width and a prompt is written. -/
  | prompted (session : Session)
  /-- A line is read behind a prompt, or there is none. -/
  | heard (reading : Reading)
  /-- A line is run. -/
  | ran (line : String)
  /-- A question is written. -/
  | asked (question : Question)
  /-- A line is read behind a question, or there is none. -/
  | answered (reading : Reading)
  /-- Something else is written. -/
  | said (text : String)

namespace Happening

/-- What is left of it on a terminal. -/
def events : Happening → List Event
  | prompted session => [.wrote (Utf8.ofText session.prompt)]
  | asked question => [.wrote (Utf8.ofText question.text)]
  | said text => [.wrote (Utf8.ofText text)]
  | heard reading | answered reading => [.read reading]
  | ran _ => []

/-- What was read, if it was a reading. -/
def reading? : Happening → Option Reading
  | heard reading | answered reading => some reading
  | prompted _ | ran _ | asked _ | said _ => none

/-- The session that a prompt was written for, if it was a prompt. -/
def session? : Happening → Option Session
  | prompted session => some session
  | _ => none

/-- What was read behind a prompt. -/
def heard? : Happening → Option Reading
  | heard reading => some reading
  | _ => none

/-- The line that was run, if one was. -/
def ran? : Happening → Option String
  | ran line => some line
  | _ => none

/-- Whether it has to do with a question or a reply. -/
def isAside : Happening → Bool
  | asked _ | answered _ | said _ => true
  | prompted _ | heard _ | ran _ => false

end Happening

variable {log log' : List Happening} {a : Happening} {text : String}

/-- Every reading has a prompt or a question of its own right before it, and every prompt and every
question has a reading of its own right behind it. -/
inductive Paired : List Happening → Prop
  | nil : Paired []
  | heard {session : Session} {reading : Reading} {log : List Happening} (rest : Paired log) :
    Paired (.prompted session :: .heard reading :: log)
  | answered {question : Question} {reading : Reading} {log : List Happening} (rest : Paired log) :
    Paired (.asked question :: .answered reading :: log)
  | ran {line : String} {log : List Happening} (rest : Paired log) : Paired (.ran line :: log)
  | said {text : String} {log : List Happening} (rest : Paired log) : Paired (.said text :: log)

theorem Paired.append (h : Paired log) (h' : Paired log') : Paired (log ++ log') := by
  induction h with
  | nil => exact h'
  | heard _ ih => exact .heard ih
  | answered _ ih => exact .answered ih
  | ran _ ih => exact .ran ih
  | said _ ih => exact .said ih

/-! ### Terminals -/

namespace Terminal

variable {t t' t'' : Terminal}

/-- What all the reads of a terminal will deliver, one after the other. -/
def source (t : Terminal) : Stream' Reading := t.incoming ++ₛ Stream'.const t.ending.reading

/-- A read delivers what comes first. -/
theorem source_eq_cons (t : Terminal) : t.source = Stream'.cons t.read.1 t.read.2.source := by
  unfold source read
  cases t.incoming with
  | nil => exact Stream'.const_eq _
  | cons r rest => exact Stream'.cons_append_stream r rest _

/-- A log takes one terminal that takes whatever is written to another. It is all that was written
and read in between, what was read is what came first, and the terminal was asked for its width once
for every prompt. -/
structure Takes (t : Terminal) (log : List Happening) (t' : Terminal) : Prop where
  transcript : t'.transcript = t.transcript ++ log.flatMap Happening.events
  source : t.source = log.filterMap Happening.reading? ++ₛ t'.source
  widths : ∀ n, t'.widths n = t.widths ((log.filterMap Happening.session?).length + n)
  isOpen : t'.IsOpen

namespace Takes

theorem nil (h : t.IsOpen) : t.Takes [] t where
  transcript := (List.append_nil _).symm
  source := rfl
  widths n := congrArg t.widths (Nat.zero_add n).symm
  isOpen := h

theorem append (h : t.Takes log t') (h' : t'.Takes log' t'') : t.Takes (log ++ log') t'' where
  transcript := by
    rw [h'.transcript, h.transcript, List.flatMap_append, List.append_assoc]
  source := by
    rw [h.source, h'.source, List.filterMap_append, Stream'.append_append_stream]
  widths n := by
    rw [h'.widths, h.widths, List.filterMap_append, List.length_append, Nat.add_assoc]
  isOpen := h'.isOpen

/-- A terminal that never told its width still tells none. -/
theorem widthless (h : t.Takes log t') (hwidth : ∀ n, t.widths n = none) (n : Nat) :
    t'.widths n = none :=
  (h.widths n).trans (hwidth _)

/-- What is written is no prompt if the terminal is not asked for its width before. -/
theorem write (h : t.IsOpen) (ha : a.events = [.wrote (Utf8.ofText text)])
    (hread : a.reading? = none) (hsession : a.session? = none) : t.Takes [a] (t.write text).2 where
  transcript := by
    rw [List.flatMap_singleton, ha]
    simp [Terminal.write, writeBytes, fitting, h.room]
  source := by
    rw [List.filterMap_cons_none hread]
    rfl
  widths n := by
    rw [List.filterMap_cons_none hsession]
    exact congrArg t.widths (Nat.zero_add n).symm
  isOpen := h.write text

theorem prompt (h : t.IsOpen) (session : Session) :
    t.Takes [.prompted session] (t.measure.2.write session.prompt).2 where
  transcript := by
    simp [Terminal.write, writeBytes, fitting, measure, h.room, Happening.events]
  source := rfl
  widths n := congrArg t.widths (Nat.add_comm n 1)
  isOpen := h.measure.write session.prompt

theorem read (h : t.IsOpen) (ha : a.events = [.read t.read.1])
    (hread : a.reading? = some t.read.1) (hsession : a.session? = none) : t.Takes [a] t.read.2 where
  transcript := by
    rw [List.flatMap_singleton, ha]
    unfold Terminal.read
    split <;> rfl
  source := by
    rw [List.filterMap_cons_some hread]
    exact t.source_eq_cons
  widths n := by
    have hwidths : t.read.2.widths = t.widths := by
      unfold Terminal.read
      split <;> rfl
    rw [List.filterMap_cons_none hsession, hwidths]
    exact congrArg t.widths (Nat.zero_add n).symm
  isOpen := h.read

/-- To run a line leaves nothing on the terminal by itself. -/
theorem ran (h : t.IsOpen) (line : String) : t.Takes [.ran line] t where
  transcript := (List.append_nil _).symm
  source := rfl
  widths n := congrArg t.widths (Nat.zero_add n).symm
  isOpen := h

end Takes

end Terminal

/-! ### Questions -/

namespace Question

variable {q : Question} {answer : Bool}

/-- The log of a question: it is written and an answer is read, again and again until there is an
answer that says yes or no, or there is none. -/
inductive Inquiry (q : Question) : List Happening → Bool → Prop
  | yes {r : Reading} (h : r.verdict = .yes) : Inquiry q [.asked q, .answered r] true
  | no {r : Reading} (h : r.verdict = .no) : Inquiry q [.asked q, .answered r] false
  | silent {r : Reading} (h : r.verdict = .silent) :
    Inquiry q [.asked q, .answered r, .said "\n"] q.default
  | unclear {r : Reading} {log : List Happening} {answer : Bool} (h : r.verdict = .unclear)
    (again : Inquiry q log answer) : Inquiry q (.asked q :: .answered r :: log) answer

theorem Inquiry.paired (h : q.Inquiry log answer) : Paired log := by
  induction h with
  | yes | no => exact .answered .nil
  | silent => exact .answered (.said .nil)
  | unclear _ _ ih => exact .answered ih

theorem Inquiry.isAside (h : q.Inquiry log answer) : ∀ a ∈ log, a.isAside = true := by
  induction h with
  | yes | no | silent => simp [Happening.isAside]
  | unclear _ _ ih => simpa [Happening.isAside] using ih

/-- One round of a question. -/
theorem round_takes (q : Question) {t : Terminal} (h : t.IsOpen) :
    t.Takes [.asked q, .answered (t.writeOut q.text).2.read.1] (t.writeOut q.text).2.read.2 := by
  have hasked : t.Takes [.asked q] (t.writeOut q.text).2 := by
    rw [Terminal.writeOut_of_isOpen h]
    exact .write h rfl rfl rfl
  exact hasked.append (.read hasked.isOpen rfl rfl rfl)

theorem giveUp_takes (q : Question) {t : Terminal} (h : t.IsOpen) :
    t.Takes [.said "\n"] (q.giveUp t).2 := .write h rfl rfl rfl

/-- To ask on a terminal that takes whatever is written is an inquiry, and nothing else happens. -/
theorem ask_takes (q : Question) {t : Terminal} (h : t.IsOpen) :
    ∃ log, q.Inquiry log (q.ask t).1 ∧ t.Takes log (q.ask t).2 := by
  -- By the rounds: each has one reading, and only an unclear answer leads to another round.
  fun_induction ask q t with
  | case1 t hunwritten =>
    rw [Terminal.writeOut_of_isOpen h] at hunwritten
    cases hunwritten
  | case2 t _ hnone =>
    have hround := q.round_takes h
    have hsilent : (t.writeOut q.text).2.read.1.verdict = .silent := by
      rw [Terminal.read, hnone]
      exact Ending.verdict_reading _
    exact ⟨_, .silent hsilent, hround.append (q.giveUp_takes hround.isOpen)⟩
  | case3 t _ r rest hincoming hv =>
    have hround := q.round_takes h
    rw [Terminal.read_of_incoming hincoming] at hround ⊢
    exact ⟨_, .yes hv, hround⟩
  | case4 t _ r rest hincoming hv =>
    have hround := q.round_takes h
    rw [Terminal.read_of_incoming hincoming] at hround ⊢
    exact ⟨_, .no hv, hround⟩
  | case5 t _ r rest hincoming hv =>
    have hround := q.round_takes h
    rw [Terminal.read_of_incoming hincoming] at hround ⊢
    exact ⟨_, .silent hv, hround.append (q.giveUp_takes hround.isOpen)⟩
  | case6 t _ r rest hincoming hv ih =>
    have hround := q.round_takes h
    obtain ⟨log, hlog, htakes⟩ := ih hround.isOpen
    rw [Terminal.read_of_incoming hincoming] at hround hlog htakes ⊢
    exact ⟨_, .unclear hv hlog, hround.append htakes⟩

end Question
end TreeConsole
