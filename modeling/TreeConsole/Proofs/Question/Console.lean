import Mathlib.Data.PFun
import Mathlib.Logic.Relation
import TreeConsole.Question.Confirmer

/-!
# Questions put to anybody

A terminal lays out in advance what will be read, and once it has failed to write it goes on
failing. Whoever is asked need not be like that. Here a question is put over any means of writing
and reading: each may fail at any time and work again later, what is written may decide what is read
next, and lines may come for ever. Then a question may be put for ever too, and putting it gives
none.

Putting a question goes in rounds, in each of which it is written out and something is read. All
rounds but the last end with an answer that says neither yes nor no. The last one ends with a yes or
a no, or with nothing to go by, and then the default is taken.

## Main definitions

* `Console` — a means of writing and reading
* `Question.put` — puts a question until it is answered
* `Console.Round` and `Console.Settled` — the rounds of putting a question, and the last of them

## Main results

* `Question.mem_put_iff` — what putting a question comes to, round by round
* `Question.says_yes_of_put` — a yes that is not the default was read after the question was written
* `Confirmer.onConsole_terminal` — a terminal is such a means, and asking it is putting the question
-/

namespace TreeConsole

/-- What an attempt to read a line comes to. -/
inductive Delivery where
  /-- A text, and how many bytes were read for it; none are an end of input. -/
  | line (count : Nat) (text : String)
  /-- The user broke off the read. -/
  | interrupted
  /-- The read failed. -/
  | failed (reason : String)
  deriving DecidableEq, Repr

/-- What an attempt to read an answer says. -/
def Delivery.verdict : Delivery → Verdict
  | .line 0 _ | .interrupted | .failed _ => .silent
  | .line (_ + 1) text => .ofFirst text.toList.head?

/-- A means of writing and reading, over a state. Writing a text and having it written out are told
apart, since either may fail. -/
structure Console (ι : Type) where
  write : String → ι → Bool × ι
  flush : ι → Bool × ι
  read : ι → Delivery × ι

variable {ι : Type} {c : Console ι} {q : Question} {v : Verdict} {s s' s₀ : ι} {answer : Bool}

/-- Writes a text and has it written out. -/
def Console.writeOut (c : Console ι) (text : String) (s : ι) : Bool × ι :=
  match c.write text s with
  | (false, s) => (false, s)
  | (true, s) => c.flush s

/-- Takes the default and ends the line, if it can be ended. -/
def Question.giveUpOn (c : Console ι) (q : Question) (s : ι) : Bool × ι :=
  (q.default, (c.write "\n" s).2)

/-- Puts a question once. There is an answer, or the question is to be put again. -/
def Question.putOnce (c : Console ι) (q : Question) (s : ι) : (Bool × ι) ⊕ ι :=
  match c.writeOut q.text s with
  | (false, s) => .inl (q.giveUpOn c s)
  | (true, s) =>
    match (c.read s).1.verdict with
    | .yes => .inl (true, (c.read s).2)
    | .no => .inl (false, (c.read s).2)
    | .silent => .inl (q.giveUpOn c (c.read s).2)
    | .unclear => .inr (c.read s).2

/-- Puts a question until it is answered. A question that is put for ever has no answer. -/
def Question.put (c : Console ι) (q : Question) : ι → Part (Bool × ι) :=
  PFun.fix fun s => Part.some (q.putOnce c s)

/-! ### Rounds -/

namespace Console

/-- In a round the question is written out and something is read, which has a verdict. -/
def Round (c : Console ι) (q : Question) (v : Verdict) (s s' : ι) : Prop :=
  ∃ s₁ d, c.writeOut q.text s = (true, s₁) ∧ c.read s₁ = (d, s') ∧ d.verdict = v

/-- How the last round ends: with an answer and a state. -/
inductive Settled (c : Console ι) (q : Question) : ι → Bool → ι → Prop
  | yes {s s' : ι} (h : c.Round q .yes s s') : Settled c q s true s'
  | no {s s' : ι} (h : c.Round q .no s s') : Settled c q s false s'
  /-- There is nothing to go by. -/
  | silent {s s' : ι} (h : c.Round q .silent s s') : Settled c q s q.default (c.write "\n" s').2
  /-- The question could not be written, and nothing was read. -/
  | unwritten {s s' : ι} (h : c.writeOut q.text s = (false, s')) :
    Settled c q s q.default (c.write "\n" s').2

end Console

namespace Question

/-- The question is put again only after a round that was no answer. -/
theorem round_of_putOnce (h : q.putOnce c s = .inr s') : c.Round q .unclear s s' := by
  unfold putOnce at h
  rcases hwrite : c.writeOut q.text s with ⟨_ | _, s₁⟩ <;> simp only [hwrite] at h
  · cases h
  · cases hv : (c.read s₁).1.verdict <;> simp only [hv] at h <;> cases h
    exact ⟨s₁, (c.read s₁).1, hwrite, rfl, hv⟩

theorem putOnce_of_round (h : c.Round q .unclear s s') : q.putOnce c s = .inr s' := by
  obtain ⟨s₁, d, hwrite, hread, hd⟩ := h
  simp only [putOnce, hwrite, hread, hd]

theorem settled_of_putOnce (h : q.putOnce c s = .inl (answer, s')) : c.Settled q s answer s' := by
  unfold putOnce at h
  rcases hwrite : c.writeOut q.text s with ⟨_ | _, s₁⟩ <;> simp only [hwrite] at h
  · cases h
    exact .unwritten hwrite
  · have hround : c.Round q (c.read s₁).1.verdict s (c.read s₁).2 :=
      ⟨s₁, (c.read s₁).1, hwrite, rfl, rfl⟩
    cases hv : (c.read s₁).1.verdict <;> rw [hv] at hround <;> simp only [hv] at h
    case yes =>
      cases h
      exact .yes hround
    case no =>
      cases h
      exact .no hround
    case silent =>
      cases h
      exact .silent hround
    case unclear => cases h

theorem putOnce_of_settled (h : c.Settled q s answer s') : q.putOnce c s = .inl (answer, s') := by
  cases h with
  | unwritten hwrite => simp only [putOnce, hwrite, giveUpOn]
  | yes h | no h | silent h =>
    obtain ⟨s₁, d, hwrite, hread, hd⟩ := h
    simp only [putOnce, hwrite, hread, hd, giveUpOn]

/-- A question is answered the first time, or after it was put again. -/
theorem mem_put {r : Bool × ι} :
    r ∈ q.put c s ↔ q.putOnce c s = .inl r ∨ ∃ s', q.putOnce c s = .inr s' ∧ r ∈ q.put c s' := by
  refine PFun.mem_fix_iff.trans ?_
  simp only [Part.mem_some_iff, eq_comm, put]

theorem mem_put_of_settled (h : c.Settled q s answer s') : (answer, s') ∈ q.put c s :=
  mem_put.mpr (Or.inl (putOnce_of_settled h))

theorem mem_put_of_round {r : Bool × ι} (h : c.Round q .unclear s s₀) (again : r ∈ q.put c s₀) :
    r ∈ q.put c s :=
  mem_put.mpr (Or.inr ⟨s₀, putOnce_of_round h, again⟩)

/-- A question is answered after some rounds that were no answer and one that settles it. -/
theorem mem_put_iff : (answer, s') ∈ q.put c s ↔
    ∃ s₀, Relation.ReflTransGen (c.Round q .unclear) s s₀ ∧ c.Settled q s₀ answer s' := by
  constructor
  · -- The answer is reached by finitely many rounds, so the induction may be on them.
    intro h
    refine PFun.fixInduction' h (fun s₀ hfinal => ?_) fun s s₁ _ hnext ih => ?_
    · exact ⟨s₀, .refl, settled_of_putOnce (Part.mem_some_iff.mp hfinal).symm⟩
    · obtain ⟨s₀, hrounds, hsettled⟩ := ih
      exact ⟨s₀, .head (round_of_putOnce (Part.mem_some_iff.mp hnext).symm) hrounds, hsettled⟩
  · rintro ⟨s₀, hrounds, hsettled⟩
    induction hrounds using Relation.ReflTransGen.head_induction_on with
    | refl => exact mem_put_of_settled hsettled
    | head hround _ ih => exact mem_put_of_round hround ih

end Question

/-! ### A yes is read -/

theorem Verdict.ofFirst_eq_yes_iff {first : Option Char} :
    ofFirst first = .yes ↔ first = some 'y' ∨ first = some 'Y' := by
  unfold ofFirst
  split <;> simp_all

theorem Delivery.verdict_eq_yes_iff {d : Delivery} : d.verdict = .yes ↔
    ∃ count text, d = .line count text ∧ count ≠ 0 ∧
      (text.toList.head? = some 'y' ∨ text.toList.head? = some 'Y') := by
  constructor
  · intro h
    cases d with
    | line count text =>
      cases count with
      | zero => cases h
      | succ count => exact ⟨_, text, rfl, count.succ_ne_zero, Verdict.ofFirst_eq_yes_iff.mp h⟩
    | interrupted | failed => cases h
  · rintro ⟨count, text, rfl, hcount, htext⟩
    obtain ⟨count, rfl⟩ := Nat.exists_eq_succ_of_ne_zero hcount
    exact Verdict.ofFirst_eq_yes_iff.mpr htext

/-- After some rounds that were no answer the question was written out, then a line was read that
begins with a letter y, small or capital, and that was the last thing that happened. -/
def Console.SaysYes (c : Console ι) (q : Question) (s s' : ι) : Prop :=
  ∃ s₀ s₁ count text, Relation.ReflTransGen (c.Round q .unclear) s s₀ ∧
    c.writeOut q.text s₀ = (true, s₁) ∧ c.read s₁ = (.line count text, s') ∧ count ≠ 0 ∧
      (text.toList.head? = some 'y' ∨ text.toList.head? = some 'Y')

/-- Where silence means no, a yes was read after the question was written. -/
theorem Question.says_yes_of_put (hq : q.default = false) (h : (true, s') ∈ q.put c s) :
    c.SaysYes q s s' := by
  obtain ⟨s₀, hrounds, hsettled⟩ := mem_put_iff.mp h
  -- The default is no, so only a round with a yes can have been the last.
  generalize hanswer : true = answer at hsettled
  cases hsettled with
  | yes hround =>
    obtain ⟨s₁, d, hwrite, hread, hd⟩ := hround
    obtain ⟨count, text, rfl, hcount, htext⟩ := Delivery.verdict_eq_yes_iff.mp hd
    exact ⟨s₀, s₁, count, text, hrounds, hwrite, hread, hcount, htext⟩
  | no => cases hanswer
  | silent | unwritten =>
    rw [hq] at hanswer
    cases hanswer

/-! ### Terminals -/

/-- What a reading of a terminal comes to. -/
def Reading.delivery : Reading → Delivery
  | .line bytes _ => .line bytes.length (Utf8.toText bytes)
  | .interrupted => .interrupted
  | .endOfInput => .line 0 ""
  | .failed reason => .failed reason

theorem Reading.verdict_delivery (r : Reading) : r.delivery.verdict = r.verdict := by
  cases r with
  | line bytes nonempty =>
    obtain ⟨b, bytes, rfl⟩ := List.exists_cons_of_ne_nil nonempty
    simp [delivery, Delivery.verdict, verdict, Utf8.toText]
  | interrupted | endOfInput | failed => rfl

namespace Console

/-- Writing to a terminal and reading from it. -/
def terminal : Console Terminal where
  write text t := t.write text
  flush t := t.flush
  read t := (t.read.1.delivery, t.read.2)

theorem writeOut_terminal (text : String) (t : Terminal) :
    terminal.writeOut text t = t.writeOut text := by
  rcases h : t.write text with ⟨_ | _, t'⟩ <;> simp [writeOut, terminal, Terminal.writeOut, h]

end Console

/-- Putting a question once on a terminal. -/
theorem Question.putOnce_terminal {t : Terminal} (h : (t.writeOut q.text).1 = true) :
    q.putOnce .terminal t =
      match (t.writeOut q.text).2.read.1.verdict with
      | .yes => .inl (true, (t.writeOut q.text).2.read.2)
      | .no => .inl (false, (t.writeOut q.text).2.read.2)
      | .silent => .inl (q.giveUp (t.writeOut q.text).2.read.2)
      | .unclear => .inr (t.writeOut q.text).2.read.2 := by
  have hwrite : Console.terminal.writeOut q.text t = (true, (t.writeOut q.text).2) := by
    rw [Console.writeOut_terminal, ← h]
  rw [putOnce, hwrite]
  simp only [Console.terminal, Reading.verdict_delivery]
  rfl

/-- Putting a question on a terminal is asking it there. -/
theorem Question.put_terminal (q : Question) (t : Terminal) :
    q.put .terminal t = Part.some (q.ask t) := by
  rw [Part.eq_some_iff]
  fun_induction ask q t with
  | case1 t h =>
    have hfailed : (t.writeOut q.text).1 = false := by simpa using h
    have hwrite : Console.terminal.writeOut q.text t = (false, (t.writeOut q.text).2) := by
      rw [Console.writeOut_terminal, ← hfailed]
    refine mem_put.mpr (Or.inl ?_)
    rw [putOnce, hwrite]
    rfl
  | case2 t h hempty =>
    have hread : (t.writeOut q.text).2.read.1.verdict = .silent := by
      rw [Terminal.read, hempty]
      exact Ending.verdict_reading _
    refine mem_put.mpr (Or.inl ?_)
    rw [putOnce_terminal (by simpa using h), hread]
  | case3 t h r rest hincoming hv | case4 t h r rest hincoming hv | case5 t h r rest hincoming hv =>
    refine mem_put.mpr (Or.inl ?_)
    rw [putOnce_terminal (by simpa using h), Terminal.read_of_incoming hincoming, hv]
  | case6 t h r rest hincoming hv ih =>
    refine mem_put.mpr (Or.inr ⟨_, ?_, ih⟩)
    have hread : (t.writeOut q.text).2.read.1.verdict = .unclear := by
      rw [Terminal.read_of_incoming hincoming, hv]
    rw [putOnce_terminal (by simpa using h), hread]

namespace Confirmer

open Classical in
/-- Puts questions over a means of writing and reading. A question that is put for ever is taken to
have its default for an answer. -/
noncomputable def onConsole (c : Console ι) : Confirmer ι where
  ask q s := (q.put c s).getOrElse (q.default, s)

theorem says_yes_of_onConsole (hq : q.default = false)
    (h : (onConsole c).ask q s = (true, s')) : c.SaysYes q s s' := by
  classical
  have hask : (onConsole c).ask q s = (q.put c s).getOrElse (q.default, s) := rfl
  rw [hask] at h
  by_cases hanswered : (q.put c s).Dom
  · rw [Part.getOrElse_of_dom _ hanswered] at h
    exact Question.says_yes_of_put hq (h ▸ Part.get_mem hanswered)
  · rw [Part.getOrElse_of_not_dom _ hanswered, hq] at h
    cases h

/-- The user at a terminal is asked over that terminal. -/
theorem onConsole_terminal : onConsole .terminal = onTerminal := by
  simp only [onConsole, Question.put_terminal, Part.getOrElse_some]
  rfl

end Confirmer
end TreeConsole
