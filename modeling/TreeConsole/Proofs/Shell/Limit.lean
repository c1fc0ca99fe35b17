import TreeConsole.Proofs.Shell.Ending

/-!
# Terminals with a limit

An output may take so many bytes and no more. What fits is written, and written out, as on an output
without a limit. The first write that does not fit uses up all the room there is, so that no text
can be written after it. A question on such an output has the same answer as without a limit, or it
cannot be written at some point and has its default for an answer.

## Main definitions

* `Terminal.limited` — a terminal that takes so many bytes more
* `Terminal.Spent` — a terminal that takes nothing more
* `Question.Alike` — asking on a limited output beside asking without a limit

## Main results

* `Terminal.write_limited`, `Terminal.writeOut_limited` — a text is written on both, or there is no
  room left
* `Question.ask_limited` — and so is a question
-/

namespace TreeConsole

/-! ### Terminals with a limit -/

namespace Terminal

variable {t : Terminal} {limit : Nat}

/-- A terminal that takes so many bytes more. -/
def limited (t : Terminal) (limit : Nat) : Terminal := { t with room := some limit }

/-- A terminal that takes nothing more. -/
def Spent (t : Terminal) : Prop := t.room = some 0

theorem read_limited (t : Terminal) (limit : Nat) :
    (t.limited limit).read = (t.read.1, t.read.2.limited limit) := by
  have hincoming : (t.limited limit).incoming = t.incoming := rfl
  unfold read
  rw [hincoming]
  cases t.incoming <;> rfl

theorem Spent.write (h : t.Spent) (text : String) : (t.write text).2.Spent := by
  rw [Spent] at h
  simp [Spent, Terminal.write, writeBytes, h]

theorem Spent.write_fails (h : t.Spent) {text : String} (htext : text ≠ "") :
    (t.write text).1 = false := by
  rw [Spent] at h
  have hbytes := Utf8.length_ofText_pos htext
  simp [Terminal.write, writeBytes, fits, h, List.length_pos_iff.mp hbytes]

theorem Spent.writeOut (h : t.Spent) (text : String) : (t.writeOut text).2.Spent := by
  simp only [Terminal.writeOut]
  split
  · exact h.write text
  · exact h.write text

theorem Spent.writeOut_fails (h : t.Spent) {text : String} (htext : text ≠ "") :
    (t.writeOut text).1 = false := by
  rw [writeOut_of_unwritten (h.write_fails htext)]
  exact h.write_fails htext

/-- What fits is written as on a terminal without a limit; what does not fit leaves no room. -/
theorem write_limited (h : t.IsOpen) (limit : Nat) (text : String) :
    (∃ left, left + (Utf8.ofText text).length = limit ∧
      (t.limited limit).write text = (true, (t.write text).2.limited left)) ∨
    (((t.limited limit).write text).1 = false ∧ ((t.limited limit).write text).2.Spent) := by
  rcases Nat.lt_or_ge limit (Utf8.ofText text).length with hover | hfits
  · refine Or.inr ⟨?_, ?_⟩
    · simp [Terminal.write, writeBytes, fits, limited, hover]
    · simp [Spent, Terminal.write, writeBytes, limited, Nat.le_of_lt hover]
  · refine Or.inl ⟨limit - (Utf8.ofText text).length, by omega, ?_⟩
    simp [Terminal.write, writeBytes, fits, fitting, limited, h.room, hfits,
      List.take_of_length_le hfits]

/-- What fits is written out as on a terminal without a limit, too. -/
theorem writeOut_limited (h : t.IsOpen) (limit : Nat) (text : String) :
    (∃ left, left + (Utf8.ofText text).length = limit ∧
      (t.limited limit).writeOut text = (true, (t.writeOut text).2.limited left)) ∨
    (((t.limited limit).writeOut text).1 = false ∧ ((t.limited limit).writeOut text).2.Spent) := by
  rcases t.write_limited h limit text with ⟨left, hleft, hwritten⟩ | ⟨hfailed, hspent⟩
  · refine Or.inl ⟨left, hleft, ?_⟩
    -- There is a limit to what can be written, but none to what can be written out.
    have hflushes : ∀ n, ((t.write text).2.limited left).flushes n = true := h.flushes
    rw [writeOut, hwritten, writeOut_of_isOpen h]
    exact flush_of_flushes hflushes
  · rw [writeOut_of_unwritten hfailed]
    exact Or.inr ⟨hfailed, hspent⟩

end Terminal

/-! ### Questions on a limited output -/

namespace Question

variable {q : Question} {t : Terminal}

/-- A question that was written is settled by what is read behind it. -/
theorem ask_of_written (h : (t.writeOut q.text).1 = true) :
    q.ask t =
      match (t.writeOut q.text).2.read.1.verdict with
      | .yes => (true, (t.writeOut q.text).2.read.2)
      | .no => (false, (t.writeOut q.text).2.read.2)
      | .silent => q.giveUp (t.writeOut q.text).2.read.2
      | .unclear => q.ask (t.writeOut q.text).2.read.2 := by
  rw [ask, h]
  simp only [Bool.not_true, Bool.false_eq_true, if_false]
  split
  case h_1 hincoming =>
    have hsilent : (t.writeOut q.text).2.read.1.verdict = .silent := by
      simp only [Terminal.read, hincoming]
      exact Ending.verdict_reading _
    rw [hsilent]
  case h_2 r rest hincoming =>
    have hread : (t.writeOut q.text).2.read.1 = r := by
      rw [Terminal.read_of_incoming hincoming]
    cases hverdict : r.verdict <;> simp only [hread, hverdict]

/-- An unclear answer was laid out, since the end of the input says nothing. -/
theorem length_incoming_of_unclear (h : (t.writeOut q.text).2.read.1.verdict = .unclear) :
    (t.writeOut q.text).2.read.2.incoming.length < t.incoming.length := by
  rw [← t.incoming_writeOut q.text]
  unfold Terminal.read at h ⊢
  cases hincoming : (t.writeOut q.text).2.incoming with
  | nil =>
    simp only [hincoming, Ending.verdict_reading] at h
    cases h
  | cons r rest => exact Nat.lt_succ_self rest.length

/-- Asking on a limited output and without a limit: with the same answer and room left, or with the
default for an answer and none left. -/
def Alike (limit : Nat) (q : Question) (limited free : Bool × Terminal) : Prop :=
  (∃ left ≤ limit, limited = (free.1, free.2.limited left)) ∨
    (limited.1 = q.default ∧ limited.2.Spent)

theorem giveUp_limited (q : Question) (h : t.IsOpen) (limit : Nat) :
    q.Alike limit (q.giveUp (t.limited limit)) (q.giveUp t) := by
  rcases t.write_limited h limit "\n" with ⟨left, hleft, hwritten⟩ | ⟨-, hspent⟩
  · refine Or.inl ⟨left, by omega, ?_⟩
    rw [giveUp, hwritten]
    rfl
  · exact Or.inr ⟨rfl, hspent⟩

/-- A question has the same answer on a limited output, or its default. -/
theorem ask_limited (q : Question) (h : t.IsOpen) (limit : Nat) :
    q.Alike limit (q.ask (t.limited limit)) (q.ask t) := by
  -- By the rounds: each is written on the limited output too, or is the last one there.
  induction hsize : t.incoming.length using Nat.strong_induction_on generalizing t limit with
  | _ size ih =>
    rcases t.writeOut_limited h limit q.text with ⟨left, hleft, hwritten⟩ | ⟨hfailed, hspent⟩
    · have hle : left ≤ limit := by omega
      have hround : (t.writeOut q.text).2.read.2.IsOpen := (q.round_takes h).isOpen
      have hfree : (t.writeOut q.text).1 = true := by rw [Terminal.writeOut_of_isOpen h]
      have hasked := ask_of_written (t := t.limited limit) (congrArg Prod.fst hwritten)
      rw [hwritten, Terminal.read_limited] at hasked
      rw [hasked, ask_of_written hfree]
      cases hv : (t.writeOut q.text).2.read.1.verdict with
      | yes | no => exact Or.inl ⟨left, hle, rfl⟩
      | silent =>
        rcases q.giveUp_limited hround left with ⟨left', hleft', hgiven⟩ | hspent
        · exact Or.inl ⟨left', hleft'.trans hle, hgiven⟩
        · exact Or.inr hspent
      | unclear =>
        have hless : (t.writeOut q.text).2.read.2.incoming.length < size :=
          hsize ▸ length_incoming_of_unclear hv
        rcases ih _ hless hround left rfl with ⟨left', hleft', hagain⟩ | hspent
        · exact Or.inl ⟨left', hleft'.trans hle, hagain⟩
        · exact Or.inr hspent
    · rw [ask_of_unwritable hfailed]
      exact Or.inr ⟨rfl, hspent.write "\n"⟩

end Question

end TreeConsole
