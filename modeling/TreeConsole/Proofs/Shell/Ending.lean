import TreeConsole.Proofs.Shell.Script

/-!
# Conversations whose input ends

A terminal delivers what is laid out on it and from then on the end of the input, for ever. Every
turn of a conversation uses up something that is laid out, as long as there is anything. At the end
of the input a turn asks whether to leave and gets no answer, so that the default decides: where it
is yes, the conversation ends; where it is no, the next turn finds everything as this one did, asks
again and gets no answer, and so does every turn after it.

## Main definitions

* `Terminal.Follows` — a terminal as it is after some writing and reading
* `Shell.AtTerminal` — the questions of the lines are put on the terminal of the shell, or elsewhere
* `Shell.EndsWithin` — so many turns are enough for a conversation to end
* `Shell.AsksForEver` — every turn asks whether to leave, gets no answer and goes on

## Main results

* `Shell.length_incoming_step_le` — a turn uses up something to read
* `Shell.asksForEver_of_ended` — at the end of the input silence that means no leads nowhere
* `Shell.ends_or_asks_for_ever` — when a conversation ends whose input does
-/

namespace TreeConsole

/-! ### What a terminal delivers later -/

/-- A terminal as it is after some writing and reading: some of what was laid out is used up, and
the rest is delivered as before. -/
structure Terminal.Follows (t' t : Terminal) : Prop where
  incoming : t'.incoming <:+ t.incoming
  ending : t'.ending = t.ending
  isOpen : t.IsOpen → t'.IsOpen

theorem Terminal.incoming_read (t : Terminal) : t.read.2.incoming = t.incoming.tail := by
  unfold read
  split <;> simp_all

namespace Terminal.Follows

variable {t t' t'' : Terminal}

theorem refl (t : Terminal) : t.Follows t := ⟨List.suffix_rfl, rfl, id⟩

theorem trans (h : t''.Follows t') (h' : t'.Follows t) : t''.Follows t where
  incoming := h.incoming.trans h'.incoming
  ending := h.ending.trans h'.ending
  isOpen := h.isOpen ∘ h'.isOpen

theorem write (t : Terminal) (text : String) : (t.write text).2.Follows t where
  incoming := List.suffix_rfl
  ending := rfl
  isOpen h := h.write text

theorem flush (t : Terminal) : t.flush.2.Follows t where
  incoming := List.suffix_rfl
  ending := rfl
  isOpen h := ⟨h.room, fun n => h.flushes (n + 1)⟩

theorem measure (t : Terminal) : t.measure.2.Follows t where
  incoming := List.suffix_rfl
  ending := rfl
  isOpen h := h.measure

theorem writeOut (t : Terminal) (text : String) : (t.writeOut text).2.Follows t := by
  simp only [Terminal.writeOut]
  split
  · exact (flush _).trans (write t text)
  · exact write t text

theorem read (t : Terminal) : t.read.2.Follows t where
  incoming := by
    rw [incoming_read]
    exact List.tail_suffix t.incoming
  ending := by
    unfold Terminal.read
    split <;> rfl
  isOpen h := h.read

theorem ask (q : Question) (t : Terminal) : (q.ask t).2.Follows t := by
  -- Every round writes and reads, and giving up writes once more.
  fun_induction Question.ask q t with
  | case1 t => exact (write _ _).trans (writeOut _ _)
  | case2 t | case5 t => exact (write _ _).trans ((read _).trans (writeOut _ _))
  | case3 t | case4 t => exact (read _).trans (writeOut _ _)
  | case6 t _ r rest _ _ ih => exact ih.trans ((read _).trans (writeOut _ _))

end Terminal.Follows

namespace Shell

variable {σ κ ε τ : Type} {s : Shell σ κ ε τ} {w w' : State σ κ ε τ}

/-- The questions of the lines are put on the terminal of the shell, or not on it at all. -/
def AtTerminal (s : Shell σ κ ε τ) : Prop :=
  s.runner.confirmer = Confirmer.onTerminal.onFirst ∨
    ∃ c : Confirmer κ, s.runner.confirmer = c.onSecond

/-- So many turns are enough for a conversation to end. -/
def EndsWithin (s : Shell σ κ ε τ) (turns : Nat) (w : State σ κ ε τ) : Prop :=
  (s.interactFor turns w).1 ≠ none

/-! ### Turns use up the input -/

theorem say_follows (reply : Option String) (w : State σ κ ε τ) :
    (terminal (say reply w)).Follows (terminal w) := by
  cases reply with
  | none => exact .refl _
  | some text => exact .write _ _

theorem run_follows (hs : s.AtTerminal) (line : String) (w : State σ κ ε τ) :
    (terminal (s.runner.run line w).2).Follows (terminal w) := by
  rcases s.runner.asker_run line w with hasker | ⟨_, q, -, -, hasker⟩
  · have hterminal : terminal (s.runner.run line w).2 = terminal w := congrArg Prod.fst hasker
    exact hterminal ▸ .refl _
  · have hterminal := congrArg Prod.fst hasker
    rcases hs with hs | ⟨c, hs⟩ <;> rw [hs] at hterminal
    · have hasked : terminal (s.runner.run line w).2 = (q.ask (terminal w)).2 := hterminal
      exact hasked ▸ .ask q _
    · have hunasked : terminal (s.runner.run line w).2 = terminal w := hterminal
      exact hunasked ▸ .refl _

theorem respond_follows (hs : s.AtTerminal) (h : (terminal w).IsOpen) (line : String) :
    (terminal (s.respond line w).2).Follows (terminal w) := by
  have hran := run_follows hs line w
  rcases hrun : s.runner.run line w with ⟨e | outcome, w₁⟩ <;> rw [hrun] at hran
  · cases he : e.isRecoverable with
    | false =>
      rw [respond_of_unrecoverable hrun he]
      exact hran
    | true =>
      rw [respond_of_recoverable hrun (hran.isOpen h) he]
      exact (say_follows _ w₁).trans hran
  · rw [respond_of_ok hrun]
    exact (say_follows _ w₁).trans hran

theorem confirmQuit_follows (s : Shell σ κ ε τ) (h : (terminal w).IsOpen) :
    (terminal (s.confirmQuit w).2).Follows (terminal w) := by
  have hasked := (Terminal.Follows.ask s.quitQuestion _).trans (.write (terminal w) "\n")
  rw [confirmQuit_of_isOpen h]
  rcases hask : s.quitQuestion.ask ((terminal w).write "\n").2 with ⟨_ | _, t⟩ <;>
    rw [hask] at hasked <;> exact hasked

/-- Behind the prompt one reading is taken away. -/
theorem incoming_listen (w : State σ κ ε τ) :
    (terminal (listen w).2).incoming = (terminal w).incoming.tail :=
  (Terminal.incoming_read _).trans (congrArg List.tail (Terminal.incoming_writeOut _ _))

theorem listen_follows (w : State σ κ ε τ) :
    (terminal (listen w).2).Follows (terminal w) :=
  (Terminal.Follows.read _).trans ((Terminal.Follows.writeOut _ _).trans (.measure _))

/-- What a turn does after it has listened takes the terminal further. -/
theorem step_follows (hs : s.AtTerminal) (h : (terminal w).IsOpen) :
    (terminal (s.step w).2).Follows (terminal (listen w).2) := by
  cases hr : (listen w).1 with
  | line bytes _ =>
    rw [step_of_line h (congrArg lineOf? hr)]
    exact respond_follows hs (listen_takes h).isOpen _
  | failed reason =>
    rw [step_of_failed h hr]
    exact .refl _
  | interrupted =>
    rw [step_of_silence h (Or.inl hr)]
    exact s.confirmQuit_follows (listen_takes h).isOpen
  | endOfInput =>
    rw [step_of_silence h (Or.inr hr)]
    exact s.confirmQuit_follows (listen_takes h).isOpen

/-- A turn uses up something to read, as long as there is anything. -/
theorem length_incoming_step_le (hs : s.AtTerminal) (h : (terminal w).IsOpen) :
    (terminal (s.step w).2).incoming.length ≤ (terminal w).incoming.length - 1 := by
  have hused := (step_follows hs h).incoming.length_le
  rwa [incoming_listen, List.length_tail] at hused

/-! ### Conversations, turn by turn -/

/-- A conversation that has not ended went on after its first turn. -/
theorem step_of_interactFor_eq_none {turns : Nat} (h : (s.interactFor (turns + 1) w).1 = none) :
    ∃ w', s.step w = (.goOn, w') ∧ s.interactFor (turns + 1) w = s.interactFor turns w' := by
  rcases hstep : s.step w with ⟨_ | _ | f, w'⟩
  · exact ⟨w', rfl, interactFor_succ s turns w w' hstep⟩
  · rw [interactFor_of_leave s turns w w' hstep] at h
    cases h
  · rw [interactFor_of_stop s turns w w' hstep] at h
    cases h

theorem interactFor_add (s : Shell σ κ ε τ) {turns : Nat} (h : (s.interactFor turns w).1 = none)
    (more : Nat) :
    s.interactFor (turns + more) w = s.interactFor more (s.interactFor turns w).2 := by
  induction turns generalizing w with
  | zero => rw [Nat.zero_add]; rfl
  | succ turns ih =>
    obtain ⟨w', hstep, hgo⟩ := step_of_interactFor_eq_none h
    rw [hgo] at h ⊢
    rw [Nat.add_right_comm, interactFor_succ s _ w w' hstep]
    exact ih h

/-- A conversation that has not ended had not ended before. -/
theorem interactFor_eq_none_of_le {turns turns' : Nat} (hle : turns ≤ turns')
    (h : (s.interactFor turns' w).1 = none) : (s.interactFor turns w).1 = none := by
  induction turns generalizing w turns' with
  | zero => rfl
  | succ turns ih =>
    obtain ⟨turns', rfl⟩ := Nat.exists_eq_add_of_le' (Nat.le_trans (Nat.succ_pos turns) hle)
    obtain ⟨w', hstep, hgo⟩ := step_of_interactFor_eq_none h
    rw [hgo] at h
    rw [interactFor_succ s turns w w' hstep]
    exact ih (Nat.le_of_succ_le_succ hle) h

/-- After so many turns that did not end a conversation, as many readings are used up, if there were
as many. -/
theorem follows_interactFor (hs : s.AtTerminal) (hopen : (terminal w).IsOpen) {turns : Nat}
    (h : (s.interactFor turns w).1 = none) :
    (terminal (s.interactFor turns w).2).Follows (terminal w) ∧
      (terminal (s.interactFor turns w).2).incoming.length ≤
        (terminal w).incoming.length - turns := by
  induction turns generalizing w with
  | zero => exact ⟨.refl _, Nat.le_refl _⟩
  | succ turns ih =>
    obtain ⟨w', hstep, hgo⟩ := step_of_interactFor_eq_none h
    have hfollows := (step_follows hs hopen).trans (listen_follows w)
    have hused := length_incoming_step_le hs hopen
    rw [hstep] at hfollows hused
    rw [hgo] at h ⊢
    obtain ⟨hrest, hlength⟩ := ih (hfollows.isOpen hopen) h
    refine ⟨hrest.trans hfollows, hlength.trans ?_⟩
    rw [Nat.add_comm turns, Nat.sub_add_eq]
    exact Nat.sub_le_sub_right hused turns

/-! ### The end of the input -/

theorem source_of_exhausted {t : Terminal} (hincoming : t.incoming = [])
    (hend : t.ending = .endOfInput) : t.source = Stream'.const .endOfInput := by
  rw [Terminal.source, hincoming, hend]
  rfl

/-- At the end of the input a turn uses up two readings, and the input is still at its end. -/
theorem Unanswered.source {next : Next} (h : s.Unanswered w next w')
    (hsource : (terminal w).source = Stream'.const .endOfInput) :
    (terminal w').source = Stream'.const .endOfInput := by
  have hreads := hsource.symm.trans h.takes.source
  exact (congrArg (fun source => source.tail.tail) hreads).symm

/-- Every turn from here on asks whether to leave, finds the end of the input behind the question,
takes the default for an answer and goes on. -/
def AsksForEver (s : Shell σ κ ε τ) (w : State σ κ ε τ) : Prop :=
  ∀ turns, (s.interactFor turns w).1 = none ∧
    s.Unanswered (s.interactFor turns w).2 .goOn (s.interactFor (turns + 1) w).2

/-- Where silence means no, a conversation at the end of its input never ends. -/
theorem asksForEver_of_ended (hquit : s.quitDefault = false) (hopen : (terminal w).IsOpen)
    (hsource : (terminal w).source = Stream'.const .endOfInput) : s.AsksForEver w := by
  intro turns
  -- Each turn leaves the terminal to the next at the end of its input and open.
  induction turns generalizing w with
  | zero =>
    obtain ⟨w', hturn⟩ := s.step_ended hopen hsource
    rw [hquit, if_neg Bool.false_ne_true] at hturn
    rw [interactFor_succ s 0 w w' hturn.step]
    exact ⟨rfl, hturn⟩
  | succ turns ih =>
    obtain ⟨w', hturn⟩ := s.step_ended hopen hsource
    rw [hquit, if_neg Bool.false_ne_true] at hturn
    rw [interactFor_succ s turns w w' hturn.step, interactFor_succ s (turns + 1) w w' hturn.step]
    exact ih hturn.takes.isOpen (hturn.source hsource)

/-- With nothing to read and a silence that means no, a conversation never ends. -/
theorem never_ends_unanswered :
    let s : Shell Tree Unit Unit Unit :=
      ⟨⟨Tree.client default, Confirmer.onTerminal.onFirst,
        ⟨fun _ payload e => (.ok payload, e)⟩, none⟩, false⟩
    let w : State Tree Unit Unit Unit :=
      ⟨⟨Tree.empty default, .start true, ()⟩, (.ofReadings [], ()), (), []⟩
    (terminal w).ending = .endOfInput ∧ (terminal w).IsOpen ∧
      ¬ ∃ turns, s.EndsWithin turns w := by
  intro s w
  have hopen : (terminal w).IsOpen := ⟨rfl, fun _ => rfl⟩
  refine ⟨rfl, hopen, ?_⟩
  rintro ⟨turns, hends⟩
  exact hends (asksForEver_of_ended rfl hopen (source_of_exhausted rfl rfl) turns).1

/-- On a terminal whose input ends, a conversation in which silence means yes ends, after one turn
more at most than there are things to read. Where silence means no, it ends within as many turns as
there are things to read, or uses all of them up and goes on for ever: every later turn asks whether
to leave, reads the end of the input, and takes that for a no. -/
theorem ends_or_asks_for_ever (s : Shell σ κ ε τ) (hs : s.AtTerminal) (w : State σ κ ε τ)
    (hend : (terminal w).ending = .endOfInput) (hopen : (terminal w).IsOpen) :
    let size := (terminal w).incoming.length
    (s.quitDefault = true → s.EndsWithin (size + 1) w) ∧
      (s.quitDefault = false → s.EndsWithin size w ∨
        (∀ turns, ¬ s.EndsWithin turns w) ∧ (terminal (s.interactFor size w).2).incoming = [] ∧
          s.AsksForEver (s.interactFor size w).2) := by
  intro size
  by_cases hgo : (s.interactFor size w).1 = none
  · -- Nothing has ended the conversation so far, and there is nothing left to read.
    obtain ⟨hfollows, hlength⟩ := follows_interactFor hs hopen hgo
    have hincoming : (terminal (s.interactFor size w).2).incoming = [] := by
      rw [← List.length_eq_zero_iff]
      omega
    have hopen' := hfollows.isOpen hopen
    have hsource := source_of_exhausted hincoming (hfollows.ending.trans hend)
    constructor
    · intro hquit
      obtain ⟨w', hturn⟩ := s.step_ended hopen' hsource
      rw [hquit, if_pos rfl] at hturn
      rw [EndsWithin, interactFor_add s hgo, interactFor_of_leave s 0 _ _ hturn.step]
      exact Option.some_ne_none _
    · intro hquit
      have hasks := asksForEver_of_ended hquit hopen' hsource
      refine Or.inr ⟨fun turns hends => hends ?_, hincoming, hasks⟩
      rcases Nat.le_total turns size with hle | hle
      · exact interactFor_eq_none_of_le hle hgo
      · obtain ⟨more, rfl⟩ := Nat.exists_eq_add_of_le hle
        rw [interactFor_add s hgo]
        exact (hasks more).1
  · exact ⟨fun _ hnone => hgo (interactFor_eq_none_of_le (Nat.le_succ size) hnone),
      fun _ => Or.inl hgo⟩

/-- Two lines and then nothing: it depends on what silence means whether there is an end. Where
there is none, the fifth turn asks like the third, with its own number. -/
theorem ends_or_asks_for_ever_grove :
    let r : Runner Tree (Terminal × Unit) Unit Unit :=
      ⟨Tree.client default, Confirmer.onTerminal.onFirst,
        ⟨fun _ payload e => (.ok payload, e)⟩, none⟩
    let yes : Shell Tree Unit Unit Unit := ⟨r, true⟩
    let no : Shell Tree Unit Unit Unit := ⟨r, false⟩
    let w : State Tree Unit Unit Unit :=
      ⟨⟨Tree.grove, .start false, ()⟩,
        (.ofInput (Utf8.ofText "create /q\nnonsense\n"), ()), (), []⟩
    yes.EndsWithin 3 w ∧ (∀ turns, ¬ no.EndsWithin turns w) ∧
      no.AsksForEver (no.interactFor 2 w).2 ∧
        (no.interactFor 4 w).2.session = { Session.start false with index := 4 } := by
  intro r yes no w
  have hsize : (terminal w).incoming.length = 2 := by decide +kernel
  have hopen : (terminal w).IsOpen := ⟨rfl, fun _ => rfl⟩
  have hyes := (ends_or_asks_for_ever yes (Or.inl rfl) w rfl hopen).1 rfl
  have hno := (ends_or_asks_for_ever no (Or.inl rfl) w rfl hopen).2 rfl
  rw [hsize] at hyes hno
  rcases hno with hends | ⟨hnever, -, hasks⟩
  · have hgo : (no.interactFor 2 w).1.isNone = true := by decide +kernel
    exact absurd (Option.isNone_iff_eq_none.mp hgo) hends
  · exact ⟨hyes, hnever, hasks, by decide +kernel⟩

end Shell
end TreeConsole
