import Mathlib.Data.List.Count
import Mathlib.Logic.Function.Iterate
import TreeConsole.Proofs.Command.Requests
import TreeConsole.Proofs.Runner.Course
import TreeConsole.Proofs.Runner.Run
import TreeConsole.Tree.Client

/-!
# Sessions along runs

Every command has the whole session in its hands, and all but one leave it alone. What the session
is after a line is settled by the text of the line: its number goes up, whatever came of the line,
its mode is the other one if the line was `toggle_write`, and its width stays. Nor does it depend on
anything else whether a line ends the session.

## Main definitions

* `Session.after` — the session after a line

## Main results

* `Runner.session_run` — one line
* `Runner.run_eq_terminate_iff` — which lines end the session
* `Runner.sessions_evolve` — the session after a run of any length
-/

namespace TreeConsole

open Act (Keeps Returns)

variable {σ κ ε τ : Type}

namespace Session

variable {s : Session} {line : String}

/-- The session after a line, as the text of the line has it. -/
def after (s : Session) (line : String) : Session :=
  (if validate line = .ok .toggleWrite then s.toggleWrite else s).advance

@[simp] theorem index_after : (s.after line).index = s.index + 1 := by
  unfold after
  split <;> rfl

@[simp] theorem width_after : (s.after line).width = s.width := by
  unfold after
  split <;> rfl

theorem readOnly_after : (s.after line).readOnly =
    if validate line = .ok .toggleWrite then !s.readOnly else s.readOnly := by
  unfold after
  split <;> rfl

end Session

/-- The commands that end the session neither write nor ask. -/
theorem Keyword.idle_of_leaving {k : Keyword} (h : k ∈ [Keyword.quit, .exit, .close]) :
    k.mutates = false ∧ k.asks = false := by
  revert k
  decide

namespace Command

variable {client : Client σ} {editor : Editor ε} {c : Command}

/-- A command that does not change the mode does not touch the session. -/
theorem handle_keeps_session (h : c.keyword ≠ .toggleWrite) (s : Session) :
    Keeps (fun d : Desk σ ε => d.session = s) (c.handle client editor) := by
  refine c.handle_keeps (fun q _ d hd => ?_) (fun _ path payload d hd => ?_) fun htoggle => ?_
  · rw [Desk.run_request]
    exact hd
  · rw [Desk.run_openEditor]
    exact hd
  · exact absurd htoggle h

/-- A command ends the session only if that is what it is for. -/
theorem handle_stays (h : c.keyword ∉ [Keyword.quit, .exit, .close]) :
    Returns (fun outcome => outcome ≠ .terminate) (c.handle client editor) := by
  have hstays : ∀ reply, Outcome.proceed reply ≠ .terminate := fun _ => Outcome.noConfusion
  unfold handle
  cases hk : c.keyword <;> rw [hk] at h
  case close | exit | quit => exact absurd (by decide) h
  case create | delete | get | rmr | set | stat | toggleWrite =>
    exact .bind fun _ => .bind fun _ => Act.returns_pure (hstays _)
  case edit =>
    refine .bind fun _ => .bind fun payload => .bind fun new => ?_
    split
    · exact Act.returns_pure (hstays _)
    · exact .bind fun _ => Act.returns_pure (hstays _)
  case help =>
    rw [explain]
    cases (c.arg? 0).bind Keyword.ofWord? <;> exact Act.returns_pure (hstays _)
  case ls =>
    exact .bind fun _ => .bind fun _ => .bind fun _ => .bind fun _ => Act.returns_pure (hstays _)
  case raw =>
    rw [sendWord]
    cases c.arg? 0 with
    | none => exact fun _ _ _ hfail => by cases hfail
    | some word => exact .bind fun _ => Act.returns_pure (hstays _)

end Command

namespace Runner

variable {r : Runner σ κ ε τ} {line : String} {w : World σ κ ε τ}

/-! ### One line -/

/-- After a line the session is what the text of the line makes of it, whatever the line led to. -/
theorem session_run (r : Runner σ κ ε τ) (line : String) (w : World σ κ ε τ) :
    (r.run line w).2.session = w.session.after line := by
  unfold Session.after
  split
  · rename_i hswitches
    obtain ⟨token, rest, -, -, hok⟩ := Command.ofLine_of_validate hswitches
    obtain ⟨-, -, hdesk⟩ := run_of_ofLine (r := r) (w := w) hok
    rw [World.session, hdesk]
    rfl
  · rename_i hkeep
    obtain ⟨result, d, asker, hcourse, -, -, hdesk⟩ := r.run_course line w
    have hsession : d.session = w.session := by
      cases hcourse with
      | blank | malformed | refused | declined => rfl
      | @done c _ hline =>
        have hc : c.keyword ≠ .toggleWrite :=
          fun hc => hkeep ((Command.validate_of_ofLine hline).trans (congrArg Except.ok hc))
        exact Command.handle_keeps_session hc w.session w.desk rfl
    rw [World.session, hdesk]
    exact congrArg Session.advance hsession

/-- A line is done with, and its number is used up. -/
theorem index_run (r : Runner σ κ ε τ) (line : String) (w : World σ κ ε τ) :
    (r.run line w).2.session.index = w.session.index + 1 := by
  rw [session_run, Session.index_after]

/-- A line changes the mode exactly if it is the command for that. -/
theorem readOnly_run_ne_iff : (r.run line w).2.session.readOnly ≠ w.session.readOnly ↔
    validate line = .ok .toggleWrite := by
  rw [session_run, Session.readOnly_after]
  by_cases h : validate line = .ok .toggleWrite <;> simp [h]

/-- A line ends the session exactly if it is one of the three commands for that. -/
theorem run_eq_terminate_iff : (r.run line w).1 = .ok .terminate ↔
    ∃ k ∈ [Keyword.quit, .exit, .close], validate line = .ok k := by
  constructor
  · intro h
    obtain ⟨result, d, asker, hcourse, hresult, -, -⟩ := r.run_course line w
    rw [hresult] at h
    cases hcourse with
    | blank | malformed | refused | declined => cases h
    | @done c _ hline =>
      refine ⟨c.keyword, ?_, Command.validate_of_ofLine hline⟩
      by_contra hc
      exact Command.handle_stays hc w.desk trivial _ h rfl
  · rintro ⟨k, hk, hline⟩
    obtain ⟨token, rest, -, -, hok⟩ := Command.ofLine_of_validate hline
    obtain ⟨hreads, hsilent⟩ := Keyword.idle_of_leaving hk
    have hopen : k.mutates = true → w.session.readOnly = false := by simp [hreads]
    have hunasked : (Command.mk k (rest.map Token.text)).question? = none := by
      rw [← Option.isNone_iff_eq_none, ← Option.not_isSome, Command.isSome_question?, hsilent]
      rfl
    rw [(run_of_unasked hok hopen hunasked).1, Command.run_handle_terminate]
    simpa using hk

/-! ### Runs -/

/-- After a run the session is what the lines made of it, one after the other. -/
theorem session_finish (r : Runner σ κ ε τ) (lines : List String) (w : World σ κ ε τ) :
    (r.finish lines w).session = lines.foldl Session.after w.session := by
  induction lines generalizing w with
  | nil => rfl
  | cons line lines ih => exact (ih (r.run line w).2).trans (by rw [session_run, List.foldl_cons])

end Runner

namespace Session

variable {s : Session} {lines : List String}

theorem index_foldl_after : (lines.foldl after s).index = s.index + UInt64.ofNat lines.length := by
  induction lines generalizing s with
  | nil => simp
  | cons line lines ih =>
    rw [List.foldl_cons, ih, index_after, List.length_cons, UInt64.ofNat_add, UInt64.add_assoc,
      UInt64.add_comm 1]
    rfl

theorem width_foldl_after : (lines.foldl after s).width = s.width := by
  induction lines generalizing s with
  | nil => rfl
  | cons line lines ih =>
    rw [List.foldl_cons, ih, width_after]

/-- Whether a session may write hangs on how often its mode was changed, whatever came between. -/
theorem readOnly_foldl_after : (lines.foldl after s).readOnly =
    Bool.not^[lines.countP fun line => validate line = .ok .toggleWrite] s.readOnly := by
  induction lines generalizing s with
  | nil => rfl
  | cons line lines ih =>
    rw [List.foldl_cons, ih, readOnly_after]
    by_cases h : validate line = .ok .toggleWrite
    · rw [if_pos h, List.countP_cons_of_pos (by simpa using h), Function.iterate_succ_apply]
    · rw [if_neg h, List.countP_cons_of_neg (by simpa using h)]

end Session

namespace Runner

variable {r : Runner σ κ ε τ}

theorem map_line_turns (r : Runner σ κ ε τ) (lines : List String) (w : World σ κ ε τ) :
    (r.turns lines w).map Turn.line = lines := by
  induction lines generalizing w with
  | nil => rfl
  | cons line lines ih => exact congrArg (line :: ·) (ih _)

/-- Whatever the lines of a run lead to, the number of the session goes up by one with each of them,
as long as there is a next number; its width stays; and its mode is the other one once for every
line that is `toggle_write`, and changes with no other line. A line ends the session exactly if it
is `quit`, `exit` or `close`. -/
theorem sessions_evolve (r : Runner σ κ ε τ) (lines : List String) (w : World σ κ ε τ) :
    (w.session.index.toNat + lines.length < 2 ^ 64 →
        (r.finish lines w).session.index.toNat = w.session.index.toNat + lines.length) ∧
      (r.finish lines w).session.width = w.session.width ∧
      (r.finish lines w).session.readOnly =
        Bool.not^[lines.countP fun line => validate line = .ok .toggleWrite] w.session.readOnly ∧
      (r.turns lines w).map Turn.line = lines ∧
      ∀ u ∈ r.turns lines w,
        (u.after.session.readOnly ≠ u.before.session.readOnly ↔
            validate u.line = .ok .toggleWrite) ∧
          (u.result = .ok .terminate ↔
            ∃ k ∈ [Keyword.quit, .exit, .close], validate u.line = .ok k) := by
  rw [r.session_finish lines w]
  refine ⟨fun room => ?_, Session.width_foldl_after, Session.readOnly_foldl_after,
    r.map_line_turns lines w, fun u hu => ?_⟩
  · have hlines : (UInt64.ofNat lines.length).toNat = lines.length :=
      UInt64.toNat_ofNat_of_lt' (Nat.lt_of_le_of_lt (Nat.le_add_left _ _) room)
    rw [Session.index_foldl_after, UInt64.toNat_add, hlines]
    exact Nat.mod_eq_of_lt room
  · rw [eq_turn_of_mem hu]
    exact ⟨readOnly_run_ne_iff, run_eq_terminate_iff⟩

/-- Lines that are blank, no command, refused, declined or failing count like any other, and the
mode is where it was after it was changed twice. -/
theorem sessions_evolve_there_and_back :
    let r : Runner Tree Unit Unit Unit :=
      ⟨Tree.client default, .assumeDefault, ⟨fun _ payload e => (.ok payload, e)⟩, none⟩
    let w : World Tree Unit Unit Unit :=
      ⟨⟨Tree.empty default, ⟨true, 40, 120⟩, ()⟩, (), (), []⟩
    let lines := ["", "lsx /", "rmr /p", "toggle_write", "rmr /p", "get /q", "toggle_write"]
    (r.finish lines w).session.index.toNat = 47 ∧ (r.finish lines w).session.width = 120 ∧
      (r.finish lines w).session.readOnly = true := by
  intro r w lines
  obtain ⟨hindex, hwidth, hmode, -⟩ := r.sessions_evolve lines w
  have hswitches : (lines.countP fun line => validate line = .ok .toggleWrite) = 2 := by
    decide +kernel
  rw [hswitches] at hmode
  exact ⟨hindex (by decide), hwidth, hmode⟩

end Runner
end TreeConsole
