import TreeConsole.Proofs.Shell.Limit
import TreeConsole.Proofs.Shell.Script
import TreeConsole.Proofs.Tree.Refinement

/-!
# Where a script stops

A script runs its first lines, up to one after which it stops: that line ends the session, or fails
where failures are not passed over, or fails in a way that is never passed over. What the script
does to the world is what its runner does when it runs these lines without a shell; the shell only
adds what it shows.

To compare the two, what has happened on the terminal is left out of a world. Nobody who answers
questions looks at it, so that a line is run alike whatever was shown before it.

## Main definitions

* `Terminal.fresh`, `Shell.fresh` — a terminal, and a world, without what has happened there
* `Turn.Stops` — after the line a script stops
* `Shell.Performance` — a script beside a run of its first lines

## Main results

* `Question.ask_congr` — an answer does not depend on what has happened on the terminal
* `Shell.run_congr` — nor does anything else that a line leads to
* `Shell.runLines_cons_of_stops`, `Shell.runLines_cons_of_goesOn` — a line of a script
* `Shell.runScript_stops` — a script is a run of its first lines, up to one after which it stops
-/

namespace TreeConsole

/-! ### What has happened on a terminal -/

namespace Terminal

variable {t t' : Terminal}

/-- The same terminal, as if nothing had happened on it. -/
def fresh (t : Terminal) : Terminal := { t with transcript := [] }

/-- Whatever does not look at what has happened on a terminal finds the two alike. -/
theorem eq_of_fresh {α : Type} {f : Terminal → α} (hf : ∀ t, f t = f t.fresh)
    (h : t.fresh = t'.fresh) : f t = f t' := by
  rw [hf t, hf t', h]

theorem write_congr (h : t.fresh = t'.fresh) (text : String) :
    (t.write text).1 = (t'.write text).1 ∧ (t.write text).2.fresh = (t'.write text).2.fresh := by
  constructor
  · exact eq_of_fresh (f := fun t => (t.write text).1) (fun _ => rfl) h
  · exact eq_of_fresh (f := fun t => (t.write text).2.fresh) (fun _ => rfl) h

theorem read_congr (h : t.fresh = t'.fresh) :
    t.read.1 = t'.read.1 ∧ t.read.2.fresh = t'.read.2.fresh := by
  have hfresh : ∀ t : Terminal, t.read.1 = t.fresh.read.1 ∧
      t.read.2.fresh = t.fresh.read.2.fresh := by
    intro t
    unfold read fresh
    cases t.incoming with
    | nil => exact ⟨rfl, rfl⟩
    | cons r rest => exact ⟨rfl, rfl⟩
  constructor
  · exact eq_of_fresh (f := fun t => t.read.1) (fun t => (hfresh t).1) h
  · exact eq_of_fresh (f := fun t => t.read.2.fresh) (fun t => (hfresh t).2) h

theorem flush_congr (h : t.fresh = t'.fresh) :
    t.flush.1 = t'.flush.1 ∧ t.flush.2.fresh = t'.flush.2.fresh := by
  constructor
  · exact eq_of_fresh (f := fun t => t.flush.1) (fun _ => rfl) h
  · exact eq_of_fresh (f := fun t => t.flush.2.fresh) (fun _ => rfl) h

theorem writeOut_congr (h : t.fresh = t'.fresh) (text : String) :
    (t.writeOut text).1 = (t'.writeOut text).1 ∧
      (t.writeOut text).2.fresh = (t'.writeOut text).2.fresh := by
  obtain ⟨hwrote, hwritten⟩ := write_congr h text
  simp only [writeOut, ← hwrote]
  split
  · exact flush_congr hwritten
  · exact ⟨hwrote, hwritten⟩

theorem fresh_write (h : t.IsOpen) (text : String) : (t.write text).2.fresh = t.fresh := by
  simp [fresh, write, writeBytes, h.room]

end Terminal

/-- How a question is answered does not depend on what has happened on the terminal. -/
theorem Question.ask_congr (q : Question) {t t' : Terminal} (h : t.fresh = t'.fresh) :
    (q.ask t).1 = (q.ask t').1 ∧ (q.ask t).2.fresh = (q.ask t').2.fresh := by
  induction hsize : t.incoming.length using Nat.strong_induction_on generalizing t t' with
  | _ size ih =>
    obtain ⟨hwrote, hwritten⟩ := Terminal.writeOut_congr h q.text
    obtain ⟨hread, hrest⟩ := Terminal.read_congr hwritten
    cases hw : (t.writeOut q.text).1 with
    | false =>
      rw [ask_of_unwritable hw, ask_of_unwritable (hwrote ▸ hw)]
      exact ⟨rfl, (Terminal.write_congr hwritten "\n").2⟩
    | true =>
      have hw' : (t'.writeOut q.text).1 = true := hwrote ▸ hw
      rw [ask_of_written hw, ask_of_written hw', ← hread]
      cases hv : (t.writeOut q.text).2.read.1.verdict with
      | yes | no => exact ⟨rfl, hrest⟩
      | silent => exact ⟨rfl, (Terminal.write_congr hrest "\n").2⟩
      | unclear => exact ih _ (hsize ▸ length_incoming_of_unclear hv) hrest rfl

namespace Turn

variable {σ κ ε τ : Type} {u : Turn σ κ ε τ} {goOn : Bool}

/-- A script stops after the line: it ends the session, or it failed and that is not passed over. A
failure after which the store cannot be used is never passed over. -/
def Stops (goOn : Bool) (u : Turn σ κ ε τ) : Prop :=
  match u.result with
  | .ok outcome => outcome = .terminate
  | .error e => e.isRecoverable = false ∨ goOn = false

instance : Decidable (u.Stops goOn) :=
  match h : u.result with
  | .ok outcome => decidable_of_iff (outcome = .terminate) (by rw [Stops, h])
  | .error e => decidable_of_iff (e.isRecoverable = false ∨ goOn = false) (by rw [Stops, h])

theorem stops_congr {κ' : Type} {u' : Turn σ κ' ε τ} (h : u.result = u'.result) :
    u.Stops goOn ↔ u'.Stops goOn := by
  unfold Stops
  rw [h]

end Turn

namespace Shell

variable {σ κ ε τ : Type} {s : Shell σ κ ε τ} {w w' v : State σ κ ε τ} {line : String}
  {lines ran : List String} {goOn : Bool}

/-! ### Lines that are run alike -/

/-- The state of whoever answers, with nothing that has happened on the terminal. -/
def freshAsker (a : Terminal × κ) : Terminal × κ := (a.1.fresh, a.2)

/-- A world as if nothing had happened on its terminal. -/
def fresh (w : State σ κ ε τ) : State σ κ ε τ := w.map freshAsker id

/-- The runner of a shell that leaves no traces of its questions on the terminal. -/
def quiet (s : Shell σ κ ε τ) : Runner σ (Terminal × κ) ε τ where
  client := s.runner.client
  confirmer := ⟨fun q a => ((s.runner.confirmer.ask q a).1,
    freshAsker (s.runner.confirmer.ask q a).2)⟩
  editor := s.runner.editor
  telemetry := s.runner.telemetry

theorem looksLike_quiet (hs : s.AtTerminal) : Runner.LooksLike freshAsker id s.runner s.quiet := by
  refine .of_ask fun q a => ?_
  rcases hs with hs | ⟨c, hs⟩ <;> rw [hs]
  · have hfresh : a.1.fresh.fresh = a.1.fresh := rfl
    obtain ⟨hanswer, hafter⟩ := q.ask_congr hfresh
    exact Prod.ext hanswer (Prod.ext hafter rfl)
  · rfl

/-- Lines are run alike in worlds that differ by what has happened on the terminal only. -/
theorem run_congr (hs : s.AtTerminal) (h : fresh w = fresh v) (line : String) :
    (s.runner.run line w).1 = (s.runner.run line v).1 ∧
      fresh (s.runner.run line w).2 = fresh (s.runner.run line v).2 := by
  have hrun := (looksLike_quiet hs).run line
  have heq := (hrun w).symm.trans ((congrArg (s.quiet.run line) h).trans (hrun v))
  exact Prod.mk.inj heq

theorem fresh_say (reply : Option String) (h : (terminal w).IsOpen) :
    fresh (say reply w) = fresh w := by
  cases reply with
  | none => rfl
  | some text =>
    exact congrArg (withTerminal (fresh w)) (Terminal.fresh_write h (text ++ "\n"))

/-! ### Lines of a script -/

section Lines

variable (number : Nat) (hopen : (terminal (s.runner.run line w).2).IsOpen)
include hopen

/-- After most lines of a script what there is to show is shown, and the next line is run. -/
theorem runLines_cons_of_goesOn (h : ¬ (s.runner.turn line w).Stops goOn) :
    s.runLines goOn number (line :: lines) w =
      s.runLines goOn (number + 1) lines
        (say (s.runner.turn line w).reply (s.runner.run line w).2) := by
  unfold Turn.Stops at h
  unfold Turn.reply
  unfold Runner.turn at h ⊢
  rcases hrun : s.runner.run line w with ⟨e | outcome, w₁⟩ <;> rw [hrun] at h hopen
  · have hwritten : writeLine e.shown w₁ = (true, say (some e.shown) w₁) :=
      write_of_isOpen hopen (e.shown ++ "\n")
    simp only [not_or, Bool.not_eq_false] at h
    simp [runLines, execute_of_error hrun, hwritten, h.1, h.2]
  · have hlast : outcome ≠ .terminate := h
    simp [runLines, execute_of_ok hrun, hlast]

/-- After a line at which it stops a script shows what there is to show and ends: with a failure if
the line failed. -/
theorem runLines_cons_of_stops (h : (s.runner.turn line w).Stops goOn) :
    s.runLines goOn number (line :: lines) w =
      (match (s.runner.turn line w).result with
        | .ok _ => .ok ()
        | .error _ => .error (scriptFailure number line),
        say (s.runner.turn line w).reply (s.runner.run line w).2) := by
  unfold Turn.Stops at h
  unfold Turn.reply
  unfold Runner.turn at h ⊢
  rcases hrun : s.runner.run line w with ⟨e | outcome, w₁⟩ <;> rw [hrun] at h hopen
  · have hwritten : writeLine e.shown w₁ = (true, say (some e.shown) w₁) :=
      write_of_isOpen hopen (e.shown ++ "\n")
    have hover : ¬ (goOn = true ∧ e.isRecoverable = true) := by
      rintro ⟨rfl, he⟩
      simp [he] at h
    simp [runLines, execute_of_error hrun, hwritten, hover]
  · have hlast : outcome = .terminate := h
    simp [runLines, execute_of_ok hrun, hlast]

end Lines

/-! ### A script beside a run -/

/-- What is put in front of a list and does not have a property makes no difference to whether the
last member has it. -/
theorem exists_getLast?_cons {α : Type} {p : α → Prop} {x : α} {xs : List α} (hx : ¬ p x) :
    (∃ y ∈ (x :: xs).getLast?, p y) ↔ ∃ y ∈ xs.getLast?, p y := by
  cases xs with
  | nil => simp [hx]
  | cons x' xs => rw [List.getLast?_cons_cons]

/-- A script in one world, whose first line has some lines before it, beside a run of some lines in
another world without the shell; and what has become of the script. -/
structure Performance (s : Shell σ κ ε τ) (goOn : Bool) (before : Nat) (lines ran : List String)
    (w v : State σ κ ε τ) (r : Ended × State σ κ ε τ) : Prop where
  /-- The lines that are run are the first ones of the script. -/
  isPrefix : ran <+: lines
  /-- The script runs each of them once, in order, and then shows what there is to show for it. -/
  script : s.Script w ((s.runner.turns ran v).flatMap Turn.scripted) r.2
  /-- It goes on after each of them but the last. -/
  goesOn : ∀ u ∈ (s.runner.turns ran v).dropLast, ¬ u.Stops goOn
  /-- If there are more lines, it stops after the last. -/
  stops : ran ≠ lines → ∃ u ∈ (s.runner.turns ran v).getLast?, u.Stops goOn
  /-- The script fails if it stops after a line that failed, and says which one it was. -/
  ended : ∀ f, r.1 = .error f ↔ ∃ u ∈ (s.runner.turns ran v).getLast?,
    u.Stops goOn ∧ (∃ e, u.result = .error e) ∧ f = scriptFailure (before + ran.length) u.line
  /-- But for what has happened on the terminal both lead to the same world. -/
  after : fresh r.2 = fresh (s.runner.finish ran v)

namespace Performance

variable {before : Nat} {r : Ended × State σ κ ε τ}

theorem nil (h : fresh w = fresh v) : s.Performance goOn before [] [] w v (.ok (), w) where
  isPrefix := List.nil_prefix
  script := .nil w
  goesOn _ hu := absurd hu List.not_mem_nil
  stops hne := absurd rfl hne
  ended f := by simp [Runner.turns]
  after := h

/-- One line, after which the script stops. -/
theorem single (hs : s.AtTerminal) (h : fresh w = fresh v) (hw : (terminal w).IsOpen)
    (hstop : (s.runner.turn line w).Stops goOn) (lines : List String) :
    s.Performance goOn before (line :: lines) [line] w v
      (s.runLines goOn (before + 1) (line :: lines) w) := by
  obtain ⟨hresult, hafter⟩ := run_congr hs h line
  have hopen := (run_follows hs line w).isOpen hw
  have hturn : (s.runner.turn line v).Stops goOn := (Turn.stops_congr hresult).mp hstop
  have hreply : (s.runner.turn line w).reply = (s.runner.turn line v).reply :=
    Turn.reply_congr hresult
  rw [runLines_cons_of_stops (before + 1) hopen hstop, hreply]
  exact {
    isPrefix := List.prefix_append [line] lines
    script := .ran line _ (.nil _)
    goesOn := fun u hu => absurd hu List.not_mem_nil
    stops := fun _ => ⟨_, rfl, hturn⟩
    ended := by
      intro f
      have hlast : (s.runner.turns [line] v).getLast? = some (s.runner.turn line v) := rfl
      have hresult' : (s.runner.turn line v).result = (s.runner.turn line w).result := hresult.symm
      have hline : (s.runner.turn line v).line = line := rfl
      simp only [hlast, Option.mem_some_iff, exists_eq_left', hturn, hresult', hline, true_and]
      cases (s.runner.turn line w).result with
      | ok outcome => simp
      | error e => simp [eq_comm]
    after := (fresh_say _ hopen).trans hafter }

/-- One line more, after which the script goes on. -/
theorem cons (h : s.Performance goOn (before + 1) lines ran
      (say (s.runner.turn line v).reply (s.runner.run line w).2) (s.runner.run line v).2 r)
    (hgo : ¬ (s.runner.turn line v).Stops goOn) :
    s.Performance goOn before (line :: lines) (line :: ran) w v r where
  isPrefix := List.cons_prefix_cons.mpr ⟨rfl, h.isPrefix⟩
  script := .ran line _ h.script
  goesOn u hu := by
    rw [Runner.turns] at hu
    by_cases hne : s.runner.turns ran (s.runner.run line v).2 = []
    · simp [hne] at hu
    · rw [List.dropLast_cons_of_ne_nil hne] at hu
      rcases List.mem_cons.mp hu with rfl | hu
      · exact hgo
      · exact h.goesOn u hu
  stops hne := by
    have hne' : ran ≠ lines := fun heq => hne (congrArg (line :: ·) heq)
    exact (exists_getLast?_cons hgo).mpr (h.stops hne')
  ended f := by
    have hnumber : before + (line :: ran).length = before + 1 + ran.length := by
      rw [List.length_cons]
      omega
    rw [hnumber]
    exact (h.ended f).trans (exists_getLast?_cons fun hu => hgo hu.1).symm
  after := h.after

end Performance

/-- A script runs its first lines as they are run without the shell, up to one after which it
stops. -/
theorem performance_of_runLines (hs : s.AtTerminal) (h : fresh w = fresh v)
    (hw : (terminal w).IsOpen) (before : Nat) (lines : List String) :
    ∃ ran, s.Performance goOn before lines ran w v (s.runLines goOn (before + 1) lines w) := by
  -- The world of the script and that of the run part company only in what has been shown.
  induction lines generalizing before w v with
  | nil => exact ⟨[], .nil h⟩
  | cons line lines ih =>
    by_cases hstop : (s.runner.turn line w).Stops goOn
    · exact ⟨[line], .single hs h hw hstop lines⟩
    · obtain ⟨hresult, hafter⟩ := run_congr hs h line
      have hopen := (run_follows hs line w).isOpen hw
      have hreply : (s.runner.turn line w).reply = (s.runner.turn line v).reply :=
        Turn.reply_congr hresult
      have hrest := ih ((fresh_say _ hopen).trans hafter)
        ((say_follows (s.runner.turn line w).reply _).isOpen hopen) (before + 1)
      obtain ⟨ran, hran⟩ := hrest
      rw [runLines_cons_of_goesOn (before + 1) hopen hstop]
      rw [hreply] at hran ⊢
      exact ⟨line :: ran, hran.cons fun hv => hstop ((Turn.stops_congr hresult).mpr hv)⟩

/-! ### What is shown -/

/-- A script takes its terminal further. -/
theorem Script.follows {log : List Happening} (hs : s.AtTerminal) (h : s.Script w log w') :
    (terminal w').Follows (terminal w) := by
  induction h with
  | nil w => exact .refl _
  | ran line reply rest ih => exact ih.trans ((say_follows reply _).trans (run_follows hs line _))

/-- The log of a script is all that happens on the terminal if no question is put there. -/
theorem Script.takes {c : Confirmer κ} {log : List Happening} (hs : s.runner.confirmer = c.onSecond)
    (hw : (terminal w).IsOpen) (h : s.Script w log w') :
    (terminal w).Takes log (terminal w') := by
  induction h with
  | nil => exact .nil hw
  | @ran w w' log line reply rest ih =>
    have hran := ran_takes hs hw line reply
    exact hran.append (ih hran.isOpen)

/-- The bytes of a log are the replies, each on lines of its own. -/
theorem output_scripted (turns : List (Turn σ (Terminal × κ) ε τ)) :
    ((turns.flatMap Turn.scripted).flatMap Happening.events).flatMap Event.output =
      (turns.filterMap Turn.reply).flatMap fun text => Utf8.ofText (text ++ "\n") := by
  induction turns with
  | nil => rfl
  | cons u turns ih =>
    rw [List.flatMap_cons, List.flatMap_append, List.flatMap_append, ih, Turn.scripted, Turn.shown]
    cases hreply : u.reply with
    | none =>
      rw [List.filterMap_cons_none hreply]
      rfl
    | some text =>
      rw [List.filterMap_cons_some hreply, List.flatMap_cons]
      exact congrArg (· ++ _) (List.append_nil _)

/-- A script runs its first lines, each once and in order, up to one that ends the session or fails
where failures are not passed over, or fails in a way that is never passed over. It leads to the
world to which these lines lead without the shell, and fails if it stopped after a failure. If the
questions of the lines are not put on its own terminal, what it writes there is what there is to
show for each line, and nothing else. -/
theorem runScript_stops (s : Shell σ κ ε τ) (hs : s.AtTerminal) (lines : List String) (goOn : Bool)
    (w : State σ κ ε τ) (hw : (terminal w).IsOpen) :
    ∃ ran, s.Performance goOn 0 lines ran w w (s.runScript lines goOn w) ∧
      ∀ c : Confirmer κ, s.runner.confirmer = c.onSecond →
        (terminal (s.runScript lines goOn w).2).output =
          (terminal w).output ++ ((s.runner.turns ran w).filterMap Turn.reply).flatMap
            fun text => Utf8.ofText (text ++ "\n") := by
  have hlines : ∃ ran, s.Performance goOn 0 lines ran w w (s.runLines goOn 1 lines w) :=
    performance_of_runLines hs rfl hw 0 lines
  obtain ⟨ran, hran⟩ := hlines
  rw [runScript_of_isOpen ((hran.script.follows hs).isOpen hw)]
  refine ⟨ran, hran, fun c hc => ?_⟩
  have htakes := hran.script.takes hc hw
  rw [Terminal.output, htakes.transcript, List.flatMap_append, output_scripted]
  rfl

/-- Of four lines three are run: the third one names a node that is not there. Nobody answers the
question of the second, so that its node stays. -/
theorem runScript_stops_grove :
    let s : Shell Tree Unit Unit Unit :=
      ⟨⟨Tree.client default, Confirmer.assumeDefault.onSecond,
        ⟨fun _ payload e => (.ok payload, e)⟩, none⟩, true⟩
    let lines := ["create /a/b", "delete /a/b", " get /missing", "create /c"]
    let w : State Tree Unit Unit Unit :=
      ⟨⟨Tree.grove, .start false, ()⟩, (.ofReadings [], ()), (), []⟩
    s.Performance false 0 lines (lines.take 3) w w (s.runScript lines false w) ∧
      (s.runScript lines false w).1 = .error (.of "command 3 failed: get /missing") ∧
      (terminal (s.runScript lines false w).2).output =
        Utf8.ofText "Aborting\n/missing does not exist\n" := by
  intro s lines w
  obtain ⟨ran, hran, hshown⟩ := s.runScript_stops (Or.inr ⟨.assumeDefault, rfl⟩) lines false w
    ⟨rfl, fun _ => rfl⟩
  -- Of the five beginnings of the script only one ends where the script stops for the first time.
  have honly : ∀ n < 5, (∀ u ∈ (s.runner.turns (lines.take n) w).dropLast, ¬ u.Stops false) →
      (lines.take n ≠ lines → ∃ u ∈ (s.runner.turns (lines.take n) w).getLast?, u.Stops false) →
      lines.take n = lines.take 3 := by decide +kernel
  have htake : ran = lines.take ran.length := List.prefix_iff_eq_take.mp hran.isPrefix
  have hlength : ran.length < 5 := Nat.lt_succ_of_le hran.isPrefix.length_le
  have hthree : ran = lines.take 3 := by
    rw [htake]
    exact honly ran.length hlength (htake ▸ hran.goesOn) (htake ▸ hran.stops)
  subst hthree
  exact ⟨hran, by decide +kernel, (hshown .assumeDefault rfl).trans (by decide +kernel)⟩

end Shell
end TreeConsole
