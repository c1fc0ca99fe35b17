import TreeConsole.Proofs.Runner.Likeness
import TreeConsole.Proofs.Shell.Dialogue
import TreeConsole.Proofs.Text.Encoding

/-!
# Scripts and conversations

The lines of a script and the same lines, typed one after the other until the input ends, are run
alike: the same of them, with the same results, in worlds that differ by the terminal only. Both
stop after the same line. What is shown for a line is the same too, unless it is the last one and
the store cannot be used after it; a conversation leaves it to its caller to show that failure.

## Main definitions

* `Turn.next` — what comes after a line
* `Runner.performed` — the turns of some lines, up to one after which no other is run
* `Shell.Script` — what happens while a script runs
* `Shell.Agreement` — a script and a conversation that perform the same turns

## Main results

* `Shell.script_turn`, `Shell.step_typed` — a line of a script, and one of a conversation
* `Shell.step_ended` — what a conversation does when there is no line left
* `Shell.script_agrees` — a script agrees with the conversation in which it is typed
-/

namespace TreeConsole

variable {σ κ ε τ : Type}

/-! ### What comes after a line -/

namespace Turn

/-- What comes after a line. -/
def next (u : Turn σ κ ε τ) : Next :=
  match u.result with
  | .ok outcome => if outcome = .terminate then .leave else .goOn
  | .error e =>
    if e.isRecoverable then .goOn
    else .stop ((Failure.of e.message).within "shell session aborted")

/-- What is shown for a line, if anything is. -/
def reply (u : Turn σ κ ε τ) : Option String :=
  match u.result with
  | .ok outcome => outcome.shown?
  | .error e => some e.shown

/-- The log of showing what there is to show for a line. -/
def shown (u : Turn σ κ ε τ) : List Happening :=
  u.reply.toList.map fun text => .said (text ++ "\n")

theorem next_congr {σ' κ' ε' τ' : Type} {u : Turn σ κ ε τ} {u' : Turn σ' κ' ε' τ'}
    (h : u.result = u'.result) : u.next = u'.next := by
  unfold next
  rw [h]

theorem reply_congr {σ' κ' ε' τ' : Type} {u : Turn σ κ ε τ} {u' : Turn σ' κ' ε' τ'}
    (h : u.result = u'.result) : u.reply = u'.reply := by
  unfold reply
  rw [h]

end Turn

/-- The turns of some lines, one after the other, up to one after which no other line is run. -/
def Runner.performed (r : Runner σ κ ε τ) : List String → World σ κ ε τ → List (Turn σ κ ε τ)
  | [], _ => []
  | line :: lines, w =>
    match (r.turn line w).next with
    | .goOn => r.turn line w :: r.performed lines (r.run line w).2
    | .leave | .stop _ => [r.turn line w]

namespace Shell

variable {s : Shell σ κ ε τ} {w w' : State σ κ ε τ} {line : String} {lines : List String}

/-! ### One line -/

/-- A line of a script: what there is to show is shown, and then the script goes on or ends. -/
theorem runLines_cons (number : Nat) (h : (terminal (s.runner.run line w).2).IsOpen) :
    s.runLines true number (line :: lines) w =
      match (s.runner.turn line w).next with
      | .goOn =>
        s.runLines true (number + 1) lines
          (say (s.runner.turn line w).reply (s.runner.run line w).2)
      | .leave => (.ok (), say (s.runner.turn line w).reply (s.runner.run line w).2)
      | .stop _ =>
        (.error (scriptFailure number line),
          say (s.runner.turn line w).reply (s.runner.run line w).2) := by
  unfold Turn.next Turn.reply Runner.turn
  rcases hrun : s.runner.run line w with ⟨e | outcome, w₁⟩
  · rw [hrun] at h
    have hwritten : writeLine e.shown w₁ = (true, say (some e.shown) w₁) :=
      write_of_isOpen h (e.shown ++ "\n")
    cases he : e.isRecoverable <;>
      simp [runLines, execute_of_error hrun, hwritten, he]
  · by_cases hlast : outcome = .terminate
    · simp [runLines, execute_of_ok hrun, hlast]
    · simp [runLines, execute_of_ok hrun, hlast]

/-- A line of a conversation: a failure after which the store cannot be used is not shown. -/
theorem respond_eq (h : (terminal (s.runner.run line w).2).IsOpen) :
    s.respond line w =
      match (s.runner.turn line w).next with
      | .goOn => (.goOn, say (s.runner.turn line w).reply (s.runner.run line w).2)
      | .leave => (.leave, say (s.runner.turn line w).reply (s.runner.run line w).2)
      | .stop f => (.stop f, (s.runner.run line w).2) := by
  unfold Turn.next Turn.reply Runner.turn
  rcases hrun : s.runner.run line w with ⟨e | outcome, w₁⟩
  · rw [hrun] at h
    cases he : e.isRecoverable with
    | true => simp [respond_of_recoverable hrun h he, he]
    | false => simp [respond_of_unrecoverable hrun he, he]
  · by_cases hlast : outcome = .terminate
    · simp [respond_of_ok hrun, hlast]
    · simp [respond_of_ok hrun, hlast]

/-- On a terminal that takes whatever is written it makes no difference that a script is written out
at its end. -/
theorem runScript_of_isOpen {goOn : Bool} (h : (terminal (s.runLines goOn 1 lines w).2).IsOpen) :
    s.runScript lines goOn w = s.runLines goOn 1 lines w := by
  rw [runScript]
  rcases hlines : s.runLines goOn 1 lines w with ⟨f | ⟨⟩, w₁⟩
  · rfl
  · rw [hlines] at h
    simp only [flush_of_isOpen h]

/-! ### Lines that are typed -/

/-- The reading of a line that is typed. -/
def typed (line : String) : Reading := .ofBytes (Utf8.ofText (line ++ "\n"))

/-- A line that can be typed as it is: nothing in it ends it, and nothing at its end is cut off. -/
def CanBeTyped (line : String) : Prop :=
  '\n' ∉ line.toList ∧ line.toList.getLast? ≠ some '\r'

instance (line : String) : Decidable (CanBeTyped line) := inferInstanceAs (Decidable (_ ∧ _))

theorem withoutLineEnd_line (h : CanBeTyped line) : withoutLineEnd (line ++ "\n") = line := by
  have hreverse : (line ++ "\n").toList.reverse = '\n' :: line.toList.reverse := by
    rw [String.toList_append, List.reverse_append]
    rfl
  -- The line feed is cut off, and at what stands before it the cutting stops.
  have hstop : (line.toList.reverse.dropWhile fun c => c = '\n' || c = '\r') =
      line.toList.reverse := by
    cases hlast : line.toList.reverse with
    | nil => rfl
    | cons c cs =>
      have hc : line.toList.getLast? = some c := by
        rw [← List.head?_reverse, hlast, List.head?_cons]
      have hmem : c ∈ line.toList := List.mem_of_getLast? hc
      have hfeed : c ≠ '\n' := fun heq => h.1 (heq ▸ hmem)
      have hreturn : c ≠ '\r' := fun heq => h.2 (heq ▸ hc)
      simp [hfeed, hreturn]
  rw [withoutLineEnd, hreverse, List.dropWhile_cons_of_pos (by decide), hstop,
    List.reverse_reverse, String.ofList_toList]

theorem lineOf?_typed (h : CanBeTyped line) : lineOf? (typed line) = some line := by
  have hnonempty : Utf8.ofText (line ++ "\n") ≠ [] := by
    rw [Utf8.ofText_line]
    exact List.append_ne_nil_of_right_ne_nil _ (List.cons_ne_nil _ _)
  rw [typed, Reading.ofBytes, dif_neg hnonempty, lineOf?, Utf8.toText_ofText,
    withoutLineEnd_line h]

/-- Typing lines one after the other has them read one after the other. -/
theorem ofInput_lines (h : ∀ line ∈ lines, CanBeTyped line) :
    Reading.ofInput (lines.flatMap fun line => Utf8.ofText (line ++ "\n")) = lines.map typed := by
  rw [Reading.ofInput, Utf8.lines_flatMap_line fun line hline => (h line hline).1, List.map_map]
  rfl

/-! ### Runs that differ by the terminal -/

section Terminals

variable {c : Confirmer κ}

/-- The runner of a shell whose confirmer does not ask on the terminal, without the terminal. -/
def offTerminal (s : Shell σ κ ε τ) (c : Confirmer κ) : Runner σ κ ε τ :=
  ⟨s.runner.client, c, s.runner.editor, s.runner.telemetry⟩

/-- A world without the terminal. -/
def withoutTerminal (w : State σ κ ε τ) : World σ κ ε τ := w.map Prod.snd id

theorem looksLike_offTerminal (hs : s.runner.confirmer = c.onSecond) :
    Runner.LooksLike Prod.snd id s.runner (s.offTerminal c) := by
  refine .of_ask fun q k => ?_
  rw [hs]
  rfl

theorem run_offTerminal (hs : s.runner.confirmer = c.onSecond) (line : String)
    (w : State σ κ ε τ) :
    (s.runner.run line w).1 = ((s.offTerminal c).run line (withoutTerminal w)).1 ∧
      withoutTerminal (s.runner.run line w).2 =
        ((s.offTerminal c).run line (withoutTerminal w)).2 ∧
      terminal (s.runner.run line w).2 = terminal w := by
  have hrun := (looksLike_offTerminal hs).run line w
  refine ⟨(congrArg Prod.fst hrun).symm, (congrArg Prod.snd hrun).symm, ?_⟩
  rcases s.runner.asker_run line w with hasker | ⟨_, q, -, -, hasker⟩
  · exact congrArg Prod.fst hasker
  · rw [hs] at hasker
    have hterminal := congrArg Prod.fst hasker
    exact hterminal

theorem withoutTerminal_say (reply : Option String) (w : State σ κ ε τ) :
    withoutTerminal (say reply w) = withoutTerminal w := by
  cases reply <;> rfl

end Terminals

/-! ### Agreement -/

/-- What happens while a script runs: its lines are run, and replies are shown. -/
inductive Script (s : Shell σ κ ε τ) : State σ κ ε τ → List Happening → State σ κ ε τ → Prop
  | nil (w : State σ κ ε τ) : Script s w [] w
  | ran {w w' : State σ κ ε τ} {log : List Happening} (line : String) (reply : Option String)
    (rest : Script s (say reply (s.runner.run line w).2) log w') :
    Script s w (.ran line :: ((reply.toList.map fun text => .said (text ++ "\n")) ++ log)) w'

end Shell

namespace Turn

/-- The log of a turn of a script. -/
def scripted (u : Turn σ κ ε τ) : List Happening := .ran u.line :: u.shown

/-- The log of a turn of a conversation. A failure that ends it is not shown. -/
def talked (u : Turn σ κ ε τ) : List Happening :=
  [.prompted u.before.session, .heard (Shell.typed u.line), .ran u.line] ++
    match u.next with
    | .goOn | .leave => u.shown
    | .stop _ => []

end Turn

namespace Shell

variable {s : Shell σ κ ε τ} {w w' : State σ κ ε τ} {line : String} {lines : List String}

/-- The log of a turn at the end of the input: instead of a line there is the end of the input, and
so there is behind the question whether to leave. -/
def unanswered (s : Shell σ κ ε τ) (session : Session) : List Happening :=
  [.prompted session, .heard .endOfInput, .said "\n", .asked s.quitQuestion,
    .answered .endOfInput, .said "\n"]

/-- The log of leaving at the end of the input, if no line has ended the conversation before. -/
def leaving (s : Shell σ κ ε τ) (turns : List (Turn σ κ ε τ)) (session : Session) :
    List Happening :=
  if ∀ u ∈ turns, u.next = .goOn then s.unanswered session else []

/-- A script and a conversation that perform the same turns: the script from one world, the
conversation from another, and what has become of each. -/
structure Agreement (s : Shell σ κ ε τ) (turns : List (Turn σ κ ε τ)) (w : State σ κ ε τ)
    (script : Ended × State σ κ ε τ) (w' : State σ κ ε τ)
    (talk : Option Ended × State σ κ ε τ) : Prop where
  /-- The script runs the lines of the turns and shows what there is to show, and nothing else is
  written or read. -/
  scripted : s.Script w (turns.flatMap Turn.scripted) script.2 ∧
    (terminal w).Takes (turns.flatMap Turn.scripted) (terminal script.2)
  /-- The conversation runs the lines of the turns and shows what there is to show, with a prompt
  before each, and asks whether to leave when no line has ended it. -/
  talked : s.Dialogue w' (turns.flatMap Turn.talked ++ s.leaving turns talk.2.session) talk.2 ∧
    (terminal w').Takes (turns.flatMap Turn.talked ++ s.leaving turns talk.2.session)
      (terminal talk.2)
  /-- But for the terminal they lead to the same world. -/
  same : withoutTerminal script.2 = withoutTerminal talk.2
  /-- Both succeed, or both fail. -/
  ended : script.1 = .ok () ∧ talk.1 = some (.ok ()) ∨
    ∃ f f', script.1 = .error f ∧ talk.1 = some (.error f')

/-! ### What is read -/

/-- A prompt and a reading take one reading from those that are to come. -/
theorem source_listen {r : Reading} {rest : Stream' Reading} (h : (terminal w).IsOpen)
    (hsource : (terminal w).source = Stream'.cons r rest) :
    (listen w).1 = r ∧ (terminal (listen w).2).source = rest := by
  have hread : Stream'.cons r rest =
      Stream'.cons (listen w).1 (terminal (listen w).2).source :=
    hsource.symm.trans (listen_takes h).source
  exact ⟨(congrArg Stream'.head hread).symm, (congrArg Stream'.tail hread).symm⟩

/-- At the end of the input a question gets its default. -/
theorem ask_of_ended (q : Question) {t : Terminal} (h : t.IsOpen)
    (hsource : t.source = Stream'.const .endOfInput) :
    (q.ask t).1 = q.default ∧
      t.Takes [.asked q, .answered .endOfInput, .said "\n"] (q.ask t).2 := by
  obtain ⟨log, hlog, htakes⟩ := q.ask_takes h
  have hend : ∀ {r rest}, t.source = Stream'.cons r rest → r = .endOfInput := by
    intro r rest hcons
    exact (congrArg Stream'.head (hsource.symm.trans hcons)).symm
  generalize (q.ask t).1 = answer at hlog
  cases hlog with
  | silent =>
    obtain rfl := hend htakes.source
    exact ⟨rfl, htakes⟩
  | yes hv | no hv | unclear hv =>
    rw [hend htakes.source] at hv
    cases hv

theorem leaving_nil (s : Shell σ κ ε τ) (session : Session) :
    s.leaving [] session = s.unanswered session :=
  if_pos fun _ hu => absurd hu List.not_mem_nil

/-- The prompt and the reading change the terminal and the width. -/
theorem withoutTerminal_listen (w : State σ κ ε τ) :
    withoutTerminal (listen w).2 = withoutTerminal (measure w) := rfl

/-- What comes of a turn at the end of the input, where silence decides. -/
structure Unanswered (s : Shell σ κ ε τ) (w : State σ κ ε τ) (next : Next) (w' : State σ κ ε τ) :
    Prop where
  step : s.step w = (next, w')
  /-- The user is asked whether to leave and is silent, so that the default is the answer. -/
  exchange : s.Exchange w (s.unanswered (measure w).session) next w'
  /-- And that is all that happens on the terminal. -/
  takes : (terminal w).Takes (s.unanswered (measure w).session) (terminal w')
  /-- Whoever stays goes on to the next number. Nothing else changes but the terminal and the width
  that it tells. -/
  after : withoutTerminal w' =
    if next = .goOn then (withoutTerminal (measure w)).advance else withoutTerminal (measure w)

/-- At the end of the input a turn asks whether to leave, and the default decides. -/
theorem step_ended (s : Shell σ κ ε τ) (h : (terminal w).IsOpen)
    (hsource : (terminal w).source = Stream'.const .endOfInput) :
    ∃ w', s.Unanswered w (if s.quitDefault then .leave else .goOn) w' := by
  have hlisten := listen_takes h
  obtain ⟨hread, hrest⟩ := source_listen h (hsource.trans (Stream'.const_eq _))
  have hended : (terminal (listen w).2).Takes [.said "\n"]
      ((terminal (listen w).2).write "\n").2 := .write hlisten.isOpen rfl rfl rfl
  obtain ⟨hanswer, hasked⟩ :=
    ask_of_ended s.quitQuestion hended.isOpen (hended.source.symm.trans hrest)
  have htakes := (hlisten.append hended).append hasked
  have hsilent : s.quitQuestion.Inquiry
      [.asked s.quitQuestion, .answered .endOfInput, .said "\n"] s.quitQuestion.default :=
    .silent rfl
  have hstep : s.step w = s.confirmQuit (listen w).2 := step_of_silence h (Or.inr hread)
  rw [confirmQuit_of_isOpen hlisten.isOpen] at hstep
  rcases hask : s.quitQuestion.ask ((terminal (listen w).2).write "\n").2 with ⟨answer, t⟩
  rw [hask] at hanswer htakes hstep
  -- The answer is the default, in the one case as in the other.
  obtain rfl : answer = s.quitDefault := hanswer
  cases hquit : s.quitDefault with
  | true =>
    rw [hquit] at hask hstep
    have hdefault : s.quitQuestion.default = true := hquit
    rw [hdefault] at hsilent
    have hexchange : s.Exchange w _ _ _ := .left (Or.inr hread) hask hsilent
    rw [hread] at hexchange htakes
    exact ⟨_, hstep, hexchange, htakes, rfl⟩
  | false =>
    rw [hquit] at hask hstep
    have hdefault : s.quitQuestion.default = false := hquit
    rw [hdefault] at hsilent
    have hexchange : s.Exchange w _ _ _ := .stayed (Or.inr hread) hask hsilent
    rw [hread] at hexchange htakes
    exact ⟨_, hstep, hexchange, htakes, rfl⟩

/-- Without a line a conversation ends by asking whether to leave, and a script ends at once. -/
theorem agreement_nil {c : Confirmer κ} {number : Nat} (hquit : s.quitDefault = true)
    (hsame : withoutTerminal w = withoutTerminal w') (hw : (terminal w).IsOpen)
    (hw' : (terminal w').IsOpen) (hwidth : ∀ n, (terminal w').widths n = none)
    (hsource : (terminal w').source = Stream'.const .endOfInput) :
    s.Agreement ((s.offTerminal c).performed [] (withoutTerminal w)) w
      (s.runLines true number [] w) w' (s.interactFor 1 w') := by
  obtain ⟨w₁, hturn⟩ := s.step_ended hw' hsource
  rw [hquit, if_pos rfl] at hturn
  obtain ⟨hstep, hexchange, htakes, hafter⟩ := hturn
  rw [measure_of_widthless hwidth] at hexchange htakes hafter
  have hsession : w₁.session = w'.session :=
    congrArg (fun v : World σ κ ε τ => v.session) hafter
  rw [interactFor_of_leave s 0 w' _ hstep, runLines_nil]
  refine ⟨⟨.nil w, .nil hw⟩, ?_, hsame.trans hafter.symm, Or.inl ⟨rfl, rfl⟩⟩
  rw [Runner.performed, List.flatMap_nil, List.nil_append, hsession, leaving_nil]
  exact ⟨.last hexchange, htakes⟩

/-! ### Line by line -/

/-- What there is to show is the same with the terminal and without. -/
theorem turn_offTerminal {c : Confirmer κ} (hs : s.runner.confirmer = c.onSecond) (line : String)
    (w : State σ κ ε τ) :
    (s.runner.turn line w).next = ((s.offTerminal c).turn line (withoutTerminal w)).next ∧
      (s.runner.turn line w).reply = ((s.offTerminal c).turn line (withoutTerminal w)).reply := by
  have hresult : (s.runner.turn line w).result =
      ((s.offTerminal c).turn line (withoutTerminal w)).result := (run_offTerminal hs line w).1
  exact ⟨Turn.next_congr hresult, Turn.reply_congr hresult⟩

/-- A line is run and something is shown, and nothing else happens on the terminal. -/
theorem ran_takes {c : Confirmer κ} (hs : s.runner.confirmer = c.onSecond)
    (h : (terminal w).IsOpen) (line : String) (reply : Option String) :
    (terminal w).Takes (.ran line :: reply.toList.map fun text => .said (text ++ "\n"))
      (terminal (say reply (s.runner.run line w).2)) := by
  have hterminal := (run_offTerminal hs line w).2.2
  have hsay : (terminal w).Takes (reply.toList.map fun text => .said (text ++ "\n"))
      (terminal (say reply (s.runner.run line w).2)) := by
    have hopen : (terminal (s.runner.run line w).2).IsOpen := by
      rw [hterminal]
      exact h
    rw [← hterminal]
    exact say_takes hopen reply
  exact (Terminal.Takes.ran h line).append hsay

/-- A turn of a conversation in which a line is typed, with what is shown for it. -/
theorem typed_exchange {c : Confirmer κ} (hs : s.runner.confirmer = c.onSecond)
    (h : (terminal w).IsOpen) (hline : CanBeTyped line) (hread : (listen w).1 = typed line)
    (reply : Option String) (next : Next) :
    let log := [.prompted (measure w).session, .heard (typed line), .ran line] ++
      reply.toList.map fun text => .said (text ++ "\n")
    s.Exchange w log next (say reply (s.runner.run line (listen w).2).2) ∧
      (terminal w).Takes log (terminal (say reply (s.runner.run line (listen w).2).2)) := by
  have hr : lineOf? (listen w).1 = some line := by
    rw [hread]
    exact lineOf?_typed hline
  have hexchange : s.Exchange w _ next _ := .ran reply hr (Or.inl rfl)
  have hlisten := listen_takes h
  have htakes := hlisten.append (ran_takes hs hlisten.isOpen line reply)
  rw [hread] at hexchange htakes
  exact ⟨hexchange, htakes⟩

/-- One line of a script is the turn of a runner without the terminal. -/
theorem script_turn {c : Confirmer κ} (hs : s.runner.confirmer = c.onSecond)
    (h : (terminal w).IsOpen) (line : String) (lines : List String) (number : Nat) :
    let u := (s.offTerminal c).turn line (withoutTerminal w)
    let w₁ := say u.reply (s.runner.run line w).2
    withoutTerminal w₁ = u.after ∧ (terminal w).Takes u.scripted (terminal w₁) ∧
      s.runLines true number (line :: lines) w =
        match u.next with
        | .goOn => s.runLines true (number + 1) lines w₁
        | .leave => (.ok (), w₁)
        | .stop _ => (.error (scriptFailure number line), w₁) := by
  intro u w₁
  obtain ⟨-, hworld, hterminal⟩ := run_offTerminal hs line w
  obtain ⟨hnext, hreply⟩ := turn_offTerminal hs line w
  refine ⟨(withoutTerminal_say _ _).trans hworld, ran_takes hs h line u.reply, ?_⟩
  rw [runLines_cons number (by rw [hterminal]; exact h), hnext, hreply]

/-- So is one turn of a conversation in which a line is typed. -/
theorem step_typed {c : Confirmer κ} (hs : s.runner.confirmer = c.onSecond)
    (h : (terminal w).IsOpen) (hwidth : ∀ n, (terminal w).widths n = none)
    (hline : CanBeTyped line) (hread : (listen w).1 = typed line) :
    let u := (s.offTerminal c).turn line (withoutTerminal w)
    (s.step w).1 = u.next ∧ withoutTerminal (s.step w).2 = u.after ∧
      s.Exchange w u.talked u.next (s.step w).2 ∧
      (terminal w).Takes u.talked (terminal (s.step w).2) := by
  intro u
  obtain ⟨-, hworld, hterminal⟩ := run_offTerminal hs line (listen w).2
  obtain ⟨hnext, hreply⟩ := turn_offTerminal hs line (listen w).2
  have hstep : s.step w = s.respond line (listen w).2 :=
    step_of_line h (by rw [hread]; exact lineOf?_typed hline)
  have hexchange := fun reply => typed_exchange hs h hline hread reply u.next
  rw [hstep, respond_eq (by rw [hterminal]; exact (listen_takes h).isOpen), hnext, hreply]
  -- Since it tells no width, the prompt and the reading have changed the terminal only.
  rw [withoutTerminal_listen, measure_of_widthless hwidth] at hworld ⊢
  rw [measure_of_widthless hwidth] at hexchange
  rw [Turn.talked]
  cases hgo : u.next with
  | goOn | leave =>
    rw [hgo] at hexchange
    exact ⟨rfl, (withoutTerminal_say _ _).trans hworld, hexchange u.reply⟩
  | stop f =>
    rw [hgo] at hexchange
    exact ⟨rfl, hworld, hexchange none⟩

/-- Of all that happens in such a turn the line alone is read. -/
theorem reads_talked (u : Turn σ κ ε τ) :
    u.talked.filterMap Happening.reading? = [typed u.line] := by
  have hshown : u.shown.filterMap Happening.reading? = [] := by
    unfold Turn.shown
    cases u.reply <;> rfl
  unfold Turn.talked
  rw [List.filterMap_append]
  cases u.next with
  | goOn | leave => exact congrArg ([typed u.line] ++ ·) hshown
  | stop f => rfl

theorem leaving_cons {u : Turn σ κ ε τ} (h : u.next = .goOn) (turns : List (Turn σ κ ε τ))
    (session : Session) : s.leaving (u :: turns) session = s.leaving turns session := by
  simp [leaving, h]

theorem leaving_of_ended {u : Turn σ κ ε τ} (h : u.next ≠ .goOn) (session : Session) :
    s.leaving [u] session = [] :=
  if_neg fun hall => h (hall u List.mem_cons_self)

/-- What agrees still agrees with a turn in front after which both go on. -/
theorem Agreement.cons {u : Turn σ κ ε τ} {turns : List (Turn σ κ ε τ)} {w₁' : State σ κ ε τ}
    {script : Ended × State σ κ ε τ} {talk : Option Ended × State σ κ ε τ}
    (h : s.Agreement turns (say u.reply (s.runner.run u.line w).2) script w₁' talk)
    (hgo : u.next = .goOn)
    (hscripted : (terminal w).Takes u.scripted (terminal (say u.reply (s.runner.run u.line w).2)))
    (hexchange : s.Exchange w' u.talked .goOn w₁')
    (htalked : (terminal w').Takes u.talked (terminal w₁')) :
    s.Agreement (u :: turns) w script w' talk where
  scripted := ⟨.ran u.line u.reply h.scripted.1, hscripted.append h.scripted.2⟩
  talked := by
    rw [List.flatMap_cons, List.append_assoc, leaving_cons hgo]
    exact ⟨.more hexchange h.talked.1, htalked.append h.talked.2⟩
  same := h.same
  ended := h.ended

/-- One turn after which both end. -/
theorem Agreement.single {u : Turn σ κ ε τ} {next : Next} {w₁' : State σ κ ε τ} {ended : Ended}
    {ended' : Option Ended} (hgo : u.next ≠ .goOn)
    (hscripted : (terminal w).Takes u.scripted (terminal (say u.reply (s.runner.run u.line w).2)))
    (hexchange : s.Exchange w' u.talked next w₁')
    (htalked : (terminal w').Takes u.talked (terminal w₁'))
    (hsame : withoutTerminal (say u.reply (s.runner.run u.line w).2) = withoutTerminal w₁')
    (hended : ended = .ok () ∧ ended' = some (.ok ()) ∨
      ∃ f f', ended = .error f ∧ ended' = some (.error f')) :
    s.Agreement [u] w (ended, say u.reply (s.runner.run u.line w).2) w' (ended', w₁') where
  scripted := by
    have hscript : s.Script w (u.scripted ++ []) _ := .ran u.line u.reply (.nil _)
    rw [List.append_nil] at hscript
    rw [List.flatMap_singleton]
    exact ⟨hscript, hscripted⟩
  talked := by
    rw [List.flatMap_singleton, leaving_of_ended hgo, List.append_nil]
    exact ⟨.last hexchange, htalked⟩
  same := hsame
  ended := hended

/-- A script and a conversation in which it is typed agree, line by line. -/
theorem agreement_of_typed {c : Confirmer κ} (hs : s.runner.confirmer = c.onSecond)
    (hquit : s.quitDefault = true) (hlines : ∀ line ∈ lines, CanBeTyped line) (number : Nat)
    (hsame : withoutTerminal w = withoutTerminal w') (hw : (terminal w).IsOpen)
    (hw' : (terminal w').IsOpen) (hwidth : ∀ n, (terminal w').widths n = none)
    (hsource : (terminal w').source = lines.map typed ++ₛ Stream'.const .endOfInput) :
    s.Agreement ((s.offTerminal c).performed lines (withoutTerminal w)) w
      (s.runLines true number lines w) w' (s.interactFor (lines.length + 1) w') := by
  induction lines generalizing number w w' with
  | nil => exact agreement_nil hquit hsame hw hw' hwidth hsource
  | cons line lines ih =>
    obtain ⟨hread, -⟩ := source_listen hw' hsource
    obtain ⟨hafter, hscripted, hscript⟩ := script_turn hs hw line lines number
    obtain ⟨hnext, hafter', hexchange, htalked⟩ :=
      step_typed hs hw' hwidth (hlines line List.mem_cons_self) hread
    rw [← hsame] at hnext hafter' hexchange htalked
    have hsource' : (terminal (s.step w').2).source =
        lines.map typed ++ₛ Stream'.const .endOfInput := by
      have hreads := hsource.symm.trans htalked.source
      rw [reads_talked] at hreads
      exact (congrArg Stream'.tail hreads).symm
    have hrest := ih (fun line' h => hlines line' (List.mem_cons_of_mem _ h)) (number + 1)
      (hafter.trans hafter'.symm) hscripted.isOpen htalked.isOpen (htalked.widthless hwidth)
      hsource'
    rw [hafter] at hrest
    -- What is still to come depends on what comes after the line.
    unfold Runner.performed
    cases hgo : ((s.offTerminal c).turn line (withoutTerminal w)).next with
    | goOn =>
      rw [hgo] at hexchange hnext hscript
      rw [hscript, List.length_cons, interactFor_succ s _ w' _ (Prod.ext hnext rfl)]
      exact hrest.cons hgo hscripted hexchange htalked
    | leave =>
      rw [hgo] at hexchange hnext hscript
      rw [hscript, interactFor_of_leave s _ w' _ (Prod.ext hnext rfl)]
      exact .single (by rw [hgo]; exact Next.noConfusion) hscripted hexchange htalked
        (hafter.trans hafter'.symm) (Or.inl ⟨rfl, rfl⟩)
    | stop f =>
      rw [hgo] at hexchange hnext hscript
      rw [hscript, interactFor_of_stop s _ w' _ (Prod.ext hnext rfl)]
      exact .single (by rw [hgo]; exact Next.noConfusion) hscripted hexchange htalked
        (hafter.trans hafter'.symm) (Or.inr ⟨_, f, rfl, rfl⟩)

/-- Both logs have the lines of the turns in them, one after the other, and no other lines. -/
theorem ran_of_turns (s : Shell σ κ ε τ) (turns : List (Turn σ κ ε τ)) (session : Session) :
    (turns.flatMap Turn.scripted).filterMap Happening.ran? = turns.map Turn.line ∧
      (turns.flatMap Turn.talked ++ s.leaving turns session).filterMap Happening.ran? =
        turns.map Turn.line := by
  have hshown : ∀ u : Turn σ κ ε τ, u.shown.filterMap Happening.ran? = [] := by
    intro u
    unfold Turn.shown
    cases u.reply <;> rfl
  have hscripted : ∀ u : Turn σ κ ε τ, u.scripted.filterMap Happening.ran? = [u.line] :=
    fun u => congrArg (u.line :: ·) (hshown u)
  have htalked : ∀ u : Turn σ κ ε τ, u.talked.filterMap Happening.ran? = [u.line] := by
    intro u
    unfold Turn.talked
    rw [List.filterMap_append]
    cases u.next with
    | goOn | leave => exact congrArg ([u.line] ++ ·) (hshown u)
    | stop f => rfl
  have hleaving : (s.leaving turns session).filterMap Happening.ran? = [] := by
    unfold leaving
    split <;> rfl
  rw [List.map_eq_flatMap]
  constructor
  · rw [List.filterMap_flatMap, funext hscripted]
  · rw [List.filterMap_append, hleaving, List.append_nil, List.filterMap_flatMap, funext htalked]

/-- A script and the conversation in which its lines are typed until the input ends run the same
lines and agree in all that comes of them, if no question is put on the terminal, the terminal never
tells its width, and silence means to leave at the end. -/
theorem script_agrees (s : Shell σ κ ε τ) (c : Confirmer κ) (hs : s.runner.confirmer = c.onSecond)
    (hquit : s.quitDefault = true) (lines : List String) (hlines : ∀ line ∈ lines, CanBeTyped line)
    (w w' : State σ κ ε τ) (hsame : withoutTerminal w = withoutTerminal w')
    (hw : (terminal w).IsOpen) (hw' : (terminal w').IsOpen)
    (hwidth : ∀ n, (terminal w').widths n = none)
    (hinput : (terminal w').incoming =
      Reading.ofInput (lines.flatMap fun line => Utf8.ofText (line ++ "\n")))
    (hend : (terminal w').ending = .endOfInput) :
    let turns := (s.offTerminal c).performed lines (withoutTerminal w)
    s.Agreement turns w (s.runScript lines true w) w' (s.interact w') ∧
      (turns.flatMap Turn.scripted).filterMap Happening.ran? = turns.map Turn.line ∧
        (turns.flatMap Turn.talked ++
          s.leaving turns (s.interact w').2.session).filterMap Happening.ran? =
            turns.map Turn.line := by
  intro turns
  rw [ofInput_lines hlines] at hinput
  have hsource : (terminal w').source = lines.map typed ++ₛ Stream'.const .endOfInput := by
    rw [Terminal.source, hinput, hend]
    rfl
  have htalk : s.interact w' = s.interactFor (lines.length + 1) w' := by
    rw [interact, hinput, List.length_map]
  have hagreement := agreement_of_typed hs hquit hlines 1 hsame hw hw' hwidth hsource
  rw [← htalk, ← runScript_of_isOpen hagreement.scripted.2.isOpen] at hagreement
  exact ⟨hagreement, ran_of_turns s turns _⟩

/-- Of five lines four are run: one is no command, one asks and gets no answer, and one leaves. -/
theorem script_agrees_grove :
    let s : Shell Tree Unit Unit Unit :=
      ⟨⟨Tree.client default, Confirmer.assumeDefault.onSecond,
        ⟨fun _ payload e => (.ok payload, e)⟩, none⟩, true⟩
    let lines := ["create /q", "nonsense", "delete /q", "quit", "create /r"]
    let input := lines.flatMap fun line => Utf8.ofText (line ++ "\n")
    let w : State Tree Unit Unit Unit :=
      ⟨⟨Tree.grove, .start false, ()⟩, (.ofReadings [], ()), (), []⟩
    let w' : State Tree Unit Unit Unit := withTerminal w (.ofInput input)
    ∃ turns, s.Agreement turns w (s.runScript lines true w) w' (s.interact w') ∧
      turns.map Turn.line = ["create /q", "nonsense", "delete /q", "quit"] := by
  intro s lines input w w'
  have hlines : ∀ line ∈ lines, CanBeTyped line := by decide +kernel
  obtain ⟨hagreement, -⟩ :=
    s.script_agrees .assumeDefault rfl rfl lines hlines w w' rfl ⟨rfl, fun _ => rfl⟩
      ⟨rfl, fun _ => rfl⟩ (fun _ => rfl) rfl rfl
  refine ⟨_, hagreement, ?_⟩
  decide +kernel

end Shell
end TreeConsole
