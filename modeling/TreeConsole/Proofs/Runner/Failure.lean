import TreeConsole.Client.Faults
import TreeConsole.Proofs.Command.Requests
import TreeConsole.Proofs.Runner.Course
import TreeConsole.Proofs.Tree.Refinement

/-!
# Lines that fail change nothing

A line that fails, is declined, or says that nothing was changed leaves the tree as it was, and the
session too, but for the number of the next line. This holds although a command may take several
requests, and although any of them may be refused on its way to the tree: a command that writes
looks first and makes its one change last, and the tree makes the change in full or not at all.

## Main definitions

* `Idle` — the results that promise that nothing was changed
* `Desk.Holds` — the tree and the session of a desk

## Main results

* `Command.handle_idle` — a command with such a result has left the tree and the session alone
* `Tree.Reachable.failures_change_nothing` — the same of calls and of whole lines
-/

namespace TreeConsole

open Act (Keeps Spares)

/-- The results that promise that nothing was changed: failures, questions answered with no, and
the message that a node is as it was. -/
def Idle : Except ShellError Outcome → Prop
  | .error _ | .ok .declined | .ok (.proceed (.unchanged _)) => True
  | .ok _ => False

namespace Act

variable {ω α : Type} {P : ω → Prop}

/-- An act keeps a property of the state when its result promises that nothing was changed. -/
def KeepsIdle (P : ω → Prop) (a : Act ω Outcome) : Prop := Triple P a fun r w => Idle r → P w

theorem Keeps.idle {a : Act ω Outcome} (h : Keeps P a) : KeepsIdle P a := fun w hw _ => h w hw

theorem Keeps.bind_idle {a : Act ω α} {f : α → Act ω Outcome} (ha : Keeps P a)
    (hf : ∀ x, KeepsIdle P (f x)) : KeepsIdle P (a >>= f) :=
  Triple.bind ha hf fun _ _ hw _ => hw

/-- The last request of a command is one that changes nothing if it fails, and if it goes through
there is nothing to show. -/
theorem Spares.idle {a : Act ω α} (h : Spares P a) :
    KeepsIdle P (a >>= fun _ => pure Command.silent) := by
  refine Triple.bind h (fun _ _ _ hidle => ?_) fun e _ hw _ => hw e rfl
  exact False.elim hidle

end Act

/-! ### Commands -/

namespace Command

variable {σ ε : Type} {client : Client σ} {editor : Editor ε} {P : Desk σ ε → Prop}

/-- A command looks first and makes its one change last, so what is kept by looking, by the editor
and by a change that fails is kept by the command if its result promises that nothing was
changed. -/
theorem handle_idle (c : Command)
    (hlook : ∀ q : Request, q.mutates = false → Keeps P (Desk.request client q))
    (hchange : ∀ q, Spares P (Desk.request client q))
    (hedit : ∀ path payload, Keeps P (Desk.openEditor editor path payload)) :
    Act.KeepsIdle P (c.handle client editor) := by
  by_cases hreads : c.keyword.mutates = false ∧ c.keyword ≠ .toggleWrite
  · have hlooks : ∀ q, c.keyword.mayRequest q = true → Keeps P (Desk.request client q) :=
      fun q hq => hlook q (Keyword.reads_of_mayRequest hreads.1 hq)
    exact (c.handle_keeps hlooks (fun _ => hedit) fun htoggle => absurd htoggle hreads.2).idle
  · unfold handle
    cases hk : c.keyword <;> rw [hk] at hreads
    case create => exact c.pathArg_keeps.bind_idle fun path => (hchange (.ensurePath path)).idle
    case delete =>
      exact c.pathArg_keeps.bind_idle fun path => (hchange (.deleteNode path false)).idle
    case rmr => exact c.pathArg_keeps.bind_idle fun path => (hchange (.deleteNode path true)).idle
    case set =>
      refine c.pathArg_keeps.bind_idle fun path => Spares.idle ?_
      -- Whether the node is there is asked first; that request changes nothing either way.
      refine Spares.bind (hlook (.pathExists path) rfl) fun (isThere : Bool) => ?_
      cases isThere with
      | false => exact hchange (.createNode path _)
      | true => exact hchange (.setPayload path _)
    case edit =>
      have hread : ∀ path, Keeps P (payloadOf client path) := fun path =>
        payloadOf_keeps (hlook (.readPayload path) rfl)
      refine c.pathArg_keeps.bind_idle fun path => (hread path).bind_idle fun payload => ?_
      refine (hedit path payload).bind_idle fun new => ?_
      split
      · exact (Act.keeps_pure _).idle
      · exact (hchange (.setPayload path new)).idle
    -- A change of the mode always tells of itself.
    case toggleWrite => exact fun _ _ hidle => False.elim hidle
    all_goals exact absurd ⟨rfl, Keyword.noConfusion⟩ hreads

end Command

/-! ### Requests to a tree that may be refused on their way -/

section Requests

variable {ι ε : Type} {clock : Clock} {refuse : Request → ι → Option NodeError × ι} {t : Tree}
  {s : Session}

/-- The tree and the session of a desk. -/
def Desk.Holds (t : Tree) (s : Session) (d : Desk (Tree × ι) ε) : Prop :=
  d.store.1 = t ∧ d.session = s

theorem interrupted_eq_of_error {q : Request} {e : NodeError} {store : Tree × ι}
    (h : store.1.Sound)
    (he : (((Tree.client clock).interrupted refuse).answer q store).1 = .error e) :
    (((Tree.client clock).interrupted refuse).answer q store).2.1 = store.1 := by
  simp only [Client.interrupted] at he ⊢
  -- A request that is refused on its way never reaches the tree.
  rcases hr : refuse q store.2 with ⟨_ | e', rest⟩
  · rw [hr] at he
    have hc : ∀ entries, Tree.Call.ask q ≠ .seed entries := fun _ heq => by cases heq
    exact Tree.Call.eq_of_run_error h hc he
  · rfl

theorem interrupted_eq_of_reads {q : Request} (hq : q.mutates = false) (store : Tree × ι) :
    (((Tree.client clock).interrupted refuse).answer q store).2.1 = store.1 := by
  simp only [Client.interrupted]
  rcases refuse q store.2 with ⟨_ | e', rest⟩
  · exact Tree.client_answer_snd_of_reads clock q store.1 hq
  · rfl

theorem request_keeps {q : Request} (hq : q.mutates = false) :
    Keeps (fun d : Desk (Tree × ι) ε => d.Holds t s)
      (Desk.request ((Tree.client clock).interrupted refuse) q) := by
  rintro d ⟨rfl, rfl⟩
  rw [Desk.run_request]
  exact ⟨interrupted_eq_of_reads hq d.store, rfl⟩

theorem request_spares (ht : t.Sound) (q : Request) :
    Spares (fun d : Desk (Tree × ι) ε => d.Holds t s)
      (Desk.request ((Tree.client clock).interrupted refuse) q) := by
  rintro d ⟨rfl, rfl⟩ e he
  rw [Desk.run_request] at he ⊢
  cases ha : (((Tree.client clock).interrupted refuse).answer q d.store).1 with
  | error e' => exact ⟨interrupted_eq_of_error ht ha, rfl⟩
  | ok a =>
    rw [ha] at he
    cases he

theorem openEditor_keeps (editor : Editor ε) (path : String) (payload : Bytes) :
    Keeps (fun d : Desk (Tree × ι) ε => d.Holds t s) (Desk.openEditor editor path payload) := by
  intro d hd
  rw [Desk.run_openEditor]
  exact hd

end Requests

/-! ### Lines -/

namespace Tree

variable {t : Tree} {ι κ ε τ : Type}

/-- A call of a reachable tree that fails has changed nothing in it, unless it was to write a whole
document. A line that fails, is declined, or says that nothing was changed has changed nothing in
it either, and of the session only the number of the next line, even if some of its requests were
refused before they reached the tree. -/
theorem Reachable.failures_change_nothing (h : Reachable t) (clock : Clock) :
    (∀ (c : Call) (e : NodeError), (∀ entries, c ≠ .seed entries) →
      (c.run clock t).1 = .error e → (c.run clock t).2 = t) ∧
    ∀ (refuse : Request → ι → Option NodeError × ι) (confirmer : Confirmer κ) (editor : Editor ε)
      (telemetry : Option (Telemetry τ)) (line : String) (w : World (Tree × ι) κ ε τ),
      w.desk.store.1 = t →
      let r : Runner (Tree × ι) κ ε τ :=
        ⟨(Tree.client clock).interrupted refuse, confirmer, editor, telemetry⟩
      Idle (r.run line w).1 →
        (r.run line w).2.desk.store.1 = t ∧
          (r.run line w).2.session = { w.session with index := w.session.index + 1 } := by
  refine ⟨fun c e hc he => c.eq_of_run_error h.sound hc he, ?_⟩
  rintro refuse confirmer editor telemetry line w rfl r hidle
  obtain ⟨result, d, asker, hcourse, hresult, -, hdesk⟩ := r.run_course line w
  rw [hresult] at hidle
  have hholds : d.Holds w.desk.store.1 w.session := by
    cases hcourse with
    | blank | malformed | refused | declined => exact ⟨rfl, rfl⟩
    | @done c _ _ _ _ =>
      have hhandle : Act.KeepsIdle
          (fun d : Desk (Tree × ι) ε => d.Holds w.desk.store.1 w.session)
          (c.handle r.client r.editor) :=
        c.handle_idle (fun q hq => request_keeps hq) (request_spares h.sound)
          (openEditor_keeps editor)
      exact hhandle w.desk ⟨rfl, rfl⟩ hidle
  rw [World.session, hdesk]
  refine ⟨hholds.1, ?_⟩
  rw [← hholds.2]
  rfl

/-- A node with children is not deleted, and a payload is not stored when the store is lost after it
was asked whether the node is there. -/
theorem failures_change_nothing_grove :
    let r : Runner (Tree × List Fault) Unit Unit Unit :=
      ⟨(Tree.client default).failing, .assumeDefault, ⟨fun _ payload e => (.ok payload, e)⟩, none⟩
    let w : World (Tree × List Fault) Unit Unit Unit :=
      ⟨⟨(grove, [⟨"set_payload", .connection "lost", 0⟩]), .start false, ()⟩, (), (), []⟩
    ((Call.ask (.deleteNode "/p" false)).run default grove).1 = .error (.notEmpty "/p") ∧
      ((Call.ask (.deleteNode "/p" false)).run default grove).2 = grove ∧
      (r.run "set /p2 'x'" w).1 = .error (.client (.connection "lost")) ∧
      (r.run "set /p2 'x'" w).2.desk.store.1 = grove ∧
      (r.run "set /p2 'x'" w).2.session = { w.session with index := 1 } := by
  intro r w
  have hcall : ((Call.ask (.deleteNode "/p" false)).run default grove).1 =
      .error (.notEmpty "/p") := rfl
  have hline : (r.run "set /p2 'x'" w).1 = .error (.client (.connection "lost")) := by
    decide +kernel
  have hidle : Idle (r.run "set /p2 'x'" w).1 := by
    rw [hline]
    trivial
  obtain ⟨hcalls, hlines⟩ :=
    @Reachable.failures_change_nothing grove (List Fault) Unit Unit Unit reachable_grove default
  refine ⟨hcall, hcalls _ _ (fun _ heq => by cases heq) hcall, hline, ?_⟩
  exact hlines _ _ _ _ _ w rfl hidle

end Tree
end TreeConsole
