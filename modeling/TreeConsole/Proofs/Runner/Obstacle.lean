import TreeConsole.Proofs.Runner.Gate
import TreeConsole.Proofs.Runner.PathTexts
import TreeConsole.Proofs.Runner.Readings
import TreeConsole.Proofs.Tree.Refusal

/-!
# Why lines on a tree fail

A tree can answer a request with any of its failures, but a command makes its requests in such an
order that few of them are left. It looks whether a node is there before it decides how to store a
payload, it creates on its way only what is missing, and what it asks about the children of a node
it asks about names that the node has given. So a command that has its argument fails for a reason
that its user can see: the text names no node, the node or the one above it is not there, it still
has children, or the editor failed.

## Main definitions

* `Command.Obstacle` — what can stand in the way of a command on a tree
* `Runner.Cause` — why a line can fail

## Main results

* `Command.obstacle_of_handle` — a command that fails was stopped by an obstacle
* `Runner.cause_of_run` — a line that fails has a cause
* `Runner.Cause.editorFails_or` — a failure is the editor's own, or one that can be recovered from
* `Runner.Cause.editor_failed` — only an editor that failed makes a failure unrecoverable
-/

namespace TreeConsole

variable {κ ε τ : Type} {clock : Clock} {editor : Editor ε} {c : Command} {d : Desk Tree ε}
  {text line : String} {p : NodePath} {e : ShellError}

namespace Command

/-- What can stand in the way of a command that was given its argument. -/
inductive Obstacle (editor : Editor ε) (c : Command) (d : Desk Tree ε) : ShellError → Prop
  /-- The text names no node. -/
  | unnamed {text : String} (arg : c.arg? 0 = some text) (none : NodePath.parse? text = none) :
    Obstacle editor c d (.client (.invalidPath text))
  /-- The root cannot be deleted. -/
  | root {text : String} (arg : c.arg? 0 = some text) (named : NodePath.parse text = .ok .root)
    (deletes : c.keyword ∈ [Keyword.delete, .rmr]) :
    Obstacle editor c d (.client (.invalidPath "/"))
  /-- Joined behind two slashes, the name of a child gives the text of no path. -/
  | doubled {text : String} {p : NodePath} {name : String} (legal : IsSegment name)
    (arg : c.arg? 0 = some text) (named : NodePath.parse text = .ok p) (lists : c.keyword = .ls)
    (doubled : NodePath.Doubled text) (there : d.store.has (p.child name legal) = true) :
    Obstacle editor c d (.client (.invalidPath (joinChild text name)))
  /-- The node is not there. It is reported by the text or by the canonical one. -/
  | missing {text shown : String} {p : NodePath} (arg : c.arg? 0 = some text)
    (named : NodePath.parse text = .ok p) (shows : NodePath.parse shown = .ok p)
    (needs : c.keyword ∈ [Keyword.ls, .get, .stat, .delete, .rmr, .edit])
    (absent : d.store.has p = false) : Obstacle editor c d (.nodeNotFound shown)
  /-- Neither is the node to be written nor the one above it. -/
  | orphan {text : String} {p : NodePath} {name : String} (legal : IsSegment name)
    (arg : c.arg? 0 = some text) (named : NodePath.parse text = .ok (p.child name legal))
    (writes : c.keyword = .set) (absent : d.store.has p = false) :
    Obstacle editor c d (.nodeNotFound p.render)
  /-- The node to be deleted has children. -/
  | inhabited {text : String} {p : NodePath} {n : Node} (arg : c.arg? 0 = some text)
    (named : NodePath.parse text = .ok p) (deletes : c.keyword = .delete)
    (there : d.store.find? p = some n) (children : n.children ≠ []) :
    Obstacle editor c d (.nodeNotEmpty p.render)
  /-- The editor did not give the payload back. It may say why in any words of the shell. -/
  | unedited {text : String} {p : NodePath} {payload : Bytes} {e : ShellError}
    (arg : c.arg? 0 = some text) (named : NodePath.parse text = .ok p) (edits : c.keyword = .edit)
    (there : d.store.payload? p = some payload)
    (failed : (editor.edit text payload d.editor).1 = .error e) : Obstacle editor c d e

/-! ### Requests -/

/-- A request fails when the tree refuses it, and then nothing has changed. -/
theorem refuses_of_request {q : Request} (hs : d.store.Sound)
    (h : ((Desk.request (Tree.client clock) q).run d).1 = .error e) :
    ∃ refusal, Tree.Refuses d.store q refusal ∧ e = .ofNodeError refusal := by
  rw [Desk.run_request] at h
  cases hanswer : ((Tree.client clock).answer q d.store).1 with
  | ok a =>
    rw [hanswer] at h
    cases h
  | error refusal =>
    rw [hanswer] at h
    cases h
    exact ⟨refusal, hs.refuses_of_answer hanswer, rfl⟩

theorem run_request_unnamed {q : Request} (hq : ∀ word, q ≠ .sendAdmin word)
    (h : NodePath.parse? q.target = none) (d : Desk Tree ε) :
    (Desk.request (Tree.client clock) q).run d =
      (.error (.client (.invalidPath q.target)), d) := by
  rw [Desk.run_request, Tree.client_answer_of_invalid clock q d.store hq h]
  rfl

/-- A request that only reads leaves the desk as it was to what comes after it. -/
theorem error_of_request_bind {α : Type} {q : Request} {f : q.Answer → Act (Desk Tree ε) α}
    (hq : q.mutates = false)
    (h : ((Desk.request (Tree.client clock) q >>= f).run d).1 = .error e) :
    ((Desk.request (Tree.client clock) q).run d).1 = .error e ∨
      ∃ x, ((Tree.client clock).answer q d.store).1 = .ok x ∧ ((f x).run d).1 = .error e := by
  have hdesk : ((Desk.request (Tree.client clock) q).run d).2 = d := by
    rw [Desk.run_request, Tree.client_answer_snd_of_reads clock q d.store hq]
  rcases Act.error_of_bind h with h | ⟨x, hx, h⟩
  · exact Or.inl h
  · rw [hdesk] at h
    refine Or.inr ⟨x, ?_, h⟩
    rw [Desk.run_request] at hx
    cases hanswer : ((Tree.client clock).answer q d.store).1 <;> rw [hanswer] at hx <;> cases hx
    rfl

theorem error_of_pathArg_bind {α : Type} {f : String → Act (Desk Tree ε) α}
    (harg : c.arg? 0 = some text) (h : ((c.pathArg >>= f).run d).1 = .error e) :
    ((f text).run d).1 = .error e := by
  rwa [run_pathArg_bind harg] at h

/-! ### One lemma per handler -/

section Handlers

variable (hs : d.store.Sound) (harg : c.arg? 0 = some text)

section Requests

include hs harg

/-- A node is created together with all that is missing above it, so that nothing is in the way. -/
theorem obstacle_of_make (h : ((c.make (Tree.client clock)).run d).1 = .error e) :
    Obstacle editor c d e := by
  rcases Act.error_of_bind (error_of_pathArg_bind harg h) with h | ⟨_, -, h⟩
  · obtain ⟨_, hrefuses, rfl⟩ := refuses_of_request hs h
    cases hrefuses with
    | unnamed _ none => exact .unnamed harg none
    | absent needs => cases needs
  · cases h

theorem obstacle_of_remove (recursive : Bool) (hk : c.keyword = if recursive then .rmr else .delete)
    (h : ((c.remove (Tree.client clock) recursive).run d).1 = .error e) :
    Obstacle editor c d e := by
  rcases Act.error_of_bind (error_of_pathArg_bind harg h) with h | ⟨_, -, h⟩
  · obtain ⟨_, hrefuses, rfl⟩ := refuses_of_request hs h
    cases hrefuses with
    | unnamed _ none => exact .unnamed harg none
    | deleteRoot _ named =>
      refine .root harg named ?_
      rw [hk]
      cases recursive <;> decide
    | @absent _ p _ named none =>
      refine .missing harg named p.parse_render ?_ none
      rw [hk]
      cases recursive <;> decide
    | inhabited named there children => exact .inhabited harg named hk there children
  · cases h

theorem obstacle_of_describe (hk : c.keyword = .stat)
    (h : ((c.describe (Tree.client clock)).run d).1 = .error e) : Obstacle editor c d e := by
  rcases Act.error_of_bind (error_of_pathArg_bind harg h) with h | ⟨_, -, h⟩
  · obtain ⟨_, hrefuses, rfl⟩ := refuses_of_request hs h
    cases hrefuses with
    | unnamed _ none => exact .unnamed harg none
    | @absent _ p _ named none =>
      exact .missing harg named p.parse_render (by rw [hk]; decide) none
  · cases h

/-- A payload is written where a node is, and otherwise a node is created with it; so the node can
neither be missing for the one nor be in the way of the other. -/
theorem obstacle_of_write (hk : c.keyword = .set)
    (h : ((c.write (Tree.client clock)).run d).1 = .error e) : Obstacle editor c d e := by
  rcases Act.error_of_bind (error_of_pathArg_bind harg h) with h | ⟨_, -, h⟩
  · cases hread : NodePath.parse? text with
    | none =>
      rw [show (store (Tree.client clock) text _).run d = _ from Act.bind_of_error
        (run_request_unnamed (q := .pathExists text) nofun hread d)] at h
      cases h
      exact .unnamed harg hread
    | some p =>
      have named := NodePath.parse_eq_ok_iff.mpr hread
      rw [run_store_tree clock named] at h
      -- The tree is asked first, and what it answers decides which request comes next.
      unfold Tree.write at h
      by_cases hp : d.store.has p = true
      · rw [if_pos hp, Tree.setPayload_of_has hp] at h
        cases h
      · rw [if_neg hp] at h
        cases hcreate : (d.store.create clock p
            (Utf8.ofText (((c.arg? 1).map stripQuotes).getD ""))).1 with
        | ok _ =>
          rw [hcreate] at h
          cases h
        | error refusal =>
          rw [hcreate] at h
          cases h
          obtain ⟨q, name, legal, rfl, none, rfl⟩ :=
            (Tree.refuses_of_create named hcreate).orphan_of_create hs.root named hp
          exact .orphan legal harg named hk none
  · cases h

end Requests

/-! ### Payloads -/

include harg

/-- The payload of a node that is there can be had, and that of no other. -/
theorem payloadOf_cases (hk : c.keyword = .get ∨ c.keyword = .edit) (clock : Clock)
    (editor : Editor ε) (d : Desk Tree ε) :
    (∃ p payload, NodePath.parse text = .ok p ∧ d.store.payload? p = some payload ∧
        (payloadOf (Tree.client clock) text).run d = (.ok payload, d)) ∨
      ∃ e, (payloadOf (Tree.client clock) text).run d = (.error e, d) ∧
        Obstacle editor c d e := by
  cases hread : NodePath.parse? text with
  | none =>
    have hrefused : (Desk.request (Tree.client clock) (.readPayload text)).run d = _ :=
      run_request_unnamed (q := .readPayload text) nofun hread d
    exact Or.inr ⟨_, Act.bind_of_error hrefused, .unnamed harg hread⟩
  | some p =>
    have named := NodePath.parse_eq_ok_iff.mpr hread
    cases hpayload : d.store.payload? p with
    | some payload =>
      exact Or.inl ⟨p, payload, named, hpayload, run_payloadOf_tree named hpayload⟩
    | none =>
      have habsent : d.store.has p = false := by
        rw [← Tree.isSome_payload?, hpayload]
        rfl
      have hneeds : c.keyword ∈ [Keyword.ls, .get, .stat, .delete, .rmr, .edit] := by
        rcases hk with hk | hk <;> rw [hk] <;> decide
      exact Or.inr ⟨_, run_payloadOf_of_none named hpayload,
        .missing harg named named hneeds habsent⟩

theorem obstacle_of_display (hk : c.keyword = .get)
    (h : ((c.display (Tree.client clock)).run d).1 = .error e) : Obstacle editor c d e := by
  replace h := error_of_pathArg_bind harg h
  rcases payloadOf_cases harg (.inl hk) clock editor d with
    ⟨p, payload, -, -, hrun⟩ | ⟨e', hrun, hobstacle⟩
  · rw [Act.bind_of_ok hrun] at h
    cases h
  · rw [Act.bind_of_error hrun] at h
    cases h
    exact hobstacle

include hs

theorem obstacle_of_edit (hk : c.keyword = .edit)
    (h : ((c.editPayload (Tree.client clock) editor).run d).1 = .error e) :
    Obstacle editor c d e := by
  replace h := error_of_pathArg_bind harg h
  rcases payloadOf_cases harg (.inr hk) clock editor d with
    ⟨p, payload, named, hpayload, hrun⟩ | ⟨e', hrun, hobstacle⟩
  · rw [Act.bind_of_ok hrun] at h
    have hopened : (Desk.openEditor editor text payload).run d = _ :=
      Desk.run_openEditor editor text payload d
    cases hedit : (editor.edit text payload d.editor).1 with
    | error reason =>
      rw [hedit] at hopened
      rw [Act.bind_of_error hopened] at h
      cases h
      exact .unedited harg named hk hpayload hedit
    | ok new =>
      rw [hedit] at hopened
      rw [Act.bind_of_ok hopened] at h
      split at h
      · cases h
      · -- The editor does not touch the tree, so that the node is still there.
        rcases Act.error_of_bind h with h | ⟨_, -, h⟩
        · have hthere : d.store.has p = true := by
            rw [← Tree.isSome_payload?, hpayload]
            rfl
          obtain ⟨_, hrefuses, -⟩ := refuses_of_request (q := .setPayload text new)
            (d := { d with editor := (editor.edit text payload d.editor).2 }) hs h
          exact absurd hrefuses (Tree.Refuses.not_setPayload named hthere)
        · cases h
  · rw [Act.bind_of_error hrun] at h
    cases h
    exact hobstacle

/-! ### Listings -/

/-- What is below a child can be asked unless the name of the child was joined behind two
slashes. -/
theorem obstacle_of_markParents (named : NodePath.parse text = .ok p) (hk : c.keyword = .ls)
    {names : List String} (there : ∀ name ∈ names, ∃ legal, d.store.has (p.child name legal) = true)
    (h : ((markParents (Tree.client clock) text names).run d).1 = .error e) :
    Obstacle editor c d e := by
  induction names with
  | nil => cases h
  | cons name names ih =>
    rcases error_of_request_bind (q := .listChildren (joinChild text name)) rfl h with
      h | ⟨_, -, h⟩
    · obtain ⟨legal, hthere⟩ := there name List.mem_cons_self
      obtain ⟨_, hrefuses, rfl⟩ := refuses_of_request hs h
      by_cases hdoubled : NodePath.Doubled text
      · have hread := NodePath.parse?_joinChild_of_doubled hdoubled legal
        cases hrefuses with
        | unnamed _ _ => exact .doubled legal harg named hk hdoubled hthere
        | absent _ named' _ =>
          rw [NodePath.parse_eq_ok_iff, Request.target, hread] at named'
          cases named'
      · -- Then the text that is joined is the canonical one of the child, which is there.
        have hread : NodePath.parse? (joinChild text name) = some (p.child name legal) := by
          rw [NodePath.joinChild_of_not_doubled (NodePath.parse_eq_ok_iff.mp named) hdoubled,
            NodePath.joinChild_render legal, NodePath.parse?_render]
        cases hrefuses with
        | unnamed _ none =>
          rw [Request.target, hread] at none
          cases none
        | absent _ named' none =>
          rw [NodePath.parse_eq_ok_iff, Request.target, hread] at named'
          cases named'
          rw [hthere] at none
          cases none
    · rcases Act.error_of_bind h with h | ⟨_, -, h⟩
      · exact ih (fun name' hname' => there name' (List.mem_cons_of_mem name hname')) h
      · cases h

theorem obstacle_of_list (hk : c.keyword = .ls)
    (h : ((c.list (Tree.client clock)).run d).1 = .error e) : Obstacle editor c d e := by
  rcases error_of_request_bind (q := .listChildren text) rfl (error_of_pathArg_bind harg h) with
    h | ⟨children, hchildren, h⟩
  · obtain ⟨_, hrefuses, rfl⟩ := refuses_of_request hs h
    cases hrefuses with
    | unnamed _ none => exact .unnamed harg none
    | @absent _ p _ named none =>
      exact .missing harg named p.parse_render (by rw [hk]; decide) none
  · cases hread : NodePath.parse? text with
    | none =>
      rw [Tree.client_answer_of_invalid clock (.listChildren text) _ nofun hread] at hchildren
      cases hchildren
    | some p =>
      have named := NodePath.parse_eq_ok_iff.mpr hread
      have hanswer : ((Tree.client clock).answer (.listChildren text) d.store).1 =
          d.store.childrenOf p := by
        simp only [Tree.client, Tree.answer, Tree.withPath, named]
        rfl
      have hthere : d.store.childrenOf p = .ok children := hanswer.symm.trans hchildren
      rcases Act.error_of_bind h with h | ⟨_, -, h⟩
      · refine obstacle_of_markParents hs harg named hk (fun name hname => ?_) h
        exact (hs.mem_of_childrenOf hthere name).mp (List.mem_mergeSort.mp hname)
      · cases h

end Handlers

/-! ### Commands and lines -/

/-- A command that was given its argument and fails was stopped by an obstacle. -/
theorem obstacle_of_handle (hs : d.store.Sound)
    (hargs : ∀ slot, c.keyword.slots[0]? = some slot → slot.optional = false →
      ∃ a, c.arg? 0 = some a)
    (h : ((c.handle (Tree.client clock) editor).run d).1 = .error e) : Obstacle editor c d e := by
  have hgiven : c.keyword.slots[0]? = some (.required .path) → ∃ text, c.arg? 0 = some text :=
    fun hslot => hargs _ hslot rfl
  unfold handle at h
  cases hk : c.keyword <;> simp only [hk] at h hgiven
  case close | exit | quit | help => cases h
  case toggleWrite => cases h
  case raw =>
    obtain ⟨word, hword⟩ := hargs (.required .adminWord) (by rw [hk]; rfl) rfl
    rw [sendWord, hword] at h
    cases h
  all_goals obtain ⟨text, harg⟩ := hgiven rfl
  case create => exact obstacle_of_make hs harg h
  case delete => exact obstacle_of_remove hs harg false hk h
  case rmr => exact obstacle_of_remove hs harg true hk h
  case stat => exact obstacle_of_describe hs harg hk h
  case set => exact obstacle_of_write hs harg hk h
  case get => exact obstacle_of_display harg hk h
  case edit => exact obstacle_of_edit hs harg hk h
  case ls => exact obstacle_of_list hs harg hk h

end Command

namespace Runner

variable {r : Runner Tree κ ε τ} {w : World Tree κ ε τ} {k : Keyword}

/-- Why a line fails. -/
inductive Cause (r : Runner Tree κ ε τ) (line : String) (w : World Tree κ ε τ) : ShellError → Prop
  /-- The line does not start with a command. -/
  | unknown {text : String} (check : validate line = .error (.unknownCommand text)) :
    Cause r line w (.unknownCommand text)
  /-- The arguments do not fit the command. -/
  | malformed {k : Keyword} {reason : String}
    (check : validate line = .error (.invalidArguments k reason)) :
    Cause r line w (.invalidArguments k reason)
  /-- The command writes and the session is read-only. -/
  | refused {k : Keyword} (check : validate line = .ok k)
    (writes : k ∈ [Keyword.create, .set, .delete, .rmr, .edit])
    (closed : w.session.readOnly = true) : Cause r line w (.unauthorizedWrite k)
  /-- Something was in the way of the command. -/
  | stopped {c : Command} {e : ShellError} (check : validate line = .ok c.keyword)
    (taken : Command.ofLine line = .ok c) (obstacle : c.Obstacle r.editor w.desk e) :
    Cause r line w e

/-- A line that fails on a sound tree has a cause. -/
theorem cause_of_run (hr : r.client = Tree.client clock) (hs : w.desk.store.Sound)
    (h : (r.run line w).1 = .error e) : r.Cause line w e := by
  obtain ⟨result, d, asker, hcourse, hresult, -, -⟩ := r.run_course line w
  rw [hresult] at h
  cases hcourse with
  | blank | declined => cases h
  | malformed _ hline =>
    cases h
    -- All that the check says against a line is one of two things.
    have hcheck := Command.validate_of_ofLine_error hline
    rcases leading_cases line with hunknown | ⟨k, tokens, hleading⟩
    · rw [validate, hunknown] at hcheck
      cases hcheck
      exact .unknown (by rw [validate, hunknown])
    · rw [validate_of_leading hleading] at hcheck
      split at hcheck
      · cases hcheck
      · next hfills =>
        cases hcheck
        exact .malformed (by rw [validate_of_leading hleading, if_neg hfills])
  | @refused c hline hc hw =>
    cases h
    exact .refused (Command.validate_of_ofLine hline) (Keyword.mutates_iff_mem.mp hc) hw
  | @done c _ hline =>
    rw [hr] at h
    have hargs := Command.exists_first_arg_of_ofLine hline
    exact .stopped (Command.validate_of_ofLine hline) hline (Command.obstacle_of_handle hs hargs h)

/-- The line is an `edit` of a node that is there, and on its payload the editor failed. -/
def EditorFails (r : Runner Tree κ ε τ) (line : String) (w : World Tree κ ε τ) (e : ShellError) :
    Prop :=
  ∃ text args p payload, Command.ofLine line = .ok ⟨.edit, text :: args⟩ ∧
    NodePath.parse text = .ok p ∧ w.desk.store.payload? p = some payload ∧
      (r.editor.edit text payload w.desk.editor).1 = .error e

namespace Cause

/-- A failure is the editor's own, or the shell can recover from it. Then a failure of the tree that
is passed on is about a text that cannot be used, and only a node that is to be deleted is reported
to have children. -/
theorem editorFails_or (h : r.Cause line w e) :
    r.EditorFails line w e ∨ e.isRecoverable = true ∧
      (∀ failure, e = .client failure → ∃ text, failure = .invalidPath text) ∧
        ∀ path, e = .nodeNotEmpty path → validate line = .ok .delete := by
  cases h with
  | unknown | malformed | refused => exact Or.inr ⟨rfl, nofun, nofun⟩
  | @stopped c _ check taken obstacle =>
    cases obstacle with
    | unnamed | root | doubled =>
      refine Or.inr ⟨rfl, fun failure heq => ?_, nofun⟩
      cases heq
      exact ⟨_, rfl⟩
    | missing | orphan => exact Or.inr ⟨rfl, nofun, nofun⟩
    | inhabited _ _ deletes => exact Or.inr ⟨rfl, nofun, fun _ _ => by rw [check, deletes]⟩
    | @unedited text p payload _ arg named edits there failed =>
      obtain ⟨keyword, args⟩ := c
      cases edits
      obtain ⟨rest, rfl⟩ : ∃ rest, args = text :: rest := by
        cases args with
        | nil => cases arg
        | cons first rest =>
          cases arg
          exact ⟨rest, rfl⟩
      exact Or.inl ⟨text, rest, p, payload, taken, named, there, failed⟩

/-- Only an editor that failed makes a failure unrecoverable. -/
theorem editor_failed (h : r.Cause line w e) (he : e.isRecoverable = false) :
    r.EditorFails line w e := by
  rcases h.editorFails_or with hfails | ⟨hrecoverable, -⟩
  · exact hfails
  · rw [hrecoverable] at he
    cases he

end Cause

end Runner
end TreeConsole
