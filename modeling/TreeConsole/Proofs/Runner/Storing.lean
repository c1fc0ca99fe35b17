import TreeConsole.Proofs.Command.Spelling
import TreeConsole.Proofs.Runner.Course
import TreeConsole.Proofs.Text.Encoding
import TreeConsole.Proofs.Tree.Refinement

/-!
# Storing a text and showing it again

What is typed between quotes is stored byte for byte at the node that is named and nowhere else, and
the node then shows it as it was typed. On its way the text is cut out of the line, read a second
time, stripped of its quotes, written to the tree by one of two requests, and read back from bytes;
nothing in it has a meaning to any of these, so it may look like a command, a path or a quoted text.

## Main results

* `Tree.write_stores` — a payload can be stored wherever the node above is there
* `Runner.run_set`, `Runner.run_get` — what the two commands do to a tree
* `Tree.Reachable.typed_is_shown` — what is typed is stored, and shown
-/

namespace TreeConsole

open Text (isBlank)

variable {σ κ ε τ : Type} {clock : Clock} {t : Tree} {p : NodePath} {path line : String}
  {payload : Bytes}

/-! ### Trees -/

namespace Tree

/-- Storing a payload changes the entry of one path. -/
def Stores (t : Tree) (p : NodePath) (payload : Bytes) (t' : Tree) : Prop :=
  ∀ q, t'.payload? q = if q = p then some payload else t.payload? q

/-- A payload can be stored wherever the node above is there. -/
theorem write_stores (clock : Clock) (payload : Bytes) (h : t.has p.above = true) :
    ∃ t', t.write clock p payload = (.ok (), t') ∧ t.Stores p payload t' := by
  unfold write
  by_cases hp : t.has p = true
  · rw [if_pos hp, setPayload_of_has hp]
    exact ⟨_, rfl, fun q => payload?_replace hp⟩
  · rw [if_neg hp]
    rcases p.eq_root_or_child with rfl | ⟨q, name, legal, rfl⟩
    · exact absurd h hp
    · rw [NodePath.above_child] at h
      have hfits : (Change.create q name legal payload).Fits t := ⟨h, Bool.not_eq_true _ ▸ hp⟩
      rw [create_of_fits hfits]
      exact ⟨_, rfl, fun q => payload?_create⟩

/-- The node above one that is there is there; the root counts as being above itself. -/
theorem Sound.has_above (h : t.Sound) (hp : t.has p = true) : t.has p.above = true := by
  rcases p.eq_root_or_child with rfl | ⟨q, name, legal, rfl⟩
  · exact hp
  · rw [NodePath.above_child]
    exact h.parent hp

end Tree

/-! ### Commands -/

namespace Command

theorem run_pathArg_bind {α : Type} {c : Command} (h : c.arg? 0 = some path)
    (f : String → Act (Desk σ ε) α) (d : Desk σ ε) : (c.pathArg >>= f).run d = (f path).run d := by
  refine Act.bind_of_ok ?_
  rw [pathArg, h]
  rfl

/-- To store a payload in a tree by requests is to write it there. -/
theorem run_store_tree (clock : Clock) (hp : NodePath.parse path = .ok p) (payload : Bytes)
    (d : Desk Tree ε) :
    (store (Tree.client clock) path payload).run d =
      ((d.store.write clock p payload).1.mapError ShellError.ofNodeError,
        { d with store := (d.store.write clock p payload).2 }) := by
  have hasked : (Desk.request (Tree.client clock) (.pathExists path)).run d =
      (.ok (d.store.has p), d) := by
    rw [Desk.run_request]
    simp only [Tree.client, Tree.answer, Tree.withPath, hp]
    rfl
  unfold store
  refine (Act.bind_of_ok hasked).trans ?_
  -- The answer says which of the two requests is made, and the tree would have chosen the same.
  unfold Tree.write
  cases d.store.has p with
  | true =>
    refine (Desk.run_request _ (.setPayload path payload) d).trans ?_
    simp only [Tree.client, Tree.answer, Tree.withPath, hp]
    rfl
  | false =>
    refine (Desk.run_request _ (.createNode path payload) d).trans ?_
    simp only [Tree.client, Tree.answer, Tree.withPath, hp]
    rfl

/-- The payload that is shown is the one that is there. -/
theorem run_payloadOf_tree (hp : NodePath.parse path = .ok p) {d : Desk Tree ε}
    (h : d.store.payload? p = some payload) :
    (payloadOf (Tree.client clock) path).run d = (.ok payload, d) := by
  have hread : (Desk.request (Tree.client clock) (.readPayload path)).run d =
      (.ok (some payload), d) := by
    rw [Desk.run_request]
    simp only [Tree.client, Tree.answer, Tree.withPath, hp, ← h]
    rfl
  exact Act.bind_of_ok hread

end Command

/-! ### Lines -/

namespace Runner

variable {r : Runner Tree κ ε τ} {w : World Tree κ ε τ} {c : Command}

/-- In a session that may write, `set` stores the text of its second argument. -/
theorem run_set {text : String} (hr : r.client = Tree.client clock)
    (hw : w.session.readOnly = false) (hline : Command.ofLine line = .ok c)
    (hc : c.keyword = .set) (hpath : c.arg? 0 = some path) (hp : NodePath.parse path = .ok p)
    (htext : ((c.arg? 1).map stripQuotes).getD "" = text)
    (h : w.desk.store.has p.above = true) :
    (r.run line w).1 = .ok Command.silent ∧
      w.desk.store.Stores p (Utf8.ofText text) (r.run line w).2.desk.store := by
  obtain ⟨t', hwrite, hstores⟩ := Tree.write_stores clock (Utf8.ofText text) h
  have hwritten := Command.run_store_tree clock hp (Utf8.ofText text) w.desk
  rw [hwrite] at hwritten
  have hhandle : (c.handle r.client r.editor).run w.desk =
      (.ok Command.silent, { w.desk with store := t' }) := by
    rw [hr, Command.handle, hc]
    refine (Command.run_pathArg_bind hpath _ w.desk).trans ?_
    rw [htext]
    exact Act.bind_of_ok hwritten
  have hunasked : c.question? = none := by
    rw [Command.question?, hc]
  obtain ⟨hresult, hstore⟩ := run_of_unasked (r := r) hline (fun _ => hw) hunasked
  rw [hresult, hstore, hhandle]
  exact ⟨rfl, hstores⟩

/-- `get` shows the payload that is there as a text. -/
theorem run_get (hr : r.client = Tree.client clock) (hline : Command.ofLine line = .ok c)
    (hc : c.keyword = .get) (hpath : c.arg? 0 = some path) (hp : NodePath.parse path = .ok p)
    (h : w.desk.store.payload? p = some payload) :
    (r.run line w).1 = .ok (.proceed (.payload (Utf8.toText payload))) := by
  have hhandle : (c.handle r.client r.editor).run w.desk =
      (.ok (.proceed (.payload (Utf8.toText payload))), w.desk) := by
    rw [hr, Command.handle, hc]
    exact (Command.run_pathArg_bind hpath _ w.desk).trans
      (Act.bind_of_ok (Command.run_payloadOf_tree hp h))
  have hunasked : c.question? = none := by
    rw [Command.question?, hc]
  have hreads : c.keyword.mutates = false := by
    rw [hc]
    rfl
  have allowed : c.keyword.mutates = true → w.session.readOnly = false := by
    rw [hreads]
    exact Bool.noConfusion
  rw [(run_of_unasked hline allowed hunasked).1, hhandle]

end Runner

/-! ### What is typed -/

theorem render_mem_path (ink : ∀ c ∈ p.render.toList, isBlank c = false) :
    p.render.toList ∈ Phrase.path := by
  rw [NodePath.toList_render] at ink ⊢
  exact ⟨p.body, rfl, fun c hc => ink c (List.mem_cons_of_mem _ hc)⟩

namespace Tree

/-- In a session that may write, a text that is typed between quotes is stored at the path that is
named, which has to be there or to have its parent there, and nowhere else; and then the path shows
that text. The text may be any that does not have in it the quote that it is typed between. Without
a text the empty payload is stored. -/
theorem Reachable.typed_is_shown (h : Reachable t) (clock : Clock) (confirmer : Confirmer κ)
    (editor : Editor ε) (telemetry : Option (Telemetry τ)) (w : World Tree κ ε τ)
    (hw : w.desk.store = t) (writable : w.session.readOnly = false) (p : NodePath)
    (ink : ∀ c ∈ p.render.toList, isBlank c = false)
    (there : t.has p = true ∨ ∃ q name legal, p = NodePath.child q name legal ∧ t.has q = true) :
    let r : Runner Tree κ ε τ := ⟨Tree.client clock, confirmer, editor, telemetry⟩
    (∀ quote ∈ ['\'', '"'], ∀ text : String, quote ∉ text.toList →
      let typed := r.run ("set " ++ p.render ++ " " ++ Text.enclosed quote text) w
      typed.1 = .ok (.proceed .empty) ∧ typed.2.desk.store.payload? p = some (Utf8.ofText text) ∧
        (∀ q, q ≠ p → typed.2.desk.store.payload? q = t.payload? q) ∧
        (r.run ("get " ++ p.render) typed.2).1 = .ok (.proceed (.payload text))) ∧
      let typed := r.run ("set " ++ p.render) w
      typed.1 = .ok (.proceed .empty) ∧ typed.2.desk.store.payload? p = some [] ∧
        ∀ q, q ≠ p → typed.2.desk.store.payload? q = t.payload? q := by
  intro r
  subst hw
  have hpath := render_mem_path ink
  have habove : w.desk.store.has p.above = true := by
    rcases there with hp | ⟨q, name, legal, rfl, hq⟩
    · exact h.sound.has_above hp
    · rwa [NodePath.above_child]
  constructor
  · intro quote hquote text hfree typed
    have hset := Command.ofLine_spelled (c := ⟨.set, [p.render, Text.enclosed quote text]⟩)
      (.given hpath (.given (enclosed_mem_quoted hquote hfree) .none))
    have hget := Command.ofLine_spelled (c := ⟨.get, [p.render]⟩) (.given hpath .none)
    obtain ⟨hresult, hstores⟩ := Runner.run_set (r := r) rfl writable hset rfl rfl p.parse_render
      (stripQuotes_enclosed hquote text) habove
    have hstored : typed.2.desk.store.payload? p = some (Utf8.ofText text) :=
      (hstores p).trans (if_pos rfl)
    have hshown := Runner.run_get (r := r) rfl hget rfl rfl p.parse_render hstored
    rw [Utf8.toText_ofText] at hshown
    exact ⟨hresult, hstored, fun q hq => (hstores q).trans (if_neg hq), hshown⟩
  · intro typed
    have hset := Command.ofLine_spelled (c := ⟨.set, [p.render]⟩)
      (.given hpath (.leftOut rfl .none))
    obtain ⟨hresult, hstores⟩ :=
      Runner.run_set (r := r) rfl writable hset rfl rfl p.parse_render rfl habove
    exact ⟨hresult, (hstores p).trans (if_pos rfl), fun q hq => (hstores q).trans (if_neg hq)⟩

/-- A text that looks like a command, with quotes of the other sort and a line break in it, is
stored as it was typed at a new node, whose name has a quote in it. -/
theorem typed_is_shown_grove :
    let r : Runner Tree Unit Unit Unit :=
      ⟨client default, .assumeDefault, ⟨fun _ payload e => (.ok payload, e)⟩, none⟩
    let w : World Tree Unit Unit Unit := ⟨⟨grove, .start false, ()⟩, (), (), []⟩
    let p := NodePath.root.child "p'" (by decide)
    let text := "rmr /p2 'x'\n"
    let typed := r.run ("set " ++ p.render ++ " " ++ Text.enclosed '"' text) w
    typed.2.desk.store.payload? p = some (Utf8.ofText text) ∧
      typed.2.desk.store.payload? (NodePath.root.child "p2" (by decide)) = some [2] ∧
      (r.run ("get " ++ p.render) typed.2).1 = .ok (.proceed (.payload text)) := by
  intro r w p text typed
  -- through `all`, since to decide a statement about characters may mean to try every one there is
  have hall : (p.render.toList.all fun c => !isBlank c) = true := by decide
  have ink : ∀ c ∈ p.render.toList, isBlank c = false := by
    simpa only [List.all_eq_true, Bool.not_eq_true'] using hall
  obtain ⟨hquoted, -⟩ := reachable_grove.typed_is_shown default .assumeDefault
    ⟨fun _ payload e => (.ok payload, e)⟩ none w rfl rfl p ink
    (.inr ⟨.root, "p'", by decide, rfl, rfl⟩)
  obtain ⟨-, hstored, hothers, hshown⟩ := hquoted '"' (by decide) text (by decide)
  have hother := hothers (NodePath.root.child "p2" (by decide)) (by decide)
  -- unfolding first: the kernel would otherwise run the typed line to compare the two worlds
  dsimp only [typed, r]
  exact ⟨hstored, hother, hshown⟩

end Tree
end TreeConsole
