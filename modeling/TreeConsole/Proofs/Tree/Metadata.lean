import TreeConsole.Proofs.Tree.Call
import TreeConsole.Proofs.Tree.History

/-!
# Metadata sums up the history

The numbers and counts that a tree keeps of each node are those that can be told from the history of
all calls, though the tree keeps no history. Deletion is why this is not obvious: with a node all
that was counted of it goes, the counts below it go too without being put down, and of the nodes
that stay only the one above may count the deletion.

## Main definitions

* `Chronicle` — a history tells of a tree which nodes are there, and their numbers and counts
* `NodeStat.Shows` — metadata shows certain numbers and counts

## Main results

* `Chronicle.apply` — a change and its entry keep a tree and a history together
* `stat_of_history` — what is shown of a node after any calls is told by their history
-/

namespace TreeConsole

/-- The numbers and counts of a node. -/
def Node.metadata (n : Node) : Tree.Metadata where
  created := n.created
  modified := n.modified
  version := n.version
  childrenModified := n.childrenModified
  childrenVersion := n.childrenVersion

/-- The metadata of a node shows certain numbers and counts. -/
structure NodeStat.Shows (s : NodeStat) (m : Tree.Metadata) : Prop where
  czxid : s.czxid.toInt = m.created
  mzxid : s.mzxid.toInt = m.modified
  pzxid : s.pzxid.toInt = m.childrenModified
  version : s.version.toInt = m.version
  cversion : s.cversion.toInt = m.childrenVersion

namespace Tree

variable {t t' : Tree} {p q : NodePath} {n : Node} {name : String} {clock : Clock} {payload : Bytes}
  {es es' : List Entry}

/-- A history tells of a tree how many changes it has been through, which nodes are there, and their
numbers and counts. -/
structure Chronicle (t : Tree) (es : List Entry) : Prop where
  last : t.lastChange = es.length
  root : birth es .root = 0
  lives : ∀ p, t.has p = true ↔ Lives es p
  told : ∀ {p n}, t.find? p = some n → n.metadata = .ofHistory es p

namespace Chronicle

theorem empty (clock : Clock) : Chronicle (Tree.empty clock) [] where
  last := rfl
  root := rfl
  lives := by
    intro p
    rw [has_iff_mem_keys]
    exact List.mem_singleton.trans ⟨fun hp => ⟨Or.inl hp, rfl⟩, fun h => h.1.resolve_right (· rfl)⟩
  told := by
    intro p n h
    have hp : p = .root := List.mem_singleton.mp (has_iff_mem_keys.mp (has_iff.mpr ⟨n, h⟩))
    subst hp
    cases h
    rfl

/-! ### One lemma per change -/

section Changes

variable {legal : IsSegment name}

theorem birth_root (h : Chronicle t es) (c : Change) : birth (es ++ [c.entry]) .root = 0 := by
  have hne : c.entry ≠ .created .root := by
    cases c with
    | create parent name legal =>
      intro heq
      exact NodePath.child_ne_root legal (Entry.created.inj heq)
    | replace | delete =>
      intro heq
      cases heq
  rw [birth_concat, if_neg hne, h.root]

theorem create (h : Chronicle t es) :
    Chronicle ((Change.create p name legal payload).apply clock t)
      (es ++ [.created (p.child name legal)]) where
  last := by rw [List.length_append, ← h.last]; rfl
  root := h.birth_root (.create p name legal payload)
  lives := by
    intro q
    rw [has_create, lives_concat, h.lives]
    simp [Entry.removes, eq_comm]
  told := by
    intro q m hm
    rw [find?_create] at hm
    rw [Metadata.ofHistory_concat, ← h.last]
    split_ifs at hm with hnew hp
    · cases hm
      rw [if_pos (congrArg Entry.created hnew.symm)]
      rfl
    · obtain ⟨m₀, hm₀, rfl⟩ := Option.map_eq_some_iff.mp hm
      have hne : Entry.created (p.child name legal) ≠ .created q :=
        fun heq => hnew (Entry.created.inj heq).symm
      have htouches : (Entry.created (p.child name legal)).touches q = true := by simp [hp]
      rw [if_neg hne, ← h.told hm₀, Metadata.next_of_touches htouches]
      rfl
    · have hne : Entry.created (p.child name legal) ≠ .created q :=
        fun heq => hnew (Entry.created.inj heq).symm
      have hother : (Entry.created (p.child name legal)).touches q = false := by simp [Ne.symm hp]
      rw [if_neg hne, ← h.told hm, Metadata.next_of_other Entry.noConfusion hother]

theorem replace (h : Chronicle t es) :
    Chronicle ((Change.replace p payload).apply clock t) (es ++ [.replaced p]) where
  last := by rw [List.length_append, ← h.last]; rfl
  root := h.birth_root (.replace p payload)
  lives := by
    intro q
    rw [has_replace, lives_concat, h.lives]
    simp [Entry.removes]
  told := by
    intro q m hm
    rw [find?_replace] at hm
    rw [Metadata.ofHistory_concat, if_neg Entry.noConfusion, ← h.last]
    split_ifs at hm with hp
    · obtain ⟨m₀, hm₀, rfl⟩ := Option.map_eq_some_iff.mp hm
      rw [← h.told hm₀, hp, Metadata.next_replaced]
      rfl
    · have hother : Entry.replaced p ≠ .replaced q := fun heq => hp (Entry.replaced.inj heq).symm
      rw [← h.told hm, Metadata.next_of_other hother rfl]

theorem delete (h : Chronicle t es) : Chronicle ((Change.delete p name legal).apply clock t)
    (es ++ [.deleted (p.child name legal)]) where
  last := by rw [List.length_append, ← h.last]; rfl
  root := h.birth_root (.delete p name legal)
  lives := by
    intro q
    rw [has_delete, lives_concat, h.lives]
    simp [Entry.removes]
  told := by
    intro q m hm
    rw [find?_delete] at hm
    rw [Metadata.ofHistory_concat, if_neg Entry.noConfusion, ← h.last]
    split_ifs at hm with hgone hp
    · obtain ⟨m₀, hm₀, rfl⟩ := Option.map_eq_some_iff.mp hm
      have htouches : (Entry.deleted (p.child name legal)).touches q = true := by simp [hp]
      rw [← h.told hm₀, Metadata.next_of_touches htouches]
      rfl
    · have hother : (Entry.deleted (p.child name legal)).touches q = false := by simp [Ne.symm hp]
      rw [← h.told hm, Metadata.next_of_other Entry.noConfusion hother]

end Changes

/-- A change and its entry keep a tree and a history together. -/
theorem apply (h : Chronicle t es) (c : Change) :
    Chronicle (c.apply clock t) (es ++ [c.entry]) := by
  cases c with
  | create => exact h.create
  | replace => exact h.replace
  | delete => exact h.delete

theorem tells (h : Chronicle t es) (htells : Tells clock es' t t') : Chronicle t' (es ++ es') := by
  obtain ⟨cs, hcs, rfl⟩ := htells
  induction hcs generalizing es with
  | none =>
    rw [List.map_nil, List.append_nil]
    exact h
  | @next c cs _ _ _ _ ih =>
    rw [List.map_cons, List.append_cons]
    exact ih (h.apply c)

/-- Calls and what is put down of them keep a tree and a history together. -/
theorem after (h : Chronicle t es) (hs : t.Sound) (calls : List (Clock × Call)) :
    Chronicle (t.after calls) (es ++ history calls t) := by
  induction calls generalizing t es with
  | nil =>
    rw [history, List.append_nil]
    exact h
  | cons c calls ih =>
    have htells := c.2.run_tells hs c.1
    rw [history, ← List.append_assoc]
    exact ih (h.tells htells) (hs.tells htells)

end Chronicle

/-! ### What is shown of a node -/

/-- As long as there are fewer than `2 ^ 31` entries, no number of a node is too great to be
shown. -/
theorem Chronicle.stat_shows (h : Chronicle t es) (hes : es.length < 2 ^ 31)
    (hn : t.find? p = some n) : n.stat.Shows (.ofHistory es p) := by
  have hcreated : n.metadata.created < 2 ^ 31 := by
    rw [h.told hn]
    exact (birth_le es p).trans_lt hes
  have hmodified : n.metadata.modified < 2 ^ 31 := by
    rw [h.told hn]
    exact (Metadata.modified_le es p).trans_lt hes
  have hchildrenModified : n.metadata.childrenModified < 2 ^ 31 := by
    rw [h.told hn]
    exact (Metadata.childrenModified_le es p).trans_lt hes
  have hversion : n.metadata.version < 2 ^ 31 := by
    rw [h.told hn]
    exact (length_numbersAfter_le _ _ _).trans_lt hes
  have hchildrenVersion : n.metadata.childrenVersion < 2 ^ 31 := by
    rw [h.told hn]
    exact (length_numbersAfter_le _ _ _).trans_lt hes
  rw [← h.told hn]
  exact
    { czxid := Int64.toInt_ofNat_of_lt (hcreated.trans (by decide))
      mzxid := Int64.toInt_ofNat_of_lt (hmodified.trans (by decide))
      pzxid := Int64.toInt_ofNat_of_lt (hchildrenModified.trans (by decide))
      version := Int32.toInt_ofNat_of_lt hversion
      cversion := Int32.toInt_ofNat_of_lt hchildrenVersion }

theorem history_append (calls calls' : List (Clock × Call)) (t : Tree) :
    history (calls ++ calls') t = history calls t ++ history calls' (t.after calls) := by
  induction calls generalizing t with
  | nil => rfl
  | cons c calls ih =>
    rw [List.cons_append, history, history, ih, List.append_assoc]
    rfl

theorem statOf_eq_ok_iff {s : NodeStat} :
    t.statOf p = .ok s ↔ ∃ n, t.find? p = some n ∧ n.stat = s := by
  unfold statOf
  cases t.find? p <;> simp

/-- What is shown of the nodes of a tree sums up a history. -/
structure SumsUp (t : Tree) (es : List Entry) : Prop where
  /-- The number of the last change is the number of entries. -/
  last : t.lastChange = es.length
  /-- The nodes are those that came, and the root, as far as they have not gone since. -/
  lives : ∀ p, t.has p = true ↔ Lives es p
  /-- Nothing is put down of the root as it is there from the start. -/
  root : birth es .root = 0
  /-- Each node shows the numbers and counts that the history gives of it. -/
  shown : ∀ {p s}, t.statOf p = .ok s → s.Shows (.ofHistory es p)
  /-- A node is created before its payload is replaced and its children change, and no change of it
  comes after the last. -/
  ordered : ∀ {p s}, t.statOf p = .ok s →
    s.czxid ≤ s.mzxid ∧ s.mzxid.toInt ≤ t.lastChange ∧
      s.czxid ≤ s.pzxid ∧ s.pzxid.toInt ≤ t.lastChange
  /-- No two nodes show one change for their creation. -/
  distinct : ∀ {p q s s'}, t.statOf p = .ok s → t.statOf q = .ok s' → s.czxid = s'.czxid → p = q

theorem Chronicle.sumsUp (h : Chronicle t es) (hes : es.length < 2 ^ 31) : SumsUp t es := by
  have hshown : ∀ {p s}, t.statOf p = .ok s → s.Shows (.ofHistory es p) := by
    intro p s hs
    obtain ⟨n, hn, rfl⟩ := statOf_eq_ok_iff.mp hs
    exact h.stat_shows hes hn
  have hlives : ∀ {p s}, t.statOf p = .ok s → Lives es p := by
    intro p s hs
    obtain ⟨n, hn, -⟩ := statOf_eq_ok_iff.mp hs
    exact (h.lives p).mp (has_iff.mpr ⟨n, hn⟩)
  refine ⟨h.last, h.lives, h.root, hshown, ?ordered, ?distinct⟩
  case ordered =>
    intro p s hs
    obtain ⟨hczxid, hmzxid, hpzxid, -, -⟩ := hshown hs
    simp only [Int64.le_iff_toInt_le, hczxid, hmzxid, hpzxid, h.last, Int.ofNat_le]
    exact ⟨Metadata.created_le_modified es p, Metadata.modified_le es p,
      Metadata.created_le_childrenModified es p, Metadata.childrenModified_le es p⟩
  case distinct =>
    intro p q s s' hs hs' heq
    have hczxid := congrArg Int64.toInt heq
    rw [(hshown hs).czxid, (hshown hs').czxid, Int.ofNat_inj] at hczxid
    exact (hlives hs).eq_of_birth_eq (hlives hs') hczxid

/-- After any calls, what is shown of the nodes sums up the history of the calls, provided that
fewer than `2 ^ 31` entries were put down. A further call puts down nothing if it only reads or if it
fails. A document that fails puts down what the entries before the failing one put down. -/
theorem stat_of_history (clock : Clock) (calls : List (Clock × Call))
    (h : (history calls (empty clock)).length < 2 ^ 31) :
    let t := (empty clock).after calls
    let es := history calls (empty clock)
    t.SumsUp es ∧ ∀ clock' : Clock,
      (∀ c : Call, (∃ e, (c.run clock' t).1 = .error e) ∧ (∀ document, c ≠ .seed document) ∨
          (∃ q, c = .ask q ∧ q.mutates = false) →
        history (calls ++ [(clock', c)]) (empty clock) = es) ∧
      ∀ document e, (t.seed clock' document).1 = .error e →
        ∃ written rest, document = written ++ rest ∧ rest ≠ [] ∧
          (t.seed clock' written).1 = .ok () ∧
          history (calls ++ [(clock', .seed document)]) (empty clock) =
            history (calls ++ [(clock', .seed written)]) (empty clock) := by
  intro t es
  have hsound : t.Sound := ((Reachable.start clock).after calls).sound
  have hchronicle : Chronicle t es := (Chronicle.empty clock).after (Sound.empty clock) calls
  have hcall : ∀ clock' c,
      history (calls ++ [(clock', c)]) (empty clock) = es ++ c.log clock' t := by
    intro clock' c
    rw [history_append, history, history, List.append_nil]
  refine ⟨hchronicle.sumsUp h, fun clock' => ⟨fun c hc => ?_, fun document e he => ?_⟩⟩
  · have hlog : c.log clock' t = [] := by
      rcases hc with ⟨⟨e, he⟩, hdocument⟩ | ⟨q, rfl, hq⟩
      · exact Call.log_of_error hdocument he
      · exact log_ask_of_reads hq
    rw [hcall, hlog, List.append_nil]
  · obtain ⟨written, rest, hdocument, hrest, hwritten, hlog⟩ := seedLog_of_error hsound he
    refine ⟨written, rest, hdocument, hrest, hwritten, ?_⟩
    rw [hcall, hcall, Call.log, Call.log, hlog]

/-- A node that was deleted and created again starts anew, while the one above it goes on counting.
Creating it once more fails and puts down nothing. -/
theorem stat_of_history_recreated :
    let calls := List.map (Prod.mk default)
      [.ask (.ensurePath "/a/b/c"), .ask (.setPayload "/a/b" [1]), .ask (.deleteNode "/a/b" true),
        .ask (.createNode "/a/b" [2]), .write "/a/b" [3]]
    let t := (empty default).after calls
    let a := NodePath.root.child "a" (by decide)
    let b := a.child "b" (by decide)
    let c := b.child "c" (by decide)
    let es := [Entry.created a, .created b, .created c, .replaced b, .deleted b, .created b,
      .replaced b]
    history calls (empty default) = es ∧ es.length < 2 ^ 31 ∧ t.SumsUp es ∧
      Metadata.ofHistory es a = ⟨1, 1, 0, 6, 3⟩ ∧ Metadata.ofHistory es b = ⟨6, 7, 1, 6, 0⟩ ∧
      ¬ Lives es c ∧
      history (calls ++ [(default, .ask (.createNode "/a/b" []))]) (empty default) = es := by
  intro calls t a b c es
  have hes : history calls (empty default) = es := by decide +kernel
  have hlength : es.length < 2 ^ 31 := by decide
  have hfails :
      ((Call.ask (.createNode "/a/b" [])).run default t).1 = .error (.nodeExists "/a/b") := rfl
  obtain ⟨hsums, hnothing⟩ := stat_of_history default calls (hes ▸ hlength)
  have hagain := (hnothing default).1 (.ask (.createNode "/a/b" []))
    (Or.inl ⟨⟨_, hfails⟩, fun _ heq => by cases heq⟩)
  rw [hes] at hsums hagain
  have hgone : ¬ Lives es c := by
    rw [← hsums.lives]
    decide +kernel
  exact ⟨hes, hlength, hsums, by decide +kernel, by decide +kernel, hgone, hagain⟩

end Tree
end TreeConsole
