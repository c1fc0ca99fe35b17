import TreeConsole.Proofs.Tree.Change

/-!
# What a history tells of a node

Whatever is done to a tree is put down entry by entry, and the entries are numbered from one. From
the entries alone it can be told whether a node is there, which entry it came with, how often its
payload was replaced since then and how often a child of it came or went, and which entry was the
last to do so. A node that was deleted and created again starts anew: what was put down of the
former node does not count.

Nothing here looks at a tree. How each of these changes with one more entry is what a tree has to
keep up with.

## Main definitions

* `numbersAfter` — the numbers of the entries of a sort
* `birth` — the number of the entry that a node came with
* `Lives` — a node came and has not been deleted since
* `Metadata.ofHistory` — the numbers and counts that a history gives of a node

## Main results

* `lives_concat` and `Metadata.ofHistory_concat` — what one more entry changes
* `Lives.eq_of_birth_eq` — no two nodes that are there came with one entry
-/

namespace TreeConsole.Tree

variable {p q : NodePath} {e : Entry} {es : List Entry} {sort : Entry → Bool} {start i : Nat}

namespace Entry

/-- Whether a child of a node came or went. -/
def touches (p : NodePath) : Entry → Bool
  | created q | deleted q => q.parent?.map Prod.fst = some p
  | replaced _ => false

/-- Whether a node went, alone or with one above it. -/
def removes (p : NodePath) : Entry → Bool
  | deleted q => q ≤ p
  | created _ | replaced _ => false

variable {name : String} {legal : IsSegment name}

@[simp] theorem touches_created : touches q (created (p.child name legal)) = decide (p = q) := by
  simp [touches, NodePath.parent?_child]

@[simp] theorem touches_deleted : touches q (deleted (p.child name legal)) = decide (p = q) := by
  simp [touches, NodePath.parent?_child]

@[simp] theorem touches_replaced : touches q (replaced p) = false := rfl

end Entry

/-! ### Numbers of entries -/

/-- The numbers of the entries of a sort, of those that come after a number. -/
def numbersAfter (start : Nat) (sort : Entry → Bool) (es : List Entry) : List Nat :=
  ((es.zipIdx 1).filter fun e => start < e.2 && sort e.1).map Prod.snd

theorem mem_numbersAfter :
    i ∈ numbersAfter start sort es ↔ start < i ∧ ∃ e, es[i - 1]? = some e ∧ sort e = true := by
  simp only [numbersAfter, List.mem_map, List.mem_filter, Prod.exists, exists_eq_right,
    List.mk_mem_zipIdx_iff_le_and_getElem?_sub, Bool.and_eq_true, decide_eq_true_eq]
  constructor
  · rintro ⟨e, ⟨-, he⟩, hstart, hsort⟩
    exact ⟨hstart, e, he, hsort⟩
  · rintro ⟨hstart, e, he, hsort⟩
    exact ⟨e, ⟨Nat.one_le_of_lt hstart, he⟩, hstart, hsort⟩

theorem le_length_of_mem_numbersAfter (h : i ∈ numbersAfter start sort es) : i ≤ es.length := by
  obtain ⟨-, e, he, -⟩ := mem_numbersAfter.mp h
  have hlt := (List.getElem?_eq_some_iff.mp he).1
  omega

/-- No entry comes after the last. -/
theorem numbersAfter_of_length_le (h : es.length ≤ start) : numbersAfter start sort es = [] := by
  rw [List.eq_nil_iff_forall_not_mem]
  intro i hi
  have hstart := (mem_numbersAfter.mp hi).1
  have hlast := le_length_of_mem_numbersAfter hi
  omega

/-- No entry comes after the one that has just been put down. -/
theorem numbersAfter_last (sort : Entry → Bool) (es : List Entry) (e : Entry) :
    numbersAfter (es.length + 1) sort (es ++ [e]) = [] :=
  numbersAfter_of_length_le List.length_append.le

/-- One more entry has the next number. -/
theorem numbersAfter_concat (h : start ≤ es.length) : numbersAfter start sort (es ++ [e]) =
    numbersAfter start sort es ++ if sort e then [es.length + 1] else [] := by
  have hstart : decide (start < 1 + es.length) = true := decide_eq_true (by omega)
  rw [numbersAfter, List.zipIdx_append, List.filter_append, List.map_append]
  congr 1
  simp only [List.zipIdx_singleton, List.filter_singleton, hstart, Bool.true_and]
  cases sort e <;> simp [Nat.add_comm]

theorem length_numbersAfter_concat (h : start ≤ es.length) :
    (numbersAfter start sort (es ++ [e])).length =
      if sort e then (numbersAfter start sort es).length + 1
      else (numbersAfter start sort es).length := by
  rw [numbersAfter_concat h]
  split <;> simp

theorem length_numbersAfter_le (start : Nat) (sort : Entry → Bool) (es : List Entry) :
    (numbersAfter start sort es).length ≤ es.length := by
  rw [numbersAfter, List.length_map]
  exact (List.length_filter_le _ _).trans_eq List.length_zipIdx

/-- The last of some numbers, or the number after which they come. -/
def lastAfter (start : Nat) (sort : Entry → Bool) (es : List Entry) : Nat :=
  (numbersAfter start sort es).getLastD start

theorem lastAfter_eq_or_mem (start : Nat) (sort : Entry → Bool) (es : List Entry) :
    lastAfter start sort es = start ∨ lastAfter start sort es ∈ numbersAfter start sort es :=
  List.mem_cons.mp List.getLastD_mem_cons

theorem le_lastAfter (start : Nat) (sort : Entry → Bool) (es : List Entry) :
    start ≤ lastAfter start sort es := by
  rcases lastAfter_eq_or_mem start sort es with h | h
  · exact h.ge
  · exact (mem_numbersAfter.mp h).1.le

theorem lastAfter_le (h : start ≤ es.length) : lastAfter start sort es ≤ es.length := by
  rcases lastAfter_eq_or_mem start sort es with heq | hmem
  · exact heq.trans_le h
  · exact le_length_of_mem_numbersAfter hmem

theorem lastAfter_concat (h : start ≤ es.length) : lastAfter start sort (es ++ [e]) =
    if sort e then es.length + 1 else lastAfter start sort es := by
  rw [lastAfter, numbersAfter_concat h]
  split
  · exact List.getLastD_concat
  · rw [List.append_nil, lastAfter]

/-! ### When a node came -/

/-- The number of the entry that a node came with, the last time it came. Nothing is put down of the
root, and its number is zero. -/
def birth (es : List Entry) (p : NodePath) : Nat := lastAfter 0 (fun e => e = .created p) es

theorem birth_le (es : List Entry) (p : NodePath) : birth es p ≤ es.length :=
  lastAfter_le (Nat.zero_le _)

theorem birth_concat :
    birth (es ++ [e]) p = if e = .created p then es.length + 1 else birth es p := by
  rw [birth, lastAfter_concat (Nat.zero_le _)]
  simp only [decide_eq_true_eq, birth]

/-- The entry that a node came with says that it was created. -/
theorem getElem?_birth (h : birth es p ≠ 0) : es[birth es p - 1]? = some (.created p) := by
  rcases lastAfter_eq_or_mem 0 (fun e => e = .created p) es with hzero | hmem
  · exact absurd hzero h
  · obtain ⟨-, e, he, hsort⟩ := mem_numbersAfter.mp hmem
    rw [birth, he, of_decide_eq_true hsort]

/-- By the history a node is there: it came, or is the root, and has not gone since. -/
def Lives (es : List Entry) (p : NodePath) : Prop :=
  (p = .root ∨ birth es p ≠ 0) ∧ numbersAfter (birth es p) (·.removes p) es = []

/-- No two nodes that are there came with one entry. -/
theorem Lives.eq_of_birth_eq (hp : Lives es p) (hq : Lives es q) (h : birth es p = birth es q) :
    p = q := by
  by_cases hzero : birth es p = 0
  · -- Nothing was put down of either, so both are the root.
    rw [hp.1.resolve_right (not_not.mpr hzero), hq.1.resolve_right (not_not.mpr (h ▸ hzero))]
  · have hentry := getElem?_birth (h ▸ hzero : birth es q ≠ 0)
    rw [← h, getElem?_birth hzero] at hentry
    exact Entry.created.inj (Option.some.inj hentry)

/-- With one more entry a node is there if it has just come, or was there and has not just gone. -/
theorem lives_concat :
    Lives (es ++ [e]) p ↔ e = .created p ∨ Lives es p ∧ e.removes p = false := by
  rw [Lives, birth_concat]
  by_cases he : e = .created p
  · simp [numbersAfter_last, he]
  · rw [if_neg he, numbersAfter_concat (birth_le es p)]
    cases e.removes p <;> simp [he, Lives]

/-! ### Numbers and counts -/

/-- The numbers and counts that a tree keeps of a node. -/
structure Metadata where
  created : Nat
  modified : Nat
  version : Nat
  childrenModified : Nat
  childrenVersion : Nat
  deriving DecidableEq, Repr

namespace Metadata

/-- The numbers and counts of a node that has just come. -/
def fresh (number : Nat) : Metadata := ⟨number, number, 0, number, 0⟩

/-- What a history gives of a node: the entry it came with, how often its payload was replaced since
then and how often a child of it came or went, and the last entry of either sort, or the one it came
with if there is none. -/
def ofHistory (es : List Entry) (p : NodePath) : Metadata where
  created := birth es p
  modified := lastAfter (birth es p) (fun e => e = .replaced p) es
  version := (numbersAfter (birth es p) (fun e => e = .replaced p) es).length
  childrenModified := lastAfter (birth es p) (·.touches p) es
  childrenVersion := (numbersAfter (birth es p) (·.touches p) es).length

/-- What one more entry makes of the numbers and counts of a node. -/
def next (m : Metadata) (p : NodePath) (number : Nat) (e : Entry) : Metadata where
  created := m.created
  modified := if e = .replaced p then number else m.modified
  version := if e = .replaced p then m.version + 1 else m.version
  childrenModified := if e.touches p then number else m.childrenModified
  childrenVersion := if e.touches p then m.childrenVersion + 1 else m.childrenVersion

variable {m : Metadata}

theorem next_replaced : m.next p i (.replaced p) =
    { m with modified := i, version := m.version + 1 } := by
  simp [next]

theorem next_of_touches (h : e.touches p = true) : m.next p i e =
    { m with childrenModified := i, childrenVersion := m.childrenVersion + 1 } := by
  have hne : e ≠ .replaced p := by
    rintro rfl
    cases h
  simp [next, hne, h]

/-- An entry that is not about a node or its children changes nothing for it. -/
theorem next_of_other (hne : e ≠ .replaced p) (h : e.touches p = false) : m.next p i e = m := by
  simp [next, hne, h]

/-- With one more entry a node starts anew, or its numbers and counts go on. -/
theorem ofHistory_concat : ofHistory (es ++ [e]) p =
    if e = .created p then fresh (es.length + 1)
    else (ofHistory es p).next p (es.length + 1) e := by
  rw [ofHistory, birth_concat]
  split
  · simp only [lastAfter, numbersAfter_last]
    rfl
  · simp only [lastAfter_concat (birth_le es p), length_numbersAfter_concat (birth_le es p),
      decide_eq_true_eq]
    rfl

/-! ### How the numbers lie -/

theorem created_le_modified (es : List Entry) (p : NodePath) :
    (ofHistory es p).created ≤ (ofHistory es p).modified :=
  le_lastAfter _ _ _

theorem created_le_childrenModified (es : List Entry) (p : NodePath) :
    (ofHistory es p).created ≤ (ofHistory es p).childrenModified :=
  le_lastAfter _ _ _

theorem modified_le (es : List Entry) (p : NodePath) : (ofHistory es p).modified ≤ es.length :=
  lastAfter_le (birth_le es p)

theorem childrenModified_le (es : List Entry) (p : NodePath) :
    (ofHistory es p).childrenModified ≤ es.length :=
  lastAfter_le (birth_le es p)

end Metadata
end TreeConsole.Tree
