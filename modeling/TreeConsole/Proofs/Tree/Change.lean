import TreeConsole.Proofs.Node.Order
import TreeConsole.Tree.Basic

/-!
# Changes of a tree

Whatever an operation does to a tree, it does by changes of three sorts: a node is created, its
payload is replaced, or it is deleted with everything below it. Each change takes one change number.
An operation that is refused makes no change; one that goes through makes one, and creating all
nodes on a way makes one for each node that was missing.

So what is to hold of all trees has to be checked for three changes only, and what an operation does
is said once, by the change that it makes.

## Main definitions

* `Change`, with `Change.Fits` for the trees it can be made to and `Change.apply` for what it does
* `Leads` — a list of changes, each of which fits, leads from one tree to another
* `Entry`, with `Change.entry` — what is put down of a change; `Tells` for a list of them
* `OnceAs` — an operation is refused or makes one change, of which an entry is put down

## Main results

* `has_create`, `has_replace`, `has_delete` — which nodes are there after a change
* `create_of_fits`, `setPayload_of_has`, `delete_of_fits` — the operations that go through
* `create_onceAs`, `setPayload_onceAs` and `write_onceAs` — operations act by changes
-/

namespace TreeConsole.Tree

variable {t t' t'' : Tree} {p q : NodePath} {n : Node} {name : String} {clock : Clock}
  {payload : Bytes}

/-! ### Keys -/

/-- The paths of a tree in the order of the table. -/
def keys (t : Tree) : List NodePath := t.nodes.map Prod.fst

theorem has_iff_mem_keys : t.has p = true ↔ p ∈ t.keys := by
  rw [has, find?, List.lookup_isSome_iff, keys, List.mem_map]
  constructor
  · intro hentry
    obtain ⟨e, he, heq⟩ := hentry
    exact ⟨e, he, (beq_iff_eq.mp heq).symm⟩
  · intro hentry
    obtain ⟨e, he, rfl⟩ := hentry
    exact ⟨e, he, beq_self_eq_true _⟩

theorem has_eq_false_iff : t.has p = false ↔ p ∉ t.keys := by
  rw [← has_iff_mem_keys, Bool.not_eq_true]

@[simp] theorem has_advance (t : Tree) (p : NodePath) : t.advance.has p = t.has p := rfl

@[simp] theorem keys_advance (t : Tree) : t.advance.keys = t.keys := rfl

@[simp] theorem keys_insert (t : Tree) (p : NodePath) (n : Node) :
    (t.insert p n).keys = p :: t.keys := rfl

@[simp] theorem keys_adjust (t : Tree) (p : NodePath) (f : Node → Node) :
    (t.adjust p f).keys = t.keys := by
  rw [keys, keys, adjust, List.map_map]
  refine List.map_congr_left fun e _ => ?_
  rw [Function.comp_apply]
  split <;> rfl

theorem keys_removeSubtree (t : Tree) (p : NodePath) :
    (t.removeSubtree p).keys = t.keys.filter fun q => !p.isAtOrAbove q := by
  rw [keys, keys, removeSubtree, List.filter_map]
  rfl

/-! ### Single changes -/

/-- One change of a tree. -/
inductive Change where
  | create (parent : NodePath) (name : String) (legal : IsSegment name) (payload : Bytes)
  | replace (path : NodePath) (payload : Bytes)
  /-- Everything below the node goes with it. -/
  | delete (parent : NodePath) (name : String) (legal : IsSegment name)

namespace Change

/-- Whether a change can be made to a tree. -/
def Fits (t : Tree) : Change → Prop
  | create parent name legal _ => t.has parent = true ∧ t.has (parent.child name legal) = false
  | replace path _ => t.has path = true
  | delete parent name legal => t.has parent = true ∧ t.has (parent.child name legal) = true

/-- The tree after a change. -/
def apply (clock : Clock) (t : Tree) : Change → Tree
  | create parent name legal payload =>
    let t := t.advance
    (t.adjust parent fun n => n.withChildren t.lastChange (Node.insertName name n.children)).insert
      (parent.child name legal) (.fresh clock t.lastChange payload)
  | replace path payload =>
    let t := t.advance
    t.adjust path fun n => n.withPayload clock t.lastChange payload
  | delete parent name legal =>
    let t := t.advance
    (t.removeSubtree (parent.child name legal)).adjust parent fun n =>
      n.withChildren t.lastChange (n.children.erase name)

end Change

section LookUps

variable {legal : IsSegment name}

theorem find?_create : ((Change.create p name legal payload).apply clock t).find? q =
    if q = p.child name legal then some (.fresh clock (t.lastChange + 1) payload)
    else if q = p then (t.find? q).map fun n =>
      n.withChildren (t.lastChange + 1) (Node.insertName name n.children)
    else t.find? q := by
  simp only [Change.apply, find?_insert, find?_adjust, find?_advance]
  rfl

theorem find?_replace : ((Change.replace p payload).apply clock t).find? q =
    if q = p then (t.find? q).map fun n => n.withPayload clock (t.lastChange + 1) payload
    else t.find? q := by
  simp only [Change.apply, find?_adjust, find?_advance]
  rfl

theorem find?_delete : ((Change.delete p name legal).apply clock t).find? q =
    if p.child name legal ≤ q then none
    else if q = p then (t.find? q).map fun n =>
      n.withChildren (t.lastChange + 1) (n.children.erase name)
    else t.find? q := by
  simp only [Change.apply, find?_adjust, find?_removeSubtree, find?_advance,
    NodePath.isAtOrAbove_iff]
  split_ifs <;> rfl

theorem has_create : ((Change.create p name legal payload).apply clock t).has q = true ↔
    q = p.child name legal ∨ t.has q = true := by
  rw [has, find?_create]
  split_ifs with h h' <;> simp [h, has]

theorem has_replace : ((Change.replace p payload).apply clock t).has q = true ↔
    t.has q = true := by
  rw [has, find?_replace]
  split_ifs <;> simp [has]

theorem has_delete : ((Change.delete p name legal).apply clock t).has q = true ↔
    t.has q = true ∧ ¬ p.child name legal ≤ q := by
  rw [has, find?_delete]
  split_ifs with h h' <;> simp [h, has]

end LookUps

/-! ### What is put down of a change -/

/-- What is put down of a change: the node it was about, and what became of it. -/
inductive Entry where
  | created (path : NodePath)
  | replaced (path : NodePath)
  | deleted (path : NodePath)
  deriving DecidableEq, Repr

/-- A deletion is put down once, whatever goes with the node. -/
def Change.entry : Change → Entry
  | create parent name legal _ => .created (parent.child name legal)
  | replace path _ => .replaced path
  | delete parent name legal => .deleted (parent.child name legal)

/-! ### Operations that are refused -/

theorem create_root : t.create clock .root payload = (.error (.invalidPath "/"), t) := rfl

theorem create_of_has {legal : IsSegment name} (h : t.has (p.child name legal) = true) :
    t.create clock (p.child name legal) payload =
      (.error (.nodeExists (p.child name legal).render), t) := by
  simp only [create, NodePath.parent?_child, h, if_true]

theorem create_of_orphan {legal : IsSegment name} (h : t.has (p.child name legal) = false)
    (hp : t.has p = false) :
    t.create clock (p.child name legal) payload = (.error (.noNode p.render), t) := by
  simp [create, NodePath.parent?_child, h, hp]

theorem setPayload_of_absent (h : t.has p = false) :
    t.setPayload clock p payload = (.error (.noNode p.render), t) := by
  have hnone : t.find? p = none := by simpa [has] using h
  simp only [setPayload, hnone]

theorem delete_root (recursive : Bool) :
    t.delete .root recursive = (.error (.invalidPath "/"), t) := rfl

theorem delete_of_absent {legal : IsSegment name} (h : t.has (p.child name legal) = false)
    (recursive : Bool) :
    t.delete (p.child name legal) recursive =
      (.error (.noNode (p.child name legal).render), t) := by
  have hnone : t.find? (p.child name legal) = none := by simpa [has] using h
  simp only [delete, NodePath.parent?_child, hnone]

theorem delete_of_children {legal : IsSegment name} (h : t.find? (p.child name legal) = some n)
    (hn : n.children ≠ []) :
    t.delete (p.child name legal) false = (.error (.notEmpty (p.child name legal).render), t) := by
  simp [delete, NodePath.parent?_child, h, hn]

/-! ### Operations that go through -/

theorem touch_of_has {f : List String → List String} (h : t.has p = true) :
    t.touch p f = (.ok (), t.adjust p fun n => n.withChildren t.lastChange (f n.children)) := by
  obtain ⟨n, hn⟩ := has_iff.mp h
  simp only [touch, hn]

theorem create_of_fits {legal : IsSegment name}
    (h : (Change.create p name legal payload).Fits t) :
    t.create clock (p.child name legal) payload =
      (.ok (), (Change.create p name legal payload).apply clock t) := by
  obtain ⟨hp, hc⟩ := h
  have htouch := touch_of_has (t := t.advance) (f := Node.insertName name) hp
  simp only [create, NodePath.parent?_child, hc, hp, htouch]
  rfl

theorem setPayload_of_has (h : t.has p = true) :
    t.setPayload clock p payload = (.ok (), (Change.replace p payload).apply clock t) := by
  obtain ⟨n, hn⟩ := has_iff.mp h
  simp only [setPayload, hn, Change.apply]

theorem delete_of_fits {legal : IsSegment name} {recursive : Bool} (clock : Clock)
    (h : (Change.delete p name legal).Fits t) (hn : t.find? (p.child name legal) = some n)
    (hr : n.children = [] ∨ recursive = true) :
    t.delete (p.child name legal) recursive =
      (.ok (), (Change.delete p name legal).apply clock t) := by
  have hgo : (!n.children.isEmpty && !recursive) = false := by
    rcases hr with hr | hr <;> simp [hr]
  -- The parent is not below the node that goes.
  have hparent : (t.advance.removeSubtree (p.child name legal)).has p = true := by
    have hbelow : (p.child name legal).isAtOrAbove p = false := by
      rw [← Bool.not_eq_true, NodePath.isAtOrAbove_iff]
      exact NodePath.not_child_le legal
    rw [has, find?_removeSubtree, hbelow]
    exact h.1
  simp only [delete, NodePath.parent?_child, hn, hgo, touch_of_has hparent]
  rfl

/-! ### Lists of changes -/

/-- The changes of a list, made one after the other, lead from one tree to another. -/
inductive Leads (clock : Clock) : Tree → List Change → Tree → Prop
  | none (t : Tree) : Leads clock t [] t
  | next {c : Change} {cs : List Change} {t t' : Tree} (fits : c.Fits t)
      (rest : Leads clock (c.apply clock t) cs t') : Leads clock t (c :: cs) t'

theorem Leads.single {c : Change} (h : c.Fits t) : Leads clock t [c] (c.apply clock t) :=
  .next h (.none _)

theorem Leads.append {cs cs' : List Change} (h : Leads clock t cs t')
    (h' : Leads clock t' cs' t'') : Leads clock t (cs ++ cs') t'' := by
  induction h with
  | none => exact h'
  | next fits _ ih => exact .next fits (ih h')

/-- A property that every change keeps is kept by a list of changes. -/
theorem Leads.keeps {P : Tree → Prop} {cs : List Change} (h : Leads clock t cs t')
    (hP : ∀ {t} {c : Change}, P t → c.Fits t → P (c.apply clock t)) (ht : P t) : P t' := by
  induction h with
  | none => exact ht
  | next fits _ ih => exact ih (hP ht fits)

/-- Changes that are put down as some entries lead from one tree to another. -/
def Tells (clock : Clock) (es : List Entry) (t t' : Tree) : Prop :=
  ∃ cs, Leads clock t cs t' ∧ cs.map Change.entry = es

theorem Tells.none (clock : Clock) (t : Tree) : Tells clock [] t t := ⟨[], .none t, rfl⟩

/-- Where nothing was put down, nothing has changed. -/
theorem Tells.eq_of_nil (h : Tells clock [] t t') : t' = t := by
  obtain ⟨cs, hcs, hnil⟩ := h
  cases List.map_eq_nil_iff.mp hnil
  cases hcs
  rfl

theorem Tells.append {es es' : List Entry} (h : Tells clock es t t') (h' : Tells clock es' t' t'') :
    Tells clock (es ++ es') t t'' := by
  obtain ⟨cs, hcs, rfl⟩ := h
  obtain ⟨cs', hcs', rfl⟩ := h'
  exact ⟨cs ++ cs', hcs.append hcs', List.map_append⟩

/-! ### Operations that make one change at most -/

/-- What an operation puts down: some entries if it went through, and otherwise nothing. -/
def entered {α : Type} (r : Result α) (es : List Entry) : List Entry :=
  match r.1 with
  | .ok _ => es
  | .error _ => []

@[simp] theorem entered_nil {α : Type} (r : Result α) : entered r [] = [] := by
  unfold entered
  split <;> rfl

theorem entered_of_error {α : Type} {r : Result α} {e : NodeError} (h : r.1 = .error e)
    (es : List Entry) : entered r es = [] := by
  rw [entered, h]

/-- An operation is refused and leaves the tree alone, or it goes through and makes one change, of
which the entry is put down. -/
def OnceAs (clock : Clock) (entry : Entry) (t : Tree) (r : Result Unit) : Prop :=
  (∃ e, r = (.error e, t)) ∨
    ∃ c : Change, c.Fits t ∧ c.entry = entry ∧ r = (.ok (), c.apply clock t)

namespace OnceAs

variable {entry : Entry} {r : Result Unit}

theorem tells (h : OnceAs clock entry t r) : Tells clock (entered r [entry]) t r.2 := by
  rcases h with ⟨e, rfl⟩ | ⟨c, hfits, rfl, rfl⟩
  · exact .none clock t
  · exact ⟨[c], .single hfits, rfl⟩

end OnceAs

theorem create_onceAs (clock : Clock) (p : NodePath) (payload : Bytes) (t : Tree) :
    OnceAs clock (.created p) t (t.create clock p payload) := by
  rcases p.eq_root_or_child with rfl | ⟨q, name, legal, rfl⟩
  · exact Or.inl ⟨_, create_root⟩
  · by_cases hc : t.has (q.child name legal) = true
    · exact Or.inl ⟨_, create_of_has hc⟩
    · rw [Bool.not_eq_true] at hc
      by_cases hq : t.has q = true
      · have hfits : (Change.create q name legal payload).Fits t := ⟨hq, hc⟩
        exact Or.inr ⟨_, hfits, rfl, create_of_fits hfits⟩
      · exact Or.inl ⟨_, create_of_orphan hc (Bool.not_eq_true _ ▸ hq)⟩

theorem setPayload_onceAs (clock : Clock) (p : NodePath) (payload : Bytes) (t : Tree) :
    OnceAs clock (.replaced p) t (t.setPayload clock p payload) := by
  by_cases h : t.has p = true
  · exact Or.inr ⟨.replace p payload, h, rfl, setPayload_of_has h⟩
  · exact Or.inl ⟨_, setPayload_of_absent (Bool.not_eq_true _ ▸ h)⟩

/-- What is put down when a payload is stored, whether or not the node is there. -/
def writing (t : Tree) (p : NodePath) : Entry := if t.has p then .replaced p else .created p

theorem write_onceAs (clock : Clock) (p : NodePath) (payload : Bytes) (t : Tree) :
    OnceAs clock (t.writing p) t (t.write clock p payload) := by
  unfold write writing
  split
  · exact setPayload_onceAs clock p payload t
  · exact create_onceAs clock p payload t

/-- A payload can be stored wherever the node above is there. -/
theorem write_ok (clock : Clock) (payload : Bytes) (h : t.has p.above = true) :
    ∃ t', t.write clock p payload = (.ok (), t') ∧ Tells clock [t.writing p] t t' := by
  unfold write writing
  by_cases hp : t.has p = true
  · rw [if_pos hp, if_pos hp, setPayload_of_has hp]
    exact ⟨_, rfl, [.replace p payload], .single hp, rfl⟩
  · rw [if_neg hp, if_neg hp]
    rcases p.eq_root_or_child with rfl | ⟨q, name, legal, rfl⟩
    · exact absurd h hp
    · rw [NodePath.above_child] at h
      have hfits : (Change.create q name legal payload).Fits t := ⟨h, Bool.not_eq_true _ ▸ hp⟩
      rw [create_of_fits hfits]
      exact ⟨_, rfl, [.create q name legal payload], .single hfits, rfl⟩

/-! ### Creating what is missing -/

/-- What is put down when the nodes on a way are created: those that are missing, the shallowest
first. -/
def missing (t : Tree) (p : NodePath) : List Entry :=
  (p.waypoints.filter fun q => !t.has q).map .created

end TreeConsole.Tree
