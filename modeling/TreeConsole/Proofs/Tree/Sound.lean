import Mathlib.Data.List.Nodup
import Mathlib.Data.String.Basic
import TreeConsole.Proofs.Tree.Change

/-!
# Sound trees

Every child is recorded twice, by an entry of its own and in the list of names that its parent
keeps. A tree is sound when the two records agree: no node without its parent, no name without its
node, no node that its parent does not name.

A sound tree stays sound whatever change is made to it. Deletion is the change where this is not
obvious: it takes away all entries below a node at once, and mends one list of names only. That
suffices because the other lists that named any of these nodes went with them.

## Main results

* `Sound.apply` — every change keeps a tree sound
* `Sound.ensure_of_has` — on the way to a node that is there nothing is missing
* `Sound.ensure_ok` — in a sound tree the nodes on a way can always be created
* `Sound.ensure_tells` — and those that were missing are put down
* `Sound.delete_onceAs` — in a sound tree a deletion leaves the tree alone or makes one change
-/

namespace TreeConsole

namespace Node

variable {name x : String} {names : List String}

/-- Names are kept in order, each of them once. -/
theorem pairwise_insertName (h : names.Pairwise (· < ·)) :
    (insertName name names).Pairwise (· < ·) := by
  induction names with
  | nil => exact List.pairwise_singleton _ _
  | cons n names ih =>
    obtain ⟨hfirst, hrest⟩ := List.pairwise_cons.mp h
    unfold insertName
    split
    · rename_i hlt
      refine List.pairwise_cons.mpr ⟨fun x hx => ?_, h⟩
      rcases List.mem_cons.mp hx with rfl | hx
      · exact hlt
      · exact lt_trans hlt (hfirst x hx)
    · split
      · exact h
      · rename_i hlt hne
        refine List.pairwise_cons.mpr ⟨fun x hx => ?_, ih hrest⟩
        rcases mem_insertName.mp hx with rfl | hx
        · exact lt_of_le_of_ne (not_lt.mp hlt) (Ne.symm hne)
        · exact hfirst x hx

end Node

namespace Tree

variable {t : Tree} {p q : NodePath} {n : Node} {name : String} {clock : Clock} {payload : Bytes}

theorem ensureEach_append {ps : List NodePath} {t' : Tree}
    (h : t.ensureEach clock ps = (.ok (), t')) (qs : List NodePath) :
    t.ensureEach clock (ps ++ qs) = t'.ensureEach clock qs := by
  induction ps generalizing t with
  | nil =>
    cases h
    rfl
  | cons p ps ih =>
    rw [ensureEach] at h
    rw [List.cons_append, ensureEach]
    split at h
    · rename_i hp
      rw [if_pos hp]
      exact ih h
    · rename_i hp
      rw [if_neg hp]
      split at h
      · cases h
      · exact ih h

theorem ensureEach_of_has {ps : List NodePath} (h : ∀ q ∈ ps, t.has q = true) :
    t.ensureEach clock ps = (.ok (), t) := by
  induction ps with
  | nil => rfl
  | cons q ps ih =>
    obtain ⟨hq, hps⟩ := List.forall_mem_cons.mp h
    rw [ensureEach, if_pos hq]
    exact ih hps

/-- A tree whose two records of every child agree. -/
structure Sound (t : Tree) : Prop where
  /-- No path has two entries. -/
  unique : t.keys.Nodup
  root : t.has .root = true
  /-- A node is there only if its parent is. -/
  parent : ∀ {p name} {legal : IsSegment name},
    t.has (p.child name legal) = true → t.has p = true
  /-- A node names exactly the children that are there. -/
  names : ∀ {p n}, t.find? p = some n →
    ∀ name, name ∈ n.children ↔ ∃ legal, t.has (p.child name legal) = true
  /-- The names are in order, each of them once. -/
  sorted : ∀ {p n}, t.find? p = some n → n.children.Pairwise (· < ·)

namespace Sound

theorem empty (clock : Clock) : (Tree.empty clock).Sound where
  unique := List.nodup_singleton _
  root := rfl
  parent := by
    intro p name legal h
    rw [has_iff_mem_keys] at h
    exact absurd (List.mem_singleton.mp h) (NodePath.child_ne_root legal)
  names := by
    intro p n h name
    have hp : p = .root := List.mem_singleton.mp (has_iff_mem_keys.mp (has_iff.mpr ⟨n, h⟩))
    subst hp
    cases h
    constructor
    · intro hname
      cases hname
    · intro hthere
      obtain ⟨legal, hchild⟩ := hthere
      rw [has_iff_mem_keys] at hchild
      exact absurd (List.mem_singleton.mp hchild) (NodePath.child_ne_root legal)
  sorted := by
    intro p n h
    have hp : p = .root := List.mem_singleton.mp (has_iff_mem_keys.mp (has_iff.mpr ⟨n, h⟩))
    subst hp
    cases h
    exact List.Pairwise.nil

/-- What lies above a node is there. -/
theorem above (h : t.Sound) (hle : p ≤ q) (hq : t.has q = true) : t.has p = true := by
  induction q using NodePath.induction with
  | atRoot =>
    rw [NodePath.le_root_iff.mp hle]
    exact hq
  | atChild q name legal ih =>
    rcases NodePath.le_child_iff.mp hle with rfl | hle
    · exact hq
    · exact ih hle (h.parent hq)

/-- What lies below a node that is not there is not there either. -/
theorem below (h : t.Sound) (hle : p ≤ q) (hp : t.has p = false) : t.has q = false := by
  rw [← Bool.not_eq_true] at hp ⊢
  exact fun hq => hp (h.above hle hq)

theorem nodup_children (h : t.Sound) (hn : t.find? p = some n) : n.children.Nodup :=
  (h.sorted hn).imp fun hlt => ne_of_lt hlt

/-! ### One lemma per change -/

section Changes

variable {legal : IsSegment name}

theorem create (h : t.Sound) (hfits : (Change.create p name legal payload).Fits t) :
    ((Change.create p name legal payload).apply clock t).Sound where
  unique := by
    have hnew : p.child name legal ∉ t.keys := has_eq_false_iff.mp hfits.2
    simpa [Change.apply] using ⟨hnew, h.unique⟩
  root := has_create.mpr (Or.inr h.root)
  parent := by
    intro q x legal' hchild
    rw [has_create] at hchild ⊢
    rcases hchild with heq | hchild
    · rw [(NodePath.child_inj.mp heq).1]
      exact Or.inr hfits.1
    · exact Or.inr (h.parent hchild)
  names := by
    intro q m hm x
    rw [find?_create] at hm
    simp only [has_create, NodePath.child_inj]
    split_ifs at hm with hnew hp
    · -- The new node has no children, and none of its children was there before it.
      cases hm
      subst hnew
      constructor
      · intro hx
        cases hx
      · intro hthere
        obtain ⟨legal', ⟨heq, -⟩ | hchild⟩ := hthere
        · exact absurd heq.le (NodePath.not_child_le legal)
        · rw [h.below (NodePath.le_child legal') hfits.2] at hchild
          cases hchild
    · subst hp
      obtain ⟨m₀, hm₀, rfl⟩ := Option.map_eq_some_iff.mp hm
      rw [Node.withChildren, Node.mem_insertName, h.names hm₀]
      constructor
      · intro hx
        rcases hx with rfl | ⟨legal', hchild⟩
        · exact ⟨legal, Or.inl ⟨rfl, rfl⟩⟩
        · exact ⟨legal', Or.inr hchild⟩
      · intro hx
        obtain ⟨legal', ⟨-, rfl⟩ | hchild⟩ := hx
        · exact Or.inl rfl
        · exact Or.inr ⟨legal', hchild⟩
    · -- No child of any other node has come.
      rw [h.names hm]
      refine exists_congr fun legal' => ⟨Or.inr, ?_⟩
      intro hthere
      rcases hthere with ⟨rfl, -⟩ | hchild
      · exact absurd rfl hp
      · exact hchild
  sorted := by
    intro q m hm
    rw [find?_create] at hm
    split_ifs at hm with hnew hp
    · cases hm
      exact List.Pairwise.nil
    · obtain ⟨m₀, hm₀, rfl⟩ := Option.map_eq_some_iff.mp hm
      exact Node.pairwise_insertName (h.sorted hm₀)
    · exact h.sorted hm

/-- The children of a node do not change with its payload. -/
theorem children_of_find?_replace {m : Node}
    (hm : ((Change.replace p payload).apply clock t).find? q = some m) :
    ∃ m₀, t.find? q = some m₀ ∧ m.children = m₀.children := by
  rw [find?_replace] at hm
  split_ifs at hm
  · obtain ⟨m₀, hm₀, rfl⟩ := Option.map_eq_some_iff.mp hm
    exact ⟨m₀, hm₀, rfl⟩
  · exact ⟨m, hm, rfl⟩

theorem replace (h : t.Sound) : ((Change.replace p payload).apply clock t).Sound where
  unique := by simpa [Change.apply] using h.unique
  root := has_replace.mpr h.root
  parent := by
    intro q x legal' hchild
    rw [has_replace] at hchild ⊢
    exact h.parent hchild
  names := by
    intro q m hm x
    obtain ⟨m₀, hm₀, hchildren⟩ := children_of_find?_replace hm
    simp only [has_replace, hchildren, h.names hm₀]
  sorted := by
    intro q m hm
    obtain ⟨m₀, hm₀, hchildren⟩ := children_of_find?_replace hm
    exact hchildren ▸ h.sorted hm₀

theorem delete (h : t.Sound) : ((Change.delete p name legal).apply clock t).Sound where
  unique := by
    simp only [Change.apply, keys_adjust, keys_removeSubtree, keys_advance]
    exact h.unique.filter _
  root := by
    refine has_delete.mpr ⟨h.root, fun hle => ?_⟩
    exact NodePath.child_ne_root legal (NodePath.le_root_iff.mp hle)
  parent := by
    intro q x legal' hchild
    rw [has_delete] at hchild ⊢
    exact ⟨h.parent hchild.1, fun hle => hchild.2 (hle.trans (NodePath.le_child legal'))⟩
  names := by
    intro q m hm x
    rw [find?_delete] at hm
    simp only [has_delete]
    split_ifs at hm with hgone hp
    · -- The parent loses the one name, and this child of it goes and no other.
      subst hp
      obtain ⟨m₀, hm₀, rfl⟩ := Option.map_eq_some_iff.mp hm
      rw [Node.withChildren, (h.nodup_children hm₀).mem_erase_iff, h.names hm₀]
      constructor
      · intro hkept
        obtain ⟨hne, legal', hchild⟩ := hkept
        exact ⟨legal', hchild, fun hle => hne (NodePath.child_le_child_iff.mp hle).symm⟩
      · intro hkept
        obtain ⟨legal', hchild, hnle⟩ := hkept
        exact ⟨fun heq => hnle (NodePath.child_le_child_iff.mpr heq.symm), legal', hchild⟩
    · -- A node that stays, and is not the parent, keeps all its children.
      rw [h.names hm]
      refine exists_congr fun legal' => ⟨fun hchild => ⟨hchild, fun hle => ?_⟩, And.left⟩
      rcases NodePath.le_child_iff.mp hle with heq | hle
      · exact hp (NodePath.child_inj.mp heq).1.symm
      · exact hgone hle
  sorted := by
    intro q m hm
    rw [find?_delete] at hm
    split_ifs at hm with hgone hp
    · obtain ⟨m₀, hm₀, rfl⟩ := Option.map_eq_some_iff.mp hm
      exact (h.sorted hm₀).sublist List.erase_sublist
    · exact h.sorted hm

end Changes

/-- Every change that fits keeps a tree sound. -/
theorem apply {c : Change} (h : t.Sound) (hfits : c.Fits t) : (c.apply clock t).Sound := by
  cases c with
  | create p name legal payload => exact h.create hfits
  | replace p payload => exact h.replace
  | delete p name legal => exact h.delete

theorem leads {t' : Tree} {cs : List Change} (h : t.Sound) (hleads : Leads clock t cs t') :
    t'.Sound :=
  hleads.keeps (fun hsound hfits => hsound.apply hfits) h

theorem tells {t' : Tree} {es : List Entry} (h : t.Sound) (htells : Tells clock es t t') :
    t'.Sound := by
  obtain ⟨cs, hcs, -⟩ := htells
  exact h.leads hcs

/-! ### Creating the nodes on a way -/

/-- On the way to a node that is there nothing is missing. -/
theorem ensure_of_has (h : t.Sound) (clock : Clock) (hp : t.has p = true) :
    t.ensure clock p = (.ok (), t) :=
  ensureEach_of_has fun _ hq => h.above (NodePath.mem_waypoints_iff.mp hq).1 hp

/-- What holds when the root is there, and is kept both by coming upon the next node and by creating
it, holds when all nodes on a way have been created; and they always can be. -/
theorem ensure_induction {P : NodePath → Tree → Prop} (h : t.Sound) (clock : Clock)
    (atRoot : P .root t)
    (found : ∀ {p name t'} {legal : IsSegment name}, P p t' →
      t'.has (p.child name legal) = true → P (p.child name legal) t')
    (missing : ∀ {p name t'} {legal : IsSegment name}, P p t' →
      (Change.create p name legal []).Fits t' →
      P (p.child name legal) ((Change.create p name legal []).apply clock t'))
    (p : NodePath) : ∃ t', t.ensure clock p = (.ok (), t') ∧ t'.has p = true ∧ P p t' := by
  induction p using NodePath.induction with
  | atRoot => exact ⟨t, rfl, h.root, atRoot⟩
  | atChild p name legal ih =>
    obtain ⟨t', hensure, hthere, hP⟩ := ih
    unfold ensure at hensure ⊢
    -- The nodes on the way to the parent have been created; one more is left to do.
    rw [NodePath.waypoints_child, ensureEach_append hensure, ensureEach]
    by_cases hchild : t'.has (p.child name legal) = true
    · rw [if_pos hchild]
      exact ⟨t', rfl, hchild, found hP hchild⟩
    · have hfits : (Change.create p name legal []).Fits t' := ⟨hthere, Bool.not_eq_true _ ▸ hchild⟩
      rw [if_neg hchild, create_of_fits hfits]
      exact ⟨_, rfl, has_create.mpr (Or.inl rfl), missing hP hfits⟩

/-- The nodes on a way can always be created, and then exactly they have joined those that were
there. -/
theorem ensure_ok (h : t.Sound) (clock : Clock) (p : NodePath) :
    ∃ t', t.ensure clock p = (.ok (), t') ∧ ∀ q, t'.has q = true ↔ t.has q = true ∨ q ≤ p := by
  suffices hensure : ∃ t', t.ensure clock p = (.ok (), t') ∧ t'.has p = true ∧
      ∀ q, t'.has q = true ↔ t.has q = true ∨ q ≤ p by
    obtain ⟨t', hok, -, hhas⟩ := hensure
    exact ⟨t', hok, hhas⟩
  refine h.ensure_induction (P := fun p t' => ∀ q, t'.has q = true ↔ t.has q = true ∨ q ≤ p)
    clock ?atRoot ?found ?missing p
  case atRoot =>
    intro q
    rw [NodePath.le_root_iff]
    exact ⟨Or.inl, fun hq => hq.elim id fun heq => heq ▸ h.root⟩
  case found =>
    intro p name t' legal hP hchild q
    rw [NodePath.le_child_iff, hP q]
    constructor
    · intro hreached
      rcases hreached with hq | hle
      · exact Or.inl hq
      · exact Or.inr (Or.inr hle)
    · intro hreached
      rcases hreached with hq | rfl | hle
      · exact Or.inl hq
      · exact (hP _).mp hchild
      · exact Or.inr hle
  case missing =>
    intro p name t' legal hP _ q
    rw [has_create, NodePath.le_child_iff, hP q]
    exact or_left_comm

/-- What has been created on the way to a node does not reach down to its children. -/
theorem has_child_of_ensure {t' : Tree} {legal : IsSegment name}
    (h : ∀ q, t'.has q = true ↔ t.has q = true ∨ q ≤ p) :
    t'.has (p.child name legal) = t.has (p.child name legal) := by
  rw [Bool.eq_iff_iff, h]
  exact or_iff_left (NodePath.not_child_le legal)

/-- Of the nodes on a way those are put down that were missing. -/
theorem ensure_tells (h : t.Sound) (clock : Clock) (p : NodePath) :
    Tells clock (t.missing p) t (t.ensure clock p).2 := by
  induction p using NodePath.induction with
  | atRoot => exact .none clock t
  | atChild p name legal ih =>
    obtain ⟨t', hensure, hhas⟩ := h.ensure_ok clock p
    rw [hensure] at ih
    unfold ensure at hensure ⊢
    rw [missing, NodePath.waypoints_child, ensureEach_append hensure, List.filter_append,
      List.map_append]
    refine ih.append ?_
    rw [ensureEach, List.filter_singleton, ← has_child_of_ensure hhas]
    by_cases hthere : t'.has (p.child name legal) = true
    · simp only [hthere, if_true]
      exact .none clock t'
    · have hfits : (Change.create p name legal []).Fits t' :=
        ⟨(hhas p).mpr (Or.inr le_rfl), Bool.not_eq_true _ ▸ hthere⟩
      simp only [hthere, create_of_fits hfits]
      exact ⟨[.create p name legal []], .single hfits, rfl⟩

/-! ### Deleting -/

theorem delete_onceAs (h : t.Sound) (clock : Clock) (p : NodePath) (recursive : Bool) :
    OnceAs clock (.deleted p) t (t.delete p recursive) := by
  rcases p.eq_root_or_child with rfl | ⟨q, name, legal, rfl⟩
  · exact Or.inl ⟨_, delete_root recursive⟩
  · cases hfind : t.find? (q.child name legal) with
    | none =>
      have habsent : t.has (q.child name legal) = false := by simp [has, hfind]
      exact Or.inl ⟨_, delete_of_absent habsent recursive⟩
    | some n =>
      have hchild : t.has (q.child name legal) = true := has_iff.mpr ⟨n, hfind⟩
      have hfits : (Change.delete q name legal).Fits t := ⟨h.parent hchild, hchild⟩
      by_cases hr : n.children = [] ∨ recursive = true
      · exact Or.inr ⟨_, hfits, rfl, delete_of_fits clock hfits hfind hr⟩
      · rw [not_or, Bool.not_eq_true] at hr
        rw [hr.2]
        exact Or.inl ⟨_, delete_of_children hfind hr.1⟩

end Sound
end Tree
end TreeConsole
