import Mathlib.Data.List.Perm.Subperm
import TreeConsole.Proofs.Node.Canonical
import TreeConsole.Proofs.Tree.Call
import TreeConsole.Tree.Walk

/-!
# The two records of a tree agree

Seen as a table, a tree is a set of paths; seen through the names its nodes keep, it is what a walk
from the root comes upon. In a sound tree both are the same: the walk visits every node of the table
once and nothing else, and the number of nodes is the number of visits.

A walk is bounded by a number of levels. The bound does not cut anything off, because a node has at
least as many nodes above it as it has segments.

## Main definitions

* `Consistent` — the two records agree, said of the table and of texts

## Main results

* `Sound.mem_walk_iff`, `Sound.nodup_walk` — the walk of a sound tree lists its table
* `after_consistent` — calls lead to consistent trees only
-/

namespace TreeConsole.Tree

variable {t : Tree} {p q : NodePath} {n : Node} {name : String}

theorem find?_eq_some_iff_mem (h : t.keys.Nodup) : t.find? p = some n ↔ (p, n) ∈ t.nodes := by
  constructor
  · intro hfind
    obtain ⟨front, back, heq, -⟩ := List.lookup_eq_some_iff.mp hfind
    simp [heq]
  · intro hmem
    obtain ⟨m, hm⟩ := has_iff.mp (has_iff_mem_keys.mpr (List.mem_map_of_mem hmem))
    obtain ⟨front, back, heq, -⟩ := List.lookup_eq_some_iff.mp hm
    have hmem' : (p, m) ∈ t.nodes := by simp [heq]
    have hsame : (p, n) = (p, m) := List.inj_on_of_nodup_map h hmem hmem' rfl
    rw [hm, (Prod.mk.inj hsame).2]

/-- The nodes that a node names, as paths. -/
def childPaths (p : NodePath) (n : Node) : List NodePath := n.children.filterMap p.child?

theorem mem_childPaths : q ∈ childPaths p n ↔
    ∃ (name : String) (legal : IsSegment name), name ∈ n.children ∧ q = p.child name legal := by
  rw [childPaths, List.mem_filterMap]
  simp only [NodePath.child?_eq_some_iff]
  refine exists_congr fun name => ⟨?_, ?_⟩
  · intro hchild
    obtain ⟨hname, legal, heq⟩ := hchild
    exact ⟨legal, hname, heq⟩
  · intro hchild
    obtain ⟨legal, hname, heq⟩ := hchild
    exact ⟨hname, legal, heq⟩

theorem walkFrom_succ (t : Tree) (depth : Nat) (p : NodePath) (n : Node) (h : t.find? p = some n) :
    t.walkFrom (depth + 1) p = (p, n) :: (childPaths p n).flatMap (t.walkFrom depth) := by
  rw [walkFrom, h]
  rfl

namespace Sound

theorem mem_childPaths_iff (h : t.Sound) (hn : t.find? p = some n) : q ∈ childPaths p n ↔
    ∃ (name : String) (legal : IsSegment name), t.has q = true ∧ q = p.child name legal := by
  rw [mem_childPaths]
  refine exists_congr fun name => ⟨?_, ?_⟩
  · intro hnamed
    obtain ⟨legal, hname, rfl⟩ := hnamed
    obtain ⟨_, hchild⟩ := (h.names hn name).mp hname
    exact ⟨legal, hchild, rfl⟩
  · intro hthere
    obtain ⟨legal, hchild, rfl⟩ := hthere
    exact ⟨legal, (h.names hn name).mpr ⟨legal, hchild⟩, rfl⟩

/-- A walk of some levels comes upon the nodes below its start, as far down as the levels go. -/
theorem mem_walkFrom_iff (h : t.Sound) (depth : Nat) :
    (q, n) ∈ t.walkFrom depth p ↔
      t.find? q = some n ∧ p ≤ q ∧ q.segments.length < p.segments.length + depth := by
  induction depth generalizing p with
  | zero =>
    simp only [walkFrom, List.not_mem_nil, false_iff]
    intro hreach
    obtain ⟨-, hle, hlt⟩ := hreach
    exact absurd (NodePath.length_le_of_le hle) (Nat.not_le.mpr hlt)
  | succ depth ih =>
    cases hp : t.find? p with
    | none =>
      -- Nothing is below a node that is not there.
      simp only [walkFrom, hp, List.not_mem_nil, false_iff]
      intro hreach
      obtain ⟨hq, hle, -⟩ := hreach
      have habove := h.above hle (has_iff.mpr ⟨n, hq⟩)
      simp [has, hp] at habove
    | some m =>
      rw [walkFrom_succ t depth p m hp, List.mem_cons, List.mem_flatMap]
      constructor
      · intro hvisit
        rcases hvisit with heq | ⟨r, hr, hmem⟩
        · cases heq
          exact ⟨hp, le_refl q, by omega⟩
        · obtain ⟨x, legal, -, rfl⟩ := (h.mem_childPaths_iff hp).mp hr
          obtain ⟨hq, hle, hlt⟩ := ih.mp hmem
          rw [NodePath.segments_child, List.length_append, List.length_singleton] at hlt
          exact ⟨hq, (NodePath.le_child legal).trans hle, by omega⟩
      · intro hreach
        obtain ⟨hq, hle, hlt⟩ := hreach
        -- The child on the way to the node is there, so its parent names it.
        rcases NodePath.eq_or_exists_child_le hle with rfl | ⟨x, legal, hbelow⟩
        · rw [hp] at hq
          cases hq
          exact Or.inl rfl
        · have hchild := h.above hbelow (has_iff.mpr ⟨n, hq⟩)
          refine Or.inr ⟨_, (h.mem_childPaths_iff hp).mpr ⟨x, legal, hchild, rfl⟩, ih.mpr ?_⟩
          rw [NodePath.segments_child, List.length_append, List.length_singleton]
          exact ⟨hq, hbelow, by omega⟩

theorem nodup_childPaths (h : t.Sound) (hn : t.find? p = some n) : (childPaths p n).Nodup := by
  refine List.Nodup.filterMap ?_ (h.nodup_children hn)
  intro x y q hx hy
  obtain ⟨_, rfl⟩ := NodePath.child?_eq_some_iff.mp hx
  obtain ⟨_, heq⟩ := NodePath.child?_eq_some_iff.mp hy
  exact (NodePath.child_inj.mp heq).2

/-- No walk visits a node twice: the walks from two children of one node stay apart. -/
theorem nodup_walkFrom (h : t.Sound) (depth : Nat) (p : NodePath) :
    ((t.walkFrom depth p).map Prod.fst).Nodup := by
  induction depth generalizing p with
  | zero => exact List.nodup_nil
  | succ depth ih =>
    cases hp : t.find? p with
    | none => simp [walkFrom, hp]
    | some m =>
      rw [walkFrom_succ t depth p m hp, List.map_cons, List.map_flatMap, List.nodup_cons,
        List.nodup_flatMap]
      refine ⟨?_, fun q _ => ih q, ?_⟩
      · intro hmem
        obtain ⟨r, hr, hvisit⟩ := List.mem_flatMap.mp hmem
        obtain ⟨⟨q, k⟩, hwalk, rfl⟩ := List.mem_map.mp hvisit
        obtain ⟨x, legal, -, rfl⟩ := (h.mem_childPaths_iff hp).mp hr
        exact NodePath.not_child_le legal ((h.mem_walkFrom_iff depth).mp hwalk).2.1
      · refine (h.nodup_childPaths hp).imp_of_mem ?_
        intro r r' hr hr' hne q hq hq'
        obtain ⟨⟨_, k⟩, hwalk, rfl⟩ := List.mem_map.mp hq
        obtain ⟨⟨q, k'⟩, hwalk', heq⟩ := List.mem_map.mp hq'
        obtain ⟨x, legal, -, rfl⟩ := (h.mem_childPaths_iff hp).mp hr
        obtain ⟨x', legal', -, rfl⟩ := (h.mem_childPaths_iff hp).mp hr'
        cases heq
        have hname := NodePath.name_eq_of_child_le ((h.mem_walkFrom_iff depth).mp hwalk).2.1
          ((h.mem_walkFrom_iff depth).mp hwalk').2.1
        exact hne (NodePath.child_inj.mpr ⟨rfl, hname⟩)

/-- A node has fewer segments than the tree has nodes. -/
theorem length_segments_lt (h : t.Sound) (hp : t.has p = true) : p.segments.length < t.size := by
  have hnodup : (.root :: p.waypoints).Nodup := by
    rw [List.nodup_cons]
    exact ⟨fun hmem => (NodePath.mem_waypoints_iff.mp hmem).2 rfl, p.nodup_waypoints⟩
  have hsub : (.root :: p.waypoints) ⊆ t.keys := by
    intro q hq
    rw [← has_iff_mem_keys]
    rcases List.mem_cons.mp hq with rfl | hq
    · exact h.root
    · exact h.above (NodePath.mem_waypoints_iff.mp hq).1 hp
  have hlen := (hnodup.subperm hsub).length_le
  rwa [List.length_cons, NodePath.length_waypoints, keys, List.length_map] at hlen

theorem mem_walk_iff (h : t.Sound) : (p, n) ∈ t.walk ↔ t.find? p = some n := by
  rw [walk, h.mem_walkFrom_iff]
  refine ⟨And.left, fun hfind => ⟨hfind, NodePath.root_le p, ?_⟩⟩
  rw [NodePath.segments_root, List.length_nil, Nat.zero_add]
  exact h.length_segments_lt (has_iff.mpr ⟨n, hfind⟩)

theorem nodup_walk (h : t.Sound) : (t.walk.map Prod.fst).Nodup := h.nodup_walkFrom t.size .root

/-- The walk lists the table, in another order. -/
theorem walk_perm (h : t.Sound) : t.walk.Perm t.nodes := by
  refine (List.perm_ext_iff_of_nodup h.nodup_walk.of_map h.unique.of_map).mpr fun e => ?_
  rw [h.mem_walk_iff, find?_eq_some_iff_mem h.unique]

end Sound

/-! ### Consistency -/

/-- The table and the names that nodes keep tell of the same nodes. -/
structure Consistent (t : Tree) : Prop where
  /-- The root is there, and a single slash is its text. -/
  root : t.has .root = true ∧ NodePath.root.render = "/"
  /-- The text of a node is canonical: it is read as that node. -/
  canonical : ∀ p, t.has p = true → NodePath.parse p.render = .ok p
  /-- A node other than the root has its parent in the table, and its parent names it. -/
  listed : ∀ p, t.has p = true → p ≠ .root →
    ∃ parent name n, p.parent? = some (parent, name) ∧ t.find? parent = some n ∧
      name ∈ n.children
  /-- A name, joined to the text of the node that keeps it, is the text of a node. -/
  present : ∀ p n, t.find? p = some n → ∀ name ∈ n.children,
    ∃ q, q.render = joinChild p.render name ∧ t.has q = true

theorem Sound.consistent (h : t.Sound) : t.Consistent where
  root := ⟨h.root, rfl⟩
  canonical := fun p _ => p.parse_render
  listed := by
    intro p hp hne
    rcases p.eq_root_or_child with rfl | ⟨q, name, legal, rfl⟩
    · exact absurd rfl hne
    · obtain ⟨n, hn⟩ := has_iff.mp (h.parent hp)
      exact ⟨q, name, n, NodePath.parent?_child q name legal, hn, (h.names hn name).mpr ⟨legal, hp⟩⟩
  present := by
    intro p n hn name hname
    obtain ⟨legal, hchild⟩ := (h.names hn name).mp hname
    exact ⟨p.child name legal, (NodePath.joinChild_render legal).symm, hchild⟩

/-- Whatever calls are made to a new tree, and whether they go through or fail, its two records stay
in step; a walk from the root visits every node once, and the number of nodes is the number of
visits. -/
theorem after_consistent (start : Clock) (calls : List (Clock × Call)) :
    ((empty start).after calls).Consistent ∧
      (((empty start).after calls).walk.map Prod.fst).Nodup ∧
      (∀ p n, (p, n) ∈ ((empty start).after calls).walk ↔
        ((empty start).after calls).find? p = some n) ∧
      ((empty start).after calls).size = ((empty start).after calls).walk.length := by
  have h : ((empty start).after calls).Sound := ((Reachable.start start).after calls).sound
  exact ⟨h.consistent, h.nodup_walk, fun p n => h.mem_walk_iff, h.walk_perm.length_eq.symm⟩

end TreeConsole.Tree
