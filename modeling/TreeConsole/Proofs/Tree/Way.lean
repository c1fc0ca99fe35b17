import Mathlib.Order.Bounds.Basic
import TreeConsole.Proofs.Tree.Refinement

/-!
# Creating the nodes on a way

The nodes that are missing on the way to a path are created one after the other, and a creation may
be refused. That none of them is follows from the order in which they are come to: the node above is
there, because it was found or has just been created. In a sound tree the way falls into two parts,
down to the deepest node that is there and below it, and only the second part has to be created.

What the tree is afterwards is said node by node. The new nodes have the next numbers, the
shallowest first; each but the last has the next one for its only child. The node that the new ones
hang from has gained a child. All other nodes are as they were.

## Main definitions

* `IsDeepest` — how far down a way the nodes are there
* `numberBelow` — the numbers that the missing ones get
* `Extended` — a tree with the missing nodes on a way created

## Main results

* `Sound.extended_child` — one node more
* `Reachable.ensurePath_extends` — a way in a reachable tree can always be created, once
-/

namespace TreeConsole.Tree

variable {t t' : Tree} {d p q : NodePath} {n : Node} {name : String} {clock : Clock}

/-- The deepest node that is there on the way to a path. -/
def IsDeepest (t : Tree) (p d : NodePath) : Prop := IsGreatest {q | q ≤ p ∧ t.has q = true} d

/-- The number of the change that creates a node, where the nodes below another are created one
after the other. -/
def numberBelow (t : Tree) (d q : NodePath) : Nat :=
  t.lastChange + (q.segments.length - d.segments.length)

/-- One tree is another with the nodes created that were missing on the way to a path, of which the
deepest that was there is given. -/
structure Extended (clock : Clock) (t : Tree) (d p : NodePath) (t' : Tree) : Prop where
  /-- As many changes were made as nodes were missing. -/
  last : t'.lastChange = t.numberBelow d p
  /-- The nodes on the way are there now, and otherwise those that were there. -/
  has : ∀ q, t'.has q = true ↔ t.has q = true ∨ q ≤ p
  /-- A node that was there is as it was, unless it was the deepest and some were missing. -/
  kept : ∀ {q n}, t.find? q = some n → q ≠ d ∨ t.has p = true → t'.find? q = some n
  /-- The deepest has gained one child, by the first of the changes. -/
  gained : ∀ {n name} {legal : IsSegment name}, t.find? d = some n → d.child name legal ≤ p →
    name ∉ n.children ∧ t'.find? d = some { n with
      children := Node.insertName name n.children
      childrenModified := t.lastChange + 1
      childrenVersion := n.childrenVersion + 1 }
  /-- A node that was missing has an empty payload and the number that its depth gives it. Above
  another one it has that one for a child, which is one change more. -/
  between : ∀ {q name} {legal : IsSegment name}, t.has q = false → q.child name legal ≤ p →
    t'.find? q = some { Node.fresh clock (t.numberBelow d q) [] with
      children := [name]
      childrenModified := t.numberBelow d q + 1
      childrenVersion := 1 }
  /-- The last one has no children. -/
  reached : t.has p = false → t'.find? p = some (.fresh clock (t.numberBelow d p) [])

/-! ### Where nothing is missing -/

theorem isDeepest_self (hp : t.has p = true) : t.IsDeepest p p :=
  ⟨⟨le_rfl, hp⟩, fun _ hq => hq.1⟩

theorem extended_self (h : t.Sound) (hp : t.has p = true) : Extended clock t p p t where
  last := by simp [numberBelow]
  has q := ⟨Or.inl, fun hq => hq.elim id fun hle => h.above hle hp⟩
  kept hq _ := hq
  gained _ hle := absurd hle (NodePath.not_child_le _)
  between hq hle := by
    rw [h.above ((NodePath.le_child _).trans hle) hp] at hq
    cases hq
  reached hnot := by
    rw [hp] at hnot
    cases hnot

/-! ### One node more -/

section Child

variable {legal : IsSegment name}

/-- A node that is missing does not change which one is the deepest. -/
theorem IsDeepest.child (h : t.IsDeepest p d) (hchild : t.has (p.child name legal) = false) :
    t.IsDeepest (p.child name legal) d := by
  refine ⟨⟨h.1.1.trans (NodePath.le_child legal), h.1.2⟩, fun q hq => ?_⟩
  obtain ⟨hle, hhas⟩ := hq
  rcases NodePath.le_child_iff.mp hle with rfl | hle
  · rw [hhas] at hchild
    cases hchild
  · exact h.2 ⟨hle, hhas⟩

theorem IsDeepest.eq_of_has (h : t.IsDeepest p d) (hp : t.has p = true) : d = p :=
  le_antisymm h.1.1 (h.2 ⟨le_rfl, hp⟩)

/-- One name further down the number is the next one. -/
theorem numberBelow_child (hle : d ≤ p) :
    t.numberBelow d (p.child name legal) = t.numberBelow d p + 1 := by
  have hlength := NodePath.length_le_of_le hle
  simp only [numberBelow, NodePath.segments_child, List.length_append, List.length_singleton]
  omega

/-- Where the nodes on a way have been created, one more can be created behind the last. -/
theorem Sound.extended_child (h : t.Sound) (hd : t.IsDeepest p d) (ht : Extended clock t d p t')
    (hchild : t.has (p.child name legal) = false) :
    Extended clock t d (p.child name legal)
      ((Change.create p name legal []).apply clock t') where
  last := by
    rw [numberBelow_child hd.1.1, ← ht.last]
    rfl
  has q := by
    rw [has_create, ht.has, NodePath.le_child_iff]
    exact or_left_comm
  kept := by
    intro q m hm hq
    have hhas : t.has q = true := has_iff.mpr ⟨m, hm⟩
    have hdeepest : q ≠ d := hq.resolve_right (Bool.not_eq_true _ ▸ hchild)
    have hnew : q ≠ p.child name legal := by
      rintro rfl
      rw [hhas] at hchild
      cases hchild
    -- If the node were the last one on the way, it would be the deepest that was there.
    have hlast : q ≠ p := fun heq => hdeepest (heq.trans (hd.eq_of_has (heq ▸ hhas)).symm)
    rw [find?_create, if_neg hnew, if_neg hlast]
    exact ht.kept hm (Or.inl hdeepest)
  gained := by
    intro m x legal' hm hle
    have hnew : d ≠ p.child name legal := by
      rintro rfl
      exact NodePath.not_child_le legal hd.1.1
    by_cases hdp : d = p
    · -- The first node is created, below the deepest one.
      subst hdp
      obtain rfl := NodePath.child_le_child_iff.mp hle
      have hname : x ∉ m.children := by
        rw [h.names hm]
        rintro ⟨_, hthere⟩
        rw [hchild] at hthere
        cases hthere
      rw [find?_create, if_neg hnew, if_pos rfl, ht.kept hm (Or.inr hd.1.2), ht.last]
      simp [numberBelow, Node.withChildren, hname]
    · have hle' : d.child x legal' ≤ p := by
        refine (NodePath.le_child_iff.mp hle).resolve_left fun heq => hdp ?_
        exact (NodePath.child_inj.mp heq).1
      rw [find?_create, if_neg hnew, if_neg hdp]
      exact ht.gained hm hle'
  between := by
    intro q x legal' hq hle
    have hqp : q ≤ p := by
      rcases NodePath.le_child_iff.mp hle with heq | hle'
      · exact (NodePath.child_inj.mp heq).1.le
      · exact (NodePath.le_child legal').trans hle'
    have hnew : q ≠ p.child name legal := by
      rintro rfl
      exact NodePath.not_child_le legal hqp
    rw [find?_create, if_neg hnew]
    split_ifs with hlast
    · -- The last node so far gets its only child.
      subst hlast
      obtain rfl := NodePath.child_le_child_iff.mp hle
      rw [ht.reached hq, ht.last]
      rfl
    · have hle' : q.child x legal' ≤ p := by
        refine (NodePath.le_child_iff.mp hle).resolve_left fun heq => hlast ?_
        exact (NodePath.child_inj.mp heq).1
      exact ht.between hq hle'
  reached _ := by
    rw [find?_create, if_pos rfl, numberBelow_child hd.1.1, ht.last]

end Child

/-! ### The whole way -/

/-- The nodes that are missing on a way can be created, and nothing else happens. -/
theorem Sound.ensure_extended (h : t.Sound) (clock : Clock) (p : NodePath) :
    ∃ t' d, t.ensure clock p = (.ok (), t') ∧ t.IsDeepest p d ∧ Extended clock t d p t' := by
  suffices hway : ∃ t', t.ensure clock p = (.ok (), t') ∧ t'.has p = true ∧
      (t.has p = true → t' = t) ∧ ∃ d, t.IsDeepest p d ∧ Extended clock t d p t' by
    obtain ⟨t', hensure, -, -, d, hd, ht⟩ := hway
    exact ⟨t', d, hensure, hd, ht⟩
  -- As long as all nodes on the way are found, the tree stays as it is.
  refine h.ensure_induction (P := fun p t' => (t.has p = true → t' = t) ∧
    ∃ d, t.IsDeepest p d ∧ Extended clock t d p t') clock ?atRoot ?found ?missing p
  case atRoot => exact ⟨fun _ => rfl, .root, isDeepest_self h.root, extended_self h h.root⟩
  case found =>
    intro p name t' legal hP hchild
    obtain ⟨hsame, d, hd, ht⟩ := hP
    have hthere : t.has (p.child name legal) = true :=
      ((ht.has _).mp hchild).resolve_right (NodePath.not_child_le legal)
    obtain rfl := hsame (h.parent hthere)
    exact ⟨fun _ => rfl, _, isDeepest_self hthere, extended_self h hthere⟩
  case missing =>
    intro p name t' legal hP hfits
    obtain ⟨-, d, hd, ht⟩ := hP
    have hmissing : t.has (p.child name legal) = false := by
      rw [← Bool.not_eq_true]
      intro hthere
      have hchild := (ht.has _).mpr (Or.inl hthere)
      rw [hfits.2] at hchild
      cases hchild
    refine ⟨fun hthere => ?_, d, hd.child hmissing, h.extended_child hd ht hmissing⟩
    rw [hmissing] at hthere
    cases hthere

/-- In a reachable tree the nodes that are missing on the way to a path that a text names can always
be created, and exactly these are. Asking for the path again, or for one above it, by whatever text,
leaves the tree as it is. -/
theorem Reachable.ensurePath_extends (h : Reachable t) (clock : Clock) {path : String}
    {p : NodePath} (named : NodePath.parse path = .ok p) :
    ∃ t' d, (client clock).answer (.ensurePath path) t = (.ok (), t') ∧ t.IsDeepest p d ∧
      Extended clock t d p t' ∧
      ∀ (clock' : Clock) (path' : String) (q : NodePath), NodePath.parse path' = .ok q → q ≤ p →
        (client clock').answer (.ensurePath path') t' = (.ok (), t') := by
  have hanswer : ∀ {path q} (clock : Clock) (t : Tree), NodePath.parse path = .ok q →
      (client clock).answer (.ensurePath path) t = t.ensure clock q := by
    intro path q clock t named
    simp only [client, answer, withPath, named]
    rfl
  obtain ⟨t', d, hensure, hd, ht⟩ := h.sound.ensure_extended clock p
  have hafter : ((Call.ask (.ensurePath path)).run clock t).2 = t' :=
    congrArg Prod.snd ((hanswer clock t named).trans hensure)
  have hsound : t'.Sound := hafter ▸ (h.call clock (.ask (.ensurePath path))).sound
  refine ⟨t', d, (hanswer clock t named).trans hensure, hd, ht, fun clock' path' q named' hle => ?_⟩
  rw [hanswer clock' t' named']
  exact hsound.ensure_of_has clock' ((ht.has q).mpr (Or.inr hle))

/-- Two nodes are missing below one that is there. The upper one of them becomes its second child
and has the next number; the lower one is all that the upper one has. -/
theorem ensurePath_extends_grove :
    let c := (NodePath.root.child "p" (by decide)).child "c" (by decide)
    let x := c.child "x" (by decide)
    let y := x.child "y" (by decide)
    ∃ t', NodePath.parse "/p/c/x/y/" = .ok y ∧
      (client default).answer (.ensurePath "/p/c/x/y/") grove = (.ok (), t') ∧
      Extended default grove c y t' ∧ grove.lastChange = 5 ∧
      t'.find? c = some ⟨[], ["g", "x"], 2, default, 2, default, 0, 6, 2⟩ ∧
      t'.find? x = some ⟨[], ["y"], 6, default, 6, default, 0, 7, 1⟩ ∧
      t'.find? y = some ⟨[], [], 7, default, 7, default, 0, 7, 0⟩ ∧
      (client default).answer (.ensurePath "/p/c//") t' = (.ok (), t') := by
  intro c x y
  have named : NodePath.parse "/p/c/x/y/" = .ok y := by decide +kernel
  have hthere : grove.find? c = some ⟨[], ["g"], 2, default, 2, default, 0, 3, 1⟩ := by
    decide +kernel
  have hx : grove.has x = false := by decide +kernel
  have hy : grove.has y = false := by decide +kernel
  obtain ⟨t', d, hanswer, hd, ht, hagain⟩ := reachable_grove.ensurePath_extends default named
  have hdeepest : grove.IsDeepest y c :=
    ((isDeepest_self (has_iff.mpr ⟨_, hthere⟩)).child hx).child hy
  obtain rfl : d = c := hd.unique hdeepest
  have hle : c ≤ y := hdeepest.1.1
  refine ⟨t', named, hanswer, ht, by decide +kernel, ?_, ?_, ?_, ?_⟩
  · exact (ht.gained hthere (NodePath.le_child _)).2
  · exact ht.between hx le_rfl
  · exact ht.reached hy
  · exact hagain default "/p/c//" c (by decide +kernel) hle

end TreeConsole.Tree
