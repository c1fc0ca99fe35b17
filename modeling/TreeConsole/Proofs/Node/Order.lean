import Mathlib.Data.List.Infix
import Mathlib.Data.List.Nodup
import Mathlib.Order.Basic
import TreeConsole.Node.Path

/-!
# The order of node paths

A path lies below another when its segments continue those of the other. Every path but the root is
a child of exactly one path, so what is shown of the root and handed from a path to its children
holds of all paths.

## Main results

* `NodePath.induction` — from the root, child by child, to every path
* `NodePath.eq_or_exists_child_le` — the way to a path below another starts with a child
* `NodePath.le_child_iff` — what lies above a child lies above its parent or is the child itself
* `NodePath.isAtOrAbove_iff` — the test that the tree runs decides the order
-/

namespace TreeConsole.NodePath

variable {p q r : NodePath} {name name' : String}

/-- One path is above another, or the same: its segments come first in the other. -/
instance : LE NodePath := ⟨fun p q => p.segments <+: q.segments⟩

theorem le_iff : p ≤ q ↔ p.segments <+: q.segments := Iff.rfl

instance : PartialOrder NodePath where
  le_refl p := List.prefix_refl p.segments
  le_trans _ _ _ h h' := List.IsPrefix.trans h h'
  le_antisymm _ _ h h' := ext (h.eq_of_length_le h'.length_le)

theorem isAtOrAbove_iff : p.isAtOrAbove q = true ↔ p ≤ q := List.isPrefixOf_iff_prefix

instance (p q : NodePath) : Decidable (p ≤ q) := decidable_of_iff _ isAtOrAbove_iff

theorem root_le (p : NodePath) : root ≤ p := List.nil_prefix

@[simp] theorem le_root_iff : p ≤ root ↔ p = root := by
  rw [le_iff, segments_root, List.prefix_nil]
  exact ⟨fun h => ext h, fun h => congrArg segments h⟩

theorem length_le_of_le (h : p ≤ q) : p.segments.length ≤ q.segments.length := h.length_le

/-! ### Children -/

theorem child_inj {h : IsSegment name} {h' : IsSegment name'} :
    p.child name h = q.child name' h' ↔ p = q ∧ name = name' := by
  constructor
  · intro heq
    have hseg := congrArg segments heq
    rw [segments_child, segments_child] at hseg
    obtain ⟨hp, hname⟩ := List.append_inj' hseg rfl
    exact ⟨ext hp, List.head_eq_of_cons_eq hname⟩
  · rintro ⟨rfl, rfl⟩
    rfl

theorem child_ne_root (h : IsSegment name) : p.child name h ≠ root := by
  intro heq
  have hseg := congrArg segments heq
  simp at hseg

theorem le_child (h : IsSegment name) : p ≤ p.child name h := List.prefix_append _ _

theorem not_child_le (h : IsSegment name) : ¬ p.child name h ≤ p := by
  intro hle
  have hlen := length_le_of_le hle
  rw [segments_child, List.length_append, List.length_singleton] at hlen
  omega

theorem le_child_iff {h : IsSegment name} : q ≤ p.child name h ↔ q = p.child name h ∨ q ≤ p := by
  rw [le_iff, segments_child, List.prefix_concat_iff, ← segments_child p name h]
  exact or_congr ⟨fun heq => ext heq, fun heq => congrArg segments heq⟩ Iff.rfl

theorem child_le_child_iff {h : IsSegment name} {h' : IsSegment name'} :
    p.child name h ≤ p.child name' h' ↔ name = name' := by
  rw [le_child_iff, child_inj]
  simp [not_child_le]

/-- No path lies below two children of one path. -/
theorem name_eq_of_child_le {h : IsSegment name} {h' : IsSegment name'}
    (hle : p.child name h ≤ q) (hle' : p.child name' h' ≤ q) : name = name' := by
  -- Two prefixes of one list that are of one length are the same.
  have hlen : (p.child name h).segments.length = (p.child name' h').segments.length := by simp
  have hseg := List.IsPrefix.eq_of_length (List.prefix_of_prefix_length_le hle hle' hlen.le) hlen
  exact (child_inj.mp (NodePath.ext hseg)).2

/-- Every path but the root is somebody's child. -/
theorem eq_root_or_child (p : NodePath) :
    p = root ∨ ∃ (q : NodePath) (name : String) (h : IsSegment name), p = q.child name h := by
  rcases List.eq_nil_or_concat p.segments with hnil | ⟨front, name, hseg⟩
  · exact Or.inl (NodePath.ext hnil)
  · rw [List.concat_eq_append] at hseg
    have hlegal : ∀ s ∈ front, IsSegment s := fun s hs => p.legal s (by simp [hseg, hs])
    refine Or.inr ⟨⟨front, hlegal⟩, name, p.legal name (by simp [hseg]), ?_⟩
    exact NodePath.ext hseg

theorem parent?_eq_some_iff : p.parent? = some (q, name) ↔ ∃ h, p = q.child name h := by
  constructor
  · intro hparent
    rcases p.eq_root_or_child with rfl | ⟨q', name', h, rfl⟩
    · rw [parent?_root] at hparent
      cases hparent
    · rw [parent?_child] at hparent
      cases hparent
      exact ⟨h, rfl⟩
  · rintro ⟨h, rfl⟩
    exact parent?_child q name h

/-- What holds of the root and passes from a path to its children holds of every path. -/
@[elab_as_elim]
theorem induction {motive : NodePath → Prop} (p : NodePath) (atRoot : motive root)
    (atChild : ∀ (p : NodePath) name (h : IsSegment name), motive p → motive (p.child name h)) :
    motive p := by
  -- The last name is taken off, and what is left is shorter.
  induction hn : p.segments.length generalizing p with
  | zero =>
    rw [show p = root from ext (List.length_eq_zero_iff.mp hn)]
    exact atRoot
  | succ n ih =>
    rcases p.eq_root_or_child with rfl | ⟨q, name, h, rfl⟩
    · exact atRoot
    · refine atChild q name h (ih q ?_)
      simpa using hn

/-- A path below another is that path or lies below one of its children. -/
theorem eq_or_exists_child_le (h : p ≤ q) :
    q = p ∨ ∃ name, ∃ hname : IsSegment name, p.child name hname ≤ q := by
  obtain ⟨rest, hseg⟩ := h
  cases rest with
  | nil => exact Or.inl (ext (by simpa using hseg.symm))
  | cons name rest =>
    have hname : IsSegment name := q.legal name (by simp [← hseg])
    exact Or.inr ⟨name, hname, ⟨rest, by simp [← hseg]⟩⟩

/-! ### Names and parents -/

theorem child?_eq_some_iff : p.child? name = some q ↔ ∃ h : IsSegment name, q = p.child name h := by
  unfold child?
  split
  · rename_i h
    constructor
    · intro heq
      exact ⟨h, (Option.some.inj heq).symm⟩
    · intro hchild
      obtain ⟨_, rfl⟩ := hchild
      rfl
  · rename_i h
    constructor
    · intro heq
      cases heq
    · intro hchild
      obtain ⟨h', _⟩ := hchild
      exact absurd h' h

/-- The path one name shorter; for the root, the root itself. -/
def above (p : NodePath) : NodePath := p.take (p.segments.length - 1)

@[simp] theorem above_child (h : IsSegment name) : (p.child name h).above = p :=
  NodePath.ext (by simp [above, take])

theorem eq_or_le_above (h : q ≤ p) : q = p ∨ q ≤ p.above := by
  rcases p.eq_root_or_child with rfl | ⟨r, name, legal, rfl⟩
  · exact Or.inl (le_root_iff.mp h)
  · rw [above_child]
    exact le_child_iff.mp h

/-! ### Waypoints -/

@[simp] theorem waypoints_root : root.waypoints = [] := rfl

theorem waypoints_child (h : IsSegment name) :
    (p.child name h).waypoints = p.waypoints ++ [p.child name h] := by
  simp only [waypoints, segments_child, List.length_append, List.length_singleton,
    List.range_succ, List.map_append, List.map_singleton]
  congr 1
  · -- A shorter way than the whole does not see the last name.
    refine List.map_congr_left fun i hi => ext ?_
    have hlt : i + 1 ≤ p.segments.length := List.mem_range.mp hi
    simp [take, List.take_append_of_le_length hlt]
  · rw [show (p.child name h).take (p.segments.length + 1) = p.child name h from
      ext (by simp [take])]

/-- The waypoints are the path and what lies above it, but for the root. -/
theorem mem_waypoints_iff : q ∈ p.waypoints ↔ q ≤ p ∧ q ≠ root := by
  induction p using NodePath.induction with
  | atRoot => simp
  | atChild p name h ih =>
    rw [waypoints_child, List.mem_append, List.mem_singleton, ih, le_child_iff]
    constructor
    · intro hway
      rcases hway with ⟨hle, hne⟩ | rfl
      · exact ⟨Or.inr hle, hne⟩
      · exact ⟨Or.inl rfl, child_ne_root h⟩
    · intro hway
      obtain ⟨rfl | hle, hne⟩ := hway
      · exact Or.inr rfl
      · exact Or.inl ⟨hle, hne⟩

theorem nodup_waypoints (p : NodePath) : p.waypoints.Nodup := by
  induction p using NodePath.induction with
  | atRoot => exact List.nodup_nil
  | atChild p name h ih =>
    rw [waypoints_child, ← List.concat_eq_append, List.nodup_concat]
    exact ⟨fun hmem => not_child_le h (mem_waypoints_iff.mp hmem).1, ih⟩

@[simp] theorem length_waypoints (p : NodePath) : p.waypoints.length = p.segments.length := by
  simp [waypoints]

end TreeConsole.NodePath
