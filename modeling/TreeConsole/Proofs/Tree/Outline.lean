import Mathlib.Data.Finset.Sort
import Mathlib.Data.Set.Finite.Basic
import Mathlib.Data.String.Basic
import TreeConsole.Proofs.Node.Order
import TreeConsole.Tree.Seed

/-!
# Outlines of trees

An outline is what a tree is meant to be, without the bookkeeping: a finite map from paths to
payloads that has an entry for the root, and with an entry also all those above it. Who the children
of a node are need not be written down; they are the paths of the map that are one name longer.

The operations of a tree are given here once more, for outlines. Each says in one line which entry
comes, changes or goes, and whether it is refused depends on the paths of the map alone.

## Main definitions

* `Outline`, with `put`, `fill` and `prune` for the three ways in which an outline changes
* `create`, `setPayload`, `write`, `ensure`, `delete`, `listChildren`, `sizes`, `seed` — the
  operations
-/

namespace TreeConsole

/-- A finite map from paths to payloads, closed under going up. -/
@[ext]
structure Outline where
  payload? : NodePath → Option Bytes
  finite : {p | (payload? p).isSome = true}.Finite
  root : (payload? .root).isSome = true
  closed : ∀ {p q}, p ≤ q → (payload? q).isSome = true → (payload? p).isSome = true

namespace Outline

variable {o : Outline} {p q : NodePath} {payload : Bytes}

/-- Whether a path has an entry. -/
def Has (o : Outline) (p : NodePath) : Prop := (o.payload? p).isSome = true

instance (o : Outline) (p : NodePath) : Decidable (o.Has p) := inferInstanceAs (Decidable (_ = _))

theorem not_has_iff : ¬ o.Has p ↔ o.payload? p = none := by
  rw [Has, Bool.not_eq_true, Option.isSome_eq_false_iff, Option.isNone_iff_eq_none]

/-! ### How an outline changes -/

/-- Makes a payload the entry of a path. Everything above it has to be there. -/
def put (o : Outline) (p : NodePath) (payload : Bytes) (h : ∀ q ≤ p, q = p ∨ o.Has q) :
    Outline where
  payload? q := if q = p then some payload else o.payload? q
  finite := by
    refine (o.finite.insert p).subset fun q hq => ?_
    by_cases heq : q = p
    · exact Or.inl heq
    · exact Or.inr (by simpa [heq] using hq)
  root := by
    split
    · rfl
    · exact o.root
  closed := by
    intro q r hle hr
    split at hr
    · -- What is above the new entry is there by assumption.
      rename_i heq
      rcases h q (heq ▸ hle) with rfl | hq
      · rw [if_pos rfl]
        rfl
      · split
        · rfl
        · exact hq
    · split
      · rfl
      · exact o.closed hle hr

/-- Gives an empty payload to every path on the way that has no entry. -/
def fill (o : Outline) (p : NodePath) : Outline where
  payload? q := if o.Has q then o.payload? q else if q ≤ p then some [] else none
  finite := by
    refine (o.finite.union (p.waypoints.finite_toSet.insert .root)).subset fun q hq => ?_
    by_cases hhas : o.Has q
    · exact Or.inl hhas
    · have hle : q ≤ p := by
        by_contra hnle
        simp [hhas, hnle] at hq
      by_cases hroot : q = .root
      · exact Or.inr (Or.inl hroot)
      · exact Or.inr (Or.inr (NodePath.mem_waypoints_iff.mpr ⟨hle, hroot⟩))
  root := by
    rw [if_pos (show o.Has .root from o.root)]
    exact o.root
  closed := by
    intro q r hle hr
    by_cases hq : o.Has q
    · rw [if_pos hq]
      exact hq
    · -- What is below a missing entry was missing too, so it has been filled in.
      have hr' : ¬ o.Has r := fun hhas => hq (o.closed hle hhas)
      rw [if_neg hr'] at hr
      have hrp : r ≤ p := by
        by_contra hnle
        simp [hnle] at hr
      rw [if_neg hq, if_pos (hle.trans hrp)]
      rfl

/-- Removes the entry of a path and of everything below it. -/
def prune (o : Outline) (p : NodePath) (h : p ≠ .root) : Outline where
  payload? q := if p ≤ q then none else o.payload? q
  finite := by
    refine o.finite.subset fun q hq => ?_
    by_cases hle : p ≤ q
    · simp [hle] at hq
    · simpa [hle] using hq
  root := by
    rw [if_neg fun hle => h (NodePath.le_root_iff.mp hle)]
    exact o.root
  closed := by
    intro q r hle hr
    split at hr
    · cases hr
    · rename_i hpr
      rw [if_neg fun hpq => hpr (hpq.trans hle)]
      exact o.closed hle hr

theorem payload?_fill_of_has (h : o.Has q) : (o.fill p).payload? q = o.payload? q := if_pos h

theorem payload?_fill_of_not_has (h : ¬ o.Has q) :
    (o.fill p).payload? q = if q ≤ p then some [] else none := if_neg h

/-- There is nothing to fill on the way to the root. -/
theorem payload?_fill_root : (o.fill .root).payload? q = o.payload? q := by
  by_cases hhas : o.Has q
  · exact payload?_fill_of_has hhas
  · have hne : ¬ q ≤ .root := by
      rw [NodePath.le_root_iff]
      rintro rfl
      exact hhas o.root
    rw [payload?_fill_of_not_has hhas, if_neg hne, not_has_iff.mp hhas]

theorem has_fill_iff : (o.fill p).Has q ↔ o.Has q ∨ q ≤ p := by
  by_cases h : o.Has q
  · rw [Has, payload?_fill_of_has h]
    exact ⟨Or.inl, fun _ => h⟩
  · rw [Has, payload?_fill_of_not_has h]
    by_cases hle : q ≤ p <;> simp [h, hle]

/-! ### Operations -/

/-- The result of an operation: its answer and the outline after it. -/
abbrev Result (α : Type) := Except NodeError α × Outline

/-- Reads a path first. A text that names none is handed back with the failure. -/
def onPath {α : Type} (o : Outline) (path : String) (f : NodePath → Result α) : Result α :=
  match NodePath.parse? path with
  | none => (.error (.invalidPath path), o)
  | some p => f p

/-- Adds one entry. -/
def create (o : Outline) (p : NodePath) (payload : Bytes) : Result Unit :=
  if p = .root then (.error (.invalidPath "/"), o)
  -- That the path has an entry is reported first, whatever is above it.
  else if o.Has p then (.error (.nodeExists p.render), o)
  else if h : o.Has p.above then
    (.ok (), o.put p payload fun _ hq => (NodePath.eq_or_le_above hq).imp_right (o.closed · h))
  else (.error (.noNode p.above.render), o)

/-- Changes one entry. -/
def setPayload (o : Outline) (p : NodePath) (payload : Bytes) : Result Unit :=
  if h : o.Has p then (.ok (), o.put p payload fun _ hq => Or.inr (o.closed hq h))
  else (.error (.noNode p.render), o)

/-- Changes the entry of a path, or adds one. -/
def write (o : Outline) (p : NodePath) (payload : Bytes) : Result Unit :=
  if o.Has p then o.setPayload p payload else o.create p payload

/-- Adds what is missing on the way to a path. -/
def ensure (o : Outline) (p : NodePath) : Result Unit := (.ok (), o.fill p)

open Classical in
/-- Removes a path with everything below it. If that is not asked for, nothing may be below. -/
noncomputable def delete (o : Outline) (p : NodePath) (recursive : Bool) : Result Unit :=
  if h : p = .root then (.error (.invalidPath "/"), o)
  else if ¬ o.Has p then (.error (.noNode p.render), o)
  else if recursive = false ∧ ∃ q, p < q ∧ o.Has q then (.error (.notEmpty p.render), o)
  else (.ok (), o.prune p h)

/-- The names by which a path goes on to an entry. -/
def names (o : Outline) (p : NodePath) : Set String :=
  {name | ∃ legal : IsSegment name, o.Has (p.child name legal)}

theorem finite_names (o : Outline) (p : NodePath) : (o.names p).Finite := by
  refine (o.finite.image fun q => q.segments.getLastD "").subset ?_
  rintro name ⟨legal, hhas⟩
  exact ⟨p.child name legal, hhas, by simp⟩

/-- The names of the children of a path, in order. -/
noncomputable def children (o : Outline) (p : NodePath) : List String :=
  (o.finite_names p).toFinset.sort

/-- The names of the children of a path, which has to have an entry. -/
noncomputable def listChildren (o : Outline) (p : NodePath) : Except NodeError (List String) :=
  if o.Has p then .ok (o.children p) else .error (.noNode p.render)

/-- The length of a payload and the number of children, as far as counts go. -/
noncomputable def sizes (o : Outline) (p : NodePath) : Except NodeError (Int32 × Int32) :=
  match o.payload? p with
  | none => .error (.noNode p.render)
  | some payload => .ok (Node.clampedCount payload.length, Node.clampedCount (o.children p).length)

/-- Writes one entry of a document, with what is missing above it. -/
def seedEntry (o : Outline) (path : String) (value : Json) : Result Unit :=
  o.onPath path fun p =>
    if p = .root then o.write p (Tree.seedPayload value)
    else (o.fill p.above).write p (Tree.seedPayload value)

/-- Writes the entries of a document, up to the first that fails. -/
def seed : List (String × Json) → Outline → Result Unit
  | [], o => (.ok (), o)
  | (path, value) :: entries, o =>
    match o.seedEntry path value with
    | (.error e, o) => (.error e, o)
    | (.ok _, o) => seed entries o

end Outline
end TreeConsole
