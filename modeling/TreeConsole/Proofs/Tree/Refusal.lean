import TreeConsole.Proofs.Node.Spelling
import TreeConsole.Proofs.Tree.Sound
import TreeConsole.Tree.Client

/-!
# What a tree refuses

A tree refuses a request for one of six reasons. Each is about the path that the request names: the
text names no path, or the root, or a node that is not there, or one that is there, or one that has
children, or one without a node above it. Which of them a request can meet depends on the request;
only the last but one needs a tree in which the two records of every child agree.

## Main definitions

* `Request.NeedsNode` — requests that a node has to be there for
* `Refuses` — why a tree does not do what is asked

## Main results

* `Sound.refuses_of_answer` — a sound tree refuses a request for one of these reasons
-/

namespace TreeConsole

/-- The node that the request is about has to be there. -/
def Request.NeedsNode : Request → Prop
  | .listChildren _ | .setPayload _ _ | .deleteNode _ _ | .describe _ => True
  | .readPayload _ | .pathExists _ | .ensurePath _ | .createNode _ _ | .sendAdmin _ => False

namespace Tree

variable {t : Tree} {clock : Clock} {q : Request} {e : NodeError}

/-- Why a tree does not do what is asked. -/
inductive Refuses (t : Tree) : Request → NodeError → Prop
  | unnamed {q : Request} (asks : ∀ word, q ≠ .sendAdmin word)
    (none : NodePath.parse? q.target = none) : Refuses t q (.invalidPath q.target)
  | createRoot {path : String} (payload : Bytes) (named : NodePath.parse path = .ok .root) :
    Refuses t (.createNode path payload) (.invalidPath "/")
  | deleteRoot {path : String} (recursive : Bool) (named : NodePath.parse path = .ok .root) :
    Refuses t (.deleteNode path recursive) (.invalidPath "/")
  | absent {q : Request} {p : NodePath} (needs : q.NeedsNode)
    (named : NodePath.parse q.target = .ok p) (none : t.has p = false) :
    Refuses t q (.noNode p.render)
  | orphan {path : String} {p : NodePath} {name : String} (legal : IsSegment name)
    (payload : Bytes) (named : NodePath.parse path = .ok (p.child name legal))
    (none : t.has p = false) : Refuses t (.createNode path payload) (.noNode p.render)
  | taken {path : String} {p : NodePath} (payload : Bytes) (named : NodePath.parse path = .ok p)
    (there : t.has p = true) : Refuses t (.createNode path payload) (.nodeExists p.render)
  | inhabited {path : String} {p : NodePath} {n : Node} (named : NodePath.parse path = .ok p)
    (there : t.find? p = some n) (children : n.children ≠ []) :
    Refuses t (.deleteNode path false) (.notEmpty p.render)

theorem has_of_find?_eq_none {p : NodePath} (h : t.find? p = none) : t.has p = false := by
  rw [has, h]
  rfl

/-- The payload of a node that is there can be replaced. -/
theorem Refuses.not_setPayload {path : String} {payload : Bytes} {p : NodePath}
    (named : NodePath.parse path = .ok p) (there : t.has p = true) :
    ¬ Refuses t (.setPayload path payload) e := by
  intro h
  cases h with
  | unnamed _ none =>
    rw [Request.target, NodePath.parse_eq_ok_iff.mp named] at none
    cases none
  | absent _ named' none =>
    cases named.symm.trans named'
    cases there.symm.trans none

/-- A node that is not there can be created unless the one above it is not there either. -/
theorem Refuses.orphan_of_create {path : String} {payload : Bytes} {p : NodePath}
    (root : t.has .root = true) (named : NodePath.parse path = .ok p) (absent : ¬ t.has p = true)
    (h : Refuses t (.createNode path payload) e) :
    ∃ q name legal, p = q.child name legal ∧ t.has q = false ∧ e = .noNode q.render := by
  cases h with
  | unnamed _ none =>
    rw [Request.target, NodePath.parse_eq_ok_iff.mp named] at none
    cases none
  | createRoot _ atRoot =>
    cases named.symm.trans atRoot
    exact absurd root absent
  | absent needs => cases needs
  | orphan legal _ named' none =>
    cases named.symm.trans named'
    exact ⟨_, _, legal, rfl, none, rfl⟩
  | taken _ named' there =>
    cases named.symm.trans named'
    exact absurd there absent

theorem refuses_of_create {path : String} {payload : Bytes} {p : NodePath}
    (named : NodePath.parse path = .ok p) (h : (t.create clock p payload).1 = .error e) :
    Refuses t (.createNode path payload) e := by
  rcases p.eq_root_or_child with rfl | ⟨q, name, legal, rfl⟩
  · cases h
    exact .createRoot payload named
  · by_cases hc : t.has (q.child name legal) = true
    · rw [create_of_has hc] at h
      cases h
      exact .taken payload named hc
    · rw [Bool.not_eq_true] at hc
      by_cases hq : t.has q = true
      · rw [create_of_fits ⟨hq, hc⟩] at h
        cases h
      · rw [Bool.not_eq_true] at hq
        rw [create_of_orphan hc hq] at h
        cases h
        exact .orphan legal payload named hq

namespace Sound

theorem refuses_of_delete (hs : t.Sound) {path : String} {recursive : Bool} {p : NodePath}
    (named : NodePath.parse path = .ok p) (h : (t.delete p recursive).1 = .error e) :
    Refuses t (.deleteNode path recursive) e := by
  rcases p.eq_root_or_child with rfl | ⟨q, name, legal, rfl⟩
  · cases h
    exact .deleteRoot recursive named
  · cases hfind : t.find? (q.child name legal) with
    | none =>
      have habsent := has_of_find?_eq_none hfind
      rw [delete_of_absent habsent] at h
      cases h
      exact .absent trivial named habsent
    | some n =>
      have hchild : t.has (q.child name legal) = true := has_iff.mpr ⟨n, hfind⟩
      by_cases hr : n.children = [] ∨ recursive = true
      · -- The node above is there, so that it can record the deletion.
        rw [delete_of_fits default ⟨hs.parent hchild, hchild⟩ hfind hr] at h
        cases h
      · rw [not_or, Bool.not_eq_true] at hr
        rw [hr.2] at h ⊢
        rw [delete_of_children hfind hr.1] at h
        cases h
        exact .inhabited named hfind hr.1

/-- A sound tree refuses a request for one of the reasons. -/
theorem refuses_of_answer (hs : t.Sound) (h : ((client clock).answer q t).1 = .error e) :
    Refuses t q e := by
  by_cases hadmin : ∃ word, q = .sendAdmin word
  · obtain ⟨word, rfl⟩ := hadmin
    cases h
  · have hasks : ∀ word, q ≠ .sendAdmin word := fun word hq => hadmin ⟨word, hq⟩
    cases hread : NodePath.parse? q.target with
    | none =>
      rw [client_answer_of_invalid clock q t hasks hread] at h
      cases h
      exact .unnamed hasks hread
    | some p =>
      have named := NodePath.parse_eq_ok_iff.mpr hread
      cases q
      case sendAdmin word => exact absurd rfl (hasks word)
      all_goals
        simp only [client, answer, withPath, Request.target] at h named
        simp only [named] at h
      case readPayload | pathExists => cases h
      case ensurePath =>
        obtain ⟨t', hensure, -⟩ := hs.ensure_ok clock p
        rw [hensure] at h
        cases h
      case createNode => exact refuses_of_create named h
      case deleteNode => exact hs.refuses_of_delete named h
      case setPayload =>
        by_cases hp : t.has p = true
        · rw [setPayload_of_has hp] at h
          cases h
        · rw [Bool.not_eq_true] at hp
          rw [setPayload_of_absent hp] at h
          cases h
          exact .absent trivial named hp
      case listChildren =>
        unfold childrenOf at h
        cases hfind : t.find? p <;> rw [hfind] at h <;> cases h
        exact .absent trivial named (has_of_find?_eq_none hfind)
      case describe =>
        unfold statOf at h
        cases hfind : t.find? p <;> rw [hfind] at h <;> cases h
        exact .absent trivial named (has_of_find?_eq_none hfind)

end Sound
end Tree
end TreeConsole
