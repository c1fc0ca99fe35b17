import TreeConsole.Proofs.Node.Canonical
import TreeConsole.Proofs.Tree.Call
import TreeConsole.Proofs.Tree.Outline

/-!
# Trees do what their outlines do

A reachable tree has an outline, which forgets everything but the payloads. Each call has the same
answer on the tree and on the outline, and leads to the outline of the tree that it leads to. So
what a client can see of the payloads and names in a tree is settled by the outline alone, and the
lists of names that the nodes keep never show.

Where the two look least alike is deletion: the tree refuses it by a look at one list of names, the
outline by asking for an entry below. The two agree because the records of a sound tree do.

## Main definitions

* `Agrees` — an outline has the payloads of a tree
* `Reachable.outline` — the outline of a reachable tree
* `Call.onOutline` — a call, done to an outline

## Main results

* `removeSubtree_eq_filter` — which entries a deletion takes, told by their texts
* `Reachable.run_outline` — doing a call and taking the outline come to the same in either order
-/

namespace TreeConsole.Tree

variable {t : Tree} {o : Outline} {p q : NodePath} {n : Node} {name : String} {clock : Clock}
  {payload : Bytes}

/-! ### Payloads -/

/-- The payload at a path. -/
def payload? (t : Tree) (p : NodePath) : Option Bytes := (t.find? p).map Node.payload

@[simp] theorem isSome_payload? (t : Tree) (p : NodePath) : (t.payload? p).isSome = t.has p := by
  simp [payload?, has]

section Changes

variable {legal : IsSegment name}

theorem payload?_create : ((Change.create p name legal payload).apply clock t).payload? q =
    if q = p.child name legal then some payload else t.payload? q := by
  rw [payload?, find?_create]
  split_ifs
  · rfl
  · rw [Option.map_map]
    rfl
  · rfl

theorem payload?_replace (h : t.has p = true) :
    ((Change.replace p payload).apply clock t).payload? q =
      if q = p then some payload else t.payload? q := by
  obtain ⟨n, hn⟩ := has_iff.mp h
  rw [payload?, find?_replace]
  split_ifs with heq
  · rw [heq, hn]
    rfl
  · rfl

theorem payload?_delete : ((Change.delete p name legal).apply clock t).payload? q =
    if p.child name legal ≤ q then none else t.payload? q := by
  rw [payload?, find?_delete]
  split_ifs
  · rfl
  · rw [Option.map_map]
    rfl
  · rfl

end Changes

/-! ### Agreement -/

/-- An outline has the payloads of a tree, and no others. -/
def Agrees (o : Outline) (t : Tree) : Prop := ∀ p, o.payload? p = t.payload? p

theorem Agrees.has_iff (h : Agrees o t) : o.Has p ↔ t.has p = true := by
  rw [Outline.Has, h p, isSome_payload?]

theorem Agrees.has_eq_false (h : Agrees o t) (hp : ¬ o.Has p) : t.has p = false := by
  rw [← Bool.not_eq_true, ← h.has_iff]
  exact hp

/-- An operation has the same answer on a tree and on an outline, and leads to an outline that
agrees with the tree that it leads to. -/
structure Simulates {α : Type} (r : Result α) (s : Outline.Result α) : Prop where
  answer : s.1 = r.1
  agrees : Agrees s.2 r.2

theorem create_simulates (h : Agrees o t) (clock : Clock) (p : NodePath) (payload : Bytes) :
    Simulates (t.create clock p payload) (o.create p payload) := by
  rcases p.eq_root_or_child with rfl | ⟨q, name, legal, rfl⟩
  · exact ⟨rfl, h⟩
  · rw [Outline.create, if_neg (NodePath.child_ne_root legal)]
    split
    · rename_i hhas
      rw [create_of_has (h.has_iff.mp hhas)]
      exact ⟨rfl, h⟩
    · rename_i hhas
      have hnew := h.has_eq_false hhas
      split
      · rename_i hq
        rw [NodePath.above_child] at hq
        rw [create_of_fits ⟨h.has_iff.mp hq, hnew⟩]
        refine ⟨rfl, fun r => ?_⟩
        rw [payload?_create, ← h r]
        rfl
      · rename_i hq
        rw [NodePath.above_child] at hq ⊢
        rw [create_of_orphan hnew (h.has_eq_false hq)]
        exact ⟨rfl, h⟩

theorem setPayload_simulates (h : Agrees o t) (clock : Clock) (p : NodePath) (payload : Bytes) :
    Simulates (t.setPayload clock p payload) (o.setPayload p payload) := by
  rw [Outline.setPayload]
  split
  · rename_i hhas
    have hp : t.has p = true := h.has_iff.mp hhas
    rw [setPayload_of_has hp]
    refine ⟨rfl, fun q => ?_⟩
    rw [payload?_replace hp, ← h q]
    rfl
  · rename_i hhas
    rw [setPayload_of_absent (h.has_eq_false hhas)]
    exact ⟨rfl, h⟩

theorem write_simulates (h : Agrees o t) (clock : Clock) (p : NodePath) (payload : Bytes) :
    Simulates (t.write clock p payload) (o.write p payload) := by
  rw [Outline.write, write]
  by_cases hhas : o.Has p
  · rw [if_pos hhas, if_pos (h.has_iff.mp hhas)]
    exact setPayload_simulates h clock p payload
  · rw [if_neg hhas, if_neg (by rw [h.has_eq_false hhas]; exact Bool.false_ne_true)]
    exact create_simulates h clock p payload

/-! ### Creating the nodes on a way -/

theorem agrees_fill_root (h : Agrees o t) : Agrees (o.fill .root) t := fun q =>
  Outline.payload?_fill_root.trans (h q)

/-- Filling a way one name further adds one entry, if it is not there. -/
theorem payload?_fill_child (legal : IsSegment name) :
    (o.fill (p.child name legal)).payload? q =
      if q = p.child name legal ∧ ¬ o.Has q then some [] else (o.fill p).payload? q := by
  by_cases hhas : o.Has q
  · rw [Outline.payload?_fill_of_has hhas, Outline.payload?_fill_of_has hhas,
      if_neg fun hq => hq.2 hhas]
  · rw [Outline.payload?_fill_of_not_has hhas, Outline.payload?_fill_of_not_has hhas]
    simp only [NodePath.le_child_iff, hhas, not_false_eq_true, and_true]
    by_cases heq : q = p.child name legal <;> simp only [heq, true_or, false_or, if_true, if_false]

theorem agrees_fill_of_has {legal : IsSegment name} (h : Agrees (o.fill p) t)
    (hchild : t.has (p.child name legal) = true) : Agrees (o.fill (p.child name legal)) t := by
  intro q
  rw [payload?_fill_child, ← h q, if_neg]
  rintro ⟨rfl, hhas⟩
  -- The tree has the child, so it was in the outline before, being too far down to be filled in.
  rcases Outline.has_fill_iff.mp (h.has_iff.mpr hchild) with hold | hle
  · exact hhas hold
  · exact NodePath.not_child_le legal hle

theorem agrees_fill_of_fits {legal : IsSegment name} (h : Agrees (o.fill p) t)
    (hfits : (Change.create p name legal []).Fits t) :
    Agrees (o.fill (p.child name legal)) ((Change.create p name legal []).apply clock t) := by
  intro q
  rw [payload?_fill_child, payload?_create, ← h q]
  by_cases heq : q = p.child name legal
  · have hnew : ¬ o.Has q := by
      intro hhas
      have hfill : t.has q = true := h.has_iff.mp (Outline.has_fill_iff.mpr (Or.inl hhas))
      rw [heq, hfits.2] at hfill
      cases hfill
    rw [if_pos ⟨heq, hnew⟩, if_pos heq]
  · rw [if_neg fun hq => heq hq.1, if_neg heq]

theorem ensure_simulates (hs : t.Sound) (h : Agrees o t) (clock : Clock) (p : NodePath) :
    Simulates (t.ensure clock p) (o.ensure p) := by
  -- After each step the tree has the outline filled up to the node that the step has come to.
  obtain ⟨t', hok, -, hagrees⟩ := hs.ensure_induction (P := fun p t' => Agrees (o.fill p) t') clock
    (agrees_fill_root h)
    (fun hP hchild => agrees_fill_of_has hP hchild)
    (fun hP hfits => agrees_fill_of_fits hP hfits) p
  rw [hok]
  exact ⟨rfl, hagrees⟩

/-! ### Children and deletion -/

/-- In a sound tree the names that a node keeps are those by which its path goes on. -/
theorem children_eq (hs : t.Sound) (h : Agrees o t) (hn : t.find? p = some n) :
    o.children p = n.children := by
  have hmem : (o.finite_names p).toFinset = n.children.toFinset := by
    ext name
    rw [Set.Finite.mem_toFinset, List.mem_toFinset, hs.names hn]
    exact exists_congr fun legal => h.has_iff
  rw [Outline.children, hmem]
  exact (List.toFinset_sort (· ≤ ·) (hs.nodup_children hn)).mpr
    ((hs.sorted hn).imp fun hlt => le_of_lt hlt)

/-- A node of a sound tree has children exactly when there is a node anywhere below it. -/
theorem children_ne_nil_iff (hs : t.Sound) (h : Agrees o t) (hn : t.find? p = some n) :
    n.children ≠ [] ↔ ∃ q, p < q ∧ o.Has q := by
  constructor
  · intro hne
    obtain ⟨name, hname⟩ := List.exists_mem_of_ne_nil n.children hne
    obtain ⟨legal, hchild⟩ := (hs.names hn name).mp hname
    refine ⟨p.child name legal, lt_of_le_not_ge (NodePath.le_child legal) ?_, h.has_iff.mpr hchild⟩
    exact NodePath.not_child_le legal
  · intro hbelow
    obtain ⟨q, hlt, hhas⟩ := hbelow
    rcases NodePath.eq_or_exists_child_le hlt.le with rfl | ⟨name, legal, hle⟩
    · exact absurd hlt (lt_irrefl _)
    · -- The child on the way to the node is there, and so it is named.
      have hchild := hs.above hle (h.has_iff.mp hhas)
      exact List.ne_nil_of_mem ((hs.names hn name).mpr ⟨legal, hchild⟩)

/-- Entries may just as well be told by their texts: those go whose text is the text of the path, or
starts with it and a slash. -/
theorem removeSubtree_eq_filter (t : Tree) (hp : p ≠ .root) :
    t.removeSubtree p = { t with
      nodes := t.nodes.filter fun e =>
        decide ¬ (e.1.render = p.render ∨ (p.render ++ "/").toList <+: e.1.render.toList) } := by
  rw [removeSubtree]
  congr 1
  refine List.filter_congr fun e _ => ?_
  rw [Bool.eq_iff_iff, Bool.not_eq_true', ← Bool.not_eq_true, NodePath.isAtOrAbove_iff,
    decide_eq_true_iff, NodePath.le_iff_text hp]

theorem delete_simulates (hs : t.Sound) (h : Agrees o t) (p : NodePath) (recursive : Bool) :
    Simulates (t.delete p recursive) (o.delete p recursive) := by
  rcases p.eq_root_or_child with rfl | ⟨q, name, legal, rfl⟩
  · exact ⟨rfl, h⟩
  · rw [Outline.delete, dif_neg (NodePath.child_ne_root legal)]
    by_cases hhas : o.Has (q.child name legal)
    · have hchild : t.has (q.child name legal) = true := h.has_iff.mp hhas
      obtain ⟨n, hn⟩ := Tree.has_iff.mp hchild
      rw [if_neg (not_not_intro hhas), ← children_ne_nil_iff hs h hn]
      by_cases hrefused : recursive = false ∧ n.children ≠ []
      · rw [if_pos hrefused, hrefused.1, delete_of_children hn hrefused.2]
        exact ⟨rfl, h⟩
      · have hgo : n.children = [] ∨ recursive = true := by
          rw [not_and_or, Bool.not_eq_false, not_ne_iff] at hrefused
          exact hrefused.symm
        rw [if_neg hrefused, delete_of_fits default ⟨hs.parent hchild, hchild⟩ hn hgo]
        refine ⟨rfl, fun r => ?_⟩
        rw [payload?_delete, ← h r]
        rfl
    · rw [if_pos hhas, delete_of_absent (h.has_eq_false hhas)]
      exact ⟨rfl, h⟩

theorem sizes_eq (hs : t.Sound) (h : Agrees o t) (p : NodePath) :
    o.sizes p = (t.statOf p).map fun s => (s.dataLength, s.numChildren) := by
  cases hn : t.find? p with
  | none =>
    have hpayload : o.payload? p = none := by rw [h p, payload?, hn, Option.map_none]
    simp only [Outline.sizes, statOf, hn, hpayload]
    rfl
  | some n =>
    have hpayload : o.payload? p = some n.payload := by rw [h p, payload?, hn, Option.map_some]
    simp only [Outline.sizes, statOf, hn, hpayload, children_eq hs h hn]
    rfl

theorem listChildren_eq (hs : t.Sound) (h : Agrees o t) (p : NodePath) :
    o.listChildren p = t.childrenOf p := by
  rw [Outline.listChildren, childrenOf]
  cases hn : t.find? p with
  | none =>
    have habsent : ¬ o.Has p := by
      rw [h.has_iff, has, hn]
      exact Bool.false_ne_true
    exact if_neg habsent
  | some n =>
    have hhas : o.Has p := h.has_iff.mpr (Tree.has_iff.mpr ⟨n, hn⟩)
    rw [if_pos hhas, children_eq hs h hn]

/-! ### Texts and documents -/

/-- A result with its answer seen through a function. -/
def see {α β : Type} (view : α → β) (r : Result α) : Result β := (r.1.map view, r.2)

@[simp] theorem see_id {α : Type} (r : Result α) : see id r = r := by
  rcases r with ⟨_ | _, _⟩ <;> rfl

theorem onPath_simulates {α β : Type} {view : α → β} {f : NodePath → Result α}
    {g : NodePath → Outline.Result β} (h : Agrees o t) (path : String)
    (hfg : ∀ p, Simulates (see view (f p)) (g p)) :
    Simulates (see view (withPath path t f)) (o.onPath path g) := by
  unfold withPath NodePath.parse Outline.onPath
  cases NodePath.parse? path with
  | none => exact ⟨rfl, h⟩
  | some p => exact hfg p

theorem seedEntry_simulates (hs : t.Sound) (h : Agrees o t) (clock : Clock) (path : String)
    (value : Json) : Simulates (t.seedEntry clock path value) (o.seedEntry path value) := by
  unfold seedEntry NodePath.parse Outline.seedEntry Outline.onPath
  rcases NodePath.parse? path with _ | p
  · exact ⟨rfl, h⟩
  rcases p.eq_root_or_child with rfl | ⟨q, name, legal, rfl⟩
  · exact write_simulates h clock .root _
  · simp only [if_neg (NodePath.child_ne_root legal), NodePath.above_child, NodePath.parent?_child]
    -- The way to the parent can always be created, so the entry itself is what may fail.
    obtain ⟨t', hok, -⟩ := hs.ensure_ok clock q
    have hfill := (ensure_simulates hs h clock q).agrees
    simp only [hok] at hfill ⊢
    exact write_simulates hfill clock _ _

theorem seed_simulates (hs : t.Sound) (h : Agrees o t) (clock : Clock)
    (entries : List (String × Json)) : Simulates (t.seed clock entries) (o.seed entries) := by
  induction entries generalizing t o with
  | nil => exact ⟨rfl, h⟩
  | cons e entries ih =>
    -- An entry leaves a sound tree behind, and an outline that agrees with it.
    have hsound := hs.seedEntry clock e.1 e.2
    obtain ⟨hanswer, hagrees⟩ := seedEntry_simulates hs h clock e.1 e.2
    rw [seed, Outline.seed]
    rcases ht : t.seedEntry clock e.1 e.2 with ⟨r, t'⟩
    rcases ho : o.seedEntry e.1 e.2 with ⟨r', o'⟩
    rw [ht] at hsound
    rw [ht, ho] at hanswer hagrees
    cases hanswer
    cases r with
    | error e => exact ⟨rfl, hagrees⟩
    | ok _ => exact ih hsound hagrees

/-! ### Calls -/

namespace Call

/-- What can be told of an answer from an outline: of metadata the sizes, and of the answer to an
admin word that there is one. -/
def Seen : Call → Type
  | ask (.describe _) => Int32 × Int32
  | ask (.sendAdmin _) => Unit
  | c => c.Answer

/-- An answer, as far as an outline tells it. -/
def seen : (c : Call) → c.Answer → c.Seen
  | ask (.describe _), stat => (stat.dataLength, stat.numChildren)
  | ask (.sendAdmin _), _ => ()
  | ask (.listChildren _), names => names
  | ask (.readPayload _), payload => payload
  | ask (.pathExists _), isThere => isThere
  | ask (.ensurePath _), _ | ask (.createNode _ _), _ | ask (.setPayload _ _), _
  | ask (.deleteNode _ _), _ | write _ _, _ | seed _, _ => ()

/-- Does a call to an outline. -/
noncomputable def onOutline : (c : Call) → Outline → Outline.Result c.Seen
  | ask (.listChildren path), o => o.onPath path fun p => (o.listChildren p, o)
  | ask (.readPayload path), o => o.onPath path fun p => (.ok (o.payload? p), o)
  | ask (.pathExists path), o => o.onPath path fun p => (.ok (decide (o.Has p)), o)
  | ask (.ensurePath path), o => o.onPath path fun p => o.ensure p
  | ask (.createNode path payload), o => o.onPath path fun p => o.create p payload
  | ask (.setPayload path payload), o => o.onPath path fun p => o.setPayload p payload
  | ask (.deleteNode path recursive), o => o.onPath path fun p => o.delete p recursive
  | ask (.describe path), o => o.onPath path fun p => (o.sizes p, o)
  | ask (.sendAdmin _), o => (.ok (), o)
  | write path payload, o => o.onPath path fun p => o.write p payload
  | seed entries, o => o.seed entries

end Call

theorem Call.simulates (hs : t.Sound) (h : Agrees o t) (clock : Clock) (c : Call) :
    Simulates (see c.seen (c.run clock t)) (c.onOutline o) := by
  have hunit : ∀ r : Result Unit, see (fun _ => ()) r = r := see_id
  cases c with
  | write path payload =>
    exact onPath_simulates h path fun p => hunit _ ▸ write_simulates h clock p payload
  | seed entries =>
    have hseed := seed_simulates hs h clock entries
    exact hunit _ ▸ hseed
  | ask q =>
    cases q with
    | listChildren path =>
      refine onPath_simulates h path fun p => ⟨?_, h⟩
      rw [listChildren_eq hs h]
      exact (congrArg Prod.fst (see_id (t.childrenOf p, t))).symm
    | readPayload path =>
      exact onPath_simulates h path fun p => ⟨congrArg Except.ok (h p), h⟩
    | pathExists path =>
      have hsame : ∀ p, decide (o.Has p) = t.has p := by
        intro p
        rw [Bool.eq_iff_iff, decide_eq_true_iff]
        exact h.has_iff
      exact onPath_simulates h path fun p => ⟨congrArg Except.ok (hsame p), h⟩
    | ensurePath path =>
      exact onPath_simulates h path fun p => hunit _ ▸ ensure_simulates hs h clock p
    | createNode path payload =>
      exact onPath_simulates h path fun p => hunit _ ▸ create_simulates h clock p payload
    | setPayload path payload =>
      exact onPath_simulates h path fun p => hunit _ ▸ setPayload_simulates h clock p payload
    | deleteNode path recursive =>
      exact onPath_simulates h path fun p => hunit _ ▸ delete_simulates hs h p recursive
    | describe path => exact onPath_simulates h path fun p => ⟨sizes_eq hs h p, h⟩
    | sendAdmin word => exact ⟨rfl, h⟩

/-! ### The outline of a reachable tree -/

/-- A sound tree without its bookkeeping. -/
def Sound.outline (h : t.Sound) : Outline where
  payload? := t.payload?
  finite := by
    refine t.keys.finite_toSet.subset fun p hp => has_iff_mem_keys.mp ?_
    rw [← isSome_payload?]
    exact hp
  root := by
    rw [isSome_payload?]
    exact h.root
  closed := by
    intro p q hle hq
    rw [isSome_payload?] at hq ⊢
    exact h.above hle hq

/-- A reachable tree without its bookkeeping. -/
def Reachable.outline (h : Reachable t) : Outline := h.sound.outline

/-- On the tree and on its outline a call has the same answer, failures and their paths included,
and it leads to the outline of the tree that it leads to. -/
theorem Reachable.run_outline (h : Reachable t) (clock : Clock) (c : Call) :
    c.onOutline h.outline = ((c.run clock t).1.map c.seen, (h.call clock c).outline) := by
  obtain ⟨hanswer, hagrees⟩ := c.simulates h.sound (o := h.outline) (fun _ => rfl) clock
  exact Prod.ext hanswer (Outline.ext (funext hagrees))

/-- A node with two levels below it, and two siblings whose names start like its own. -/
def grove : Tree :=
  (empty default).after <| List.map (Prod.mk default)
    [.ask (.ensurePath "/p/c/g"), .ask (.createNode "/p2" [2]), .write "/p-x/" [3]]

theorem reachable_grove : Reachable grove := (Reachable.start default).after _

/-- A node goes with all that is below it, and its siblings stay, whatever their names. -/
theorem run_outline_grove :
    let p := NodePath.root.child "p" (by decide)
    let after := (Call.ask (.deleteNode "/p" true)).onOutline reachable_grove.outline
    after.1 = .ok () ∧ after.2.payload? p = none ∧
      after.2.payload? (p.child "c" (by decide)) = none ∧
      after.2.payload? (NodePath.root.child "p2" (by decide)) = some [2] ∧
      after.2.payload? (NodePath.root.child "p-x" (by decide)) = some [3] := by
  intro p after
  have hrun : after = _ := reachable_grove.run_outline default (.ask (.deleteNode "/p" true))
  rw [hrun]
  refine ⟨rfl, ?_, ?_, ?_, ?_⟩ <;> decide +kernel

end TreeConsole.Tree
