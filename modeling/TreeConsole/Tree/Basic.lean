import TreeConsole.Node.Path
import TreeConsole.Node.Stat
import TreeConsole.Text.Utf8

/-!
# Trees of nodes

A tree is a table of nodes by their paths. Each node lists the names of its children, in order, so
that a child is recorded twice: by its own entry and in its parent. Every change takes the next
change number, and a node remembers the numbers of its creation, of the last change of its payload
and of the last change of its children, with the counts of the latter two.

An operation answers with a value or a failure, and with the tree as it then is. Which failures
leave the tree as it was is a theorem about reachable trees and not a matter of types.

Main statements: `find?_insert`, `find?_adjust` and `find?_removeSubtree` describe the table by its
look-ups.
-/

namespace TreeConsole

/-- The time of each change, in milliseconds, by its number; the root appears at change zero. -/
abbrev Clock := Nat → Int64

/-- What is kept at a path. -/
structure Node where
  payload : Bytes
  /-- The names of the children, in order. -/
  children : List String
  /-- The change that created the node. -/
  created : Nat
  createdAt : Int64
  /-- The last change of the payload. -/
  modified : Nat
  modifiedAt : Int64
  /-- How often the payload was replaced. -/
  version : Nat
  /-- The last change of the children. -/
  childrenModified : Nat
  /-- How often a child was created or deleted. -/
  childrenVersion : Nat
  deriving DecidableEq, Repr, Inhabited

namespace Node

/-- A node without children, made by a change. -/
def fresh (clock : Clock) (change : Nat) (payload : Bytes) : Node where
  payload
  children := []
  created := change
  createdAt := clock change
  modified := change
  modifiedAt := clock change
  version := 0
  childrenModified := change
  childrenVersion := 0

/-- Adds a name where it belongs. -/
def insertName (name : String) : List String → List String
  | [] => [name]
  | n :: names =>
    if name < n then name :: n :: names
    else if name = n then n :: names
    else n :: insertName name names

/-- The node after a change of its children. -/
def withChildren (n : Node) (change : Nat) (children : List String) : Node :=
  { n with children, childrenModified := change, childrenVersion := n.childrenVersion + 1 }

/-- The node after its payload was replaced. -/
def withPayload (n : Node) (clock : Clock) (change : Nat) (payload : Bytes) : Node :=
  { n with payload, modified := change, modifiedAt := clock change, version := n.version + 1 }

/-- A count as a 32-bit number; a greater one is shown as the greatest there is. -/
def clampedCount (n : Nat) : Int32 := Int32.ofNat (min n 0x7fffffff)

/-- The metadata of a node. -/
def stat (n : Node) : NodeStat where
  czxid := Int64.ofNat n.created
  mzxid := Int64.ofNat n.modified
  pzxid := Int64.ofNat n.childrenModified
  ctime := n.createdAt
  mtime := n.modifiedAt
  version := Int32.ofNat n.version
  cversion := Int32.ofNat n.childrenVersion
  dataLength := clampedCount n.payload.length
  numChildren := clampedCount n.children.length

theorem mem_insertName {name x : String} {names : List String} :
    x ∈ insertName name names ↔ x = name ∨ x ∈ names := by
  induction names with
  | nil => simp [insertName]
  | cons n names ih =>
    simp only [insertName]
    split
    · simp
    · split
      · rename_i h
        subst h
        simp
      · simp only [List.mem_cons, ih]
        exact or_left_comm

end Node

/-- A tree of nodes. -/
structure Tree where
  nodes : List (NodePath × Node)
  /-- The number of the last change. -/
  lastChange : Nat
  deriving Repr, Inhabited

namespace Tree

/-! ### The table -/

/-- The tree with only a root. -/
def empty (clock : Clock) : Tree := ⟨[(.root, .fresh clock 0 [])], 0⟩

/-- The node at a path. -/
def find? (t : Tree) (p : NodePath) : Option Node := t.nodes.lookup p

/-- Whether there is a node at a path. -/
def has (t : Tree) (p : NodePath) : Bool := (t.find? p).isSome

/-- The number of nodes, the root among them. -/
def size (t : Tree) : Nat := t.nodes.length

/-- The number of bytes in all payloads. -/
def payloadSize (t : Tree) : Nat := t.nodes.foldr (fun e n => e.2.payload.length + n) 0

/-- Takes the next change number. -/
def advance (t : Tree) : Tree := { t with lastChange := t.lastChange + 1 }

/-- Adds an entry to the table. -/
def insert (t : Tree) (p : NodePath) (n : Node) : Tree := { t with nodes := (p, n) :: t.nodes }

/-- Changes the node at a path. -/
def adjust (t : Tree) (p : NodePath) (f : Node → Node) : Tree :=
  { t with nodes := t.nodes.map fun e => if e.1 = p then (e.1, f e.2) else e }

/-- Removes a node and everything below it. -/
def removeSubtree (t : Tree) (p : NodePath) : Tree :=
  { t with nodes := t.nodes.filter fun e => !p.isAtOrAbove e.1 }

/-! ### Operations -/

/-- The result of an operation: its answer and the tree after it. -/
abbrev Result (α : Type) := Except NodeError α × Tree

/-- Records a change of the children of a node. -/
def touch (t : Tree) (parent : NodePath) (f : List String → List String) : Result Unit :=
  match t.find? parent with
  | none => (.error (.noNode parent.render), t)
  | some _ => (.ok (), t.adjust parent fun n => n.withChildren t.lastChange (f n.children))

/-- Creates one node; its parent must be there. -/
def create (clock : Clock) (p : NodePath) (payload : Bytes) (t : Tree) : Result Unit :=
  match p.parent? with
  | none => (.error (.invalidPath p.render), t)
  | some (parent, name) =>
    -- A node that is there is reported even when its parent is not.
    if t.has p then (.error (.nodeExists p.render), t)
    else if !t.has parent then (.error (.noNode parent.render), t)
    else
      match t.advance.touch parent (Node.insertName name) with
      | (.error e, t) => (.error e, t)
      | (.ok _, t) => (.ok (), t.insert p (.fresh clock t.lastChange payload))

/-- Creates the nodes of a list that are missing, one after the other. -/
def ensureEach (clock : Clock) : List NodePath → Tree → Result Unit
  | [], t => (.ok (), t)
  | p :: ps, t =>
    if t.has p then ensureEach clock ps t
    else
      match t.create clock p [] with
      | (.error e, t) => (.error e, t)
      | (.ok _, t) => ensureEach clock ps t

/-- Creates every missing node on the way to a path. -/
def ensure (clock : Clock) (p : NodePath) (t : Tree) : Result Unit :=
  t.ensureEach clock p.waypoints

/-- Replaces the payload of a node. -/
def setPayload (clock : Clock) (p : NodePath) (payload : Bytes) (t : Tree) : Result Unit :=
  match t.find? p with
  | none => (.error (.noNode p.render), t)
  | some _ =>
    let t := t.advance
    (.ok (), t.adjust p fun n => n.withPayload clock t.lastChange payload)

/-- Replaces the payload of a node, or creates the node with it. -/
def write (clock : Clock) (p : NodePath) (payload : Bytes) (t : Tree) : Result Unit :=
  if t.has p then t.setPayload clock p payload else t.create clock p payload

/-- Deletes a node, and everything below it if asked to. -/
def delete (p : NodePath) (recursive : Bool) (t : Tree) : Result Unit :=
  match p.parent? with
  | none => (.error (.invalidPath p.render), t)
  | some (parent, name) =>
    match t.find? p with
    | none => (.error (.noNode p.render), t)
    | some n =>
      if !n.children.isEmpty && !recursive then (.error (.notEmpty p.render), t)
      -- The number of the change is taken before the parent records it.
      else (t.advance.removeSubtree p).touch parent fun names => names.erase name

/-! ### Look-ups -/

theorem has_iff {t : Tree} {p : NodePath} : t.has p = true ↔ ∃ n, t.find? p = some n := by
  simp [has, Option.isSome_iff_exists]

@[simp] theorem find?_advance (t : Tree) (p : NodePath) : t.advance.find? p = t.find? p := rfl

theorem find?_insert (t : Tree) (p q : NodePath) (n : Node) :
    (t.insert p n).find? q = if q = p then some n else t.find? q := by
  by_cases h : q = p
  · simp [insert, find?, h]
  · simp [insert, find?, List.lookup_cons, h, beq_eq_false_iff_ne.mpr h]

theorem find?_adjust (t : Tree) (p q : NodePath) (f : Node → Node) :
    (t.adjust p f).find? q = if q = p then (t.find? q).map f else t.find? q := by
  obtain ⟨nodes, last⟩ := t
  simp only [adjust, find?]
  induction nodes with
  | nil => simp
  | cons e nodes ih =>
    obtain ⟨k, n⟩ := e
    by_cases hk : q = k
    · subst hk
      by_cases hp : q = p <;> simp [hp]
    · have hb := beq_eq_false_iff_ne.mpr hk
      by_cases hp : k = p
      · subst hp
        simp only [List.map_cons, if_true, List.lookup_cons, hb]
        exact ih
      · simp only [List.map_cons, if_neg hp, List.lookup_cons, hb]
        exact ih

theorem find?_removeSubtree (t : Tree) (p q : NodePath) :
    (t.removeSubtree p).find? q = if p.isAtOrAbove q then none else t.find? q := by
  obtain ⟨nodes, last⟩ := t
  simp only [removeSubtree, find?]
  induction nodes with
  | nil => simp
  | cons e nodes ih =>
    obtain ⟨k, n⟩ := e
    by_cases hp : p.isAtOrAbove k
    · rw [List.filter_cons_of_neg (by simp [hp]), ih]
      by_cases hk : q = k
      · subst hk; simp [hp]
      · simp [List.lookup_cons, beq_eq_false_iff_ne.mpr hk]
    · rw [List.filter_cons_of_pos (by simp [hp])]
      by_cases hk : q = k
      · subst hk; simp [hp]
      · simp only [List.lookup_cons, beq_eq_false_iff_ne.mpr hk]
        exact ih

end Tree
end TreeConsole
