import TreeConsole.Client.Basic
import TreeConsole.Tree.Admin

/-!
# A tree as a store

The client that answers requests from a tree. Every text is read as a node path first, and one that
is none fails whatever was asked.

Main statements: `client_answer_of_invalid`, and that the requests which do not mutate leave the
tree as it is (`client_answer_snd_of_reads`).
-/

namespace TreeConsole.Tree

/-- Reads a path, then asks the tree. -/
def withPath {α : Type} (path : String) (t : Tree) (f : NodePath → Result α) : Result α :=
  match NodePath.parse path with
  | .error e => (.error e, t)
  | .ok p => f p

/-- The names of the children of a node. -/
def childrenOf (t : Tree) (p : NodePath) : Except NodeError (List String) :=
  match t.find? p with
  | none => .error (.noNode p.render)
  | some n => .ok n.children

/-- The metadata of a node. -/
def statOf (t : Tree) (p : NodePath) : Except NodeError NodeStat :=
  match t.find? p with
  | none => .error (.noNode p.render)
  | some n => .ok n.stat

/-- Answers a request from a tree. -/
def answer (clock : Clock) : (q : Request) → Tree → Result q.Answer
  | .listChildren path, t => withPath path t fun p => (t.childrenOf p, t)
  | .readPayload path, t => withPath path t fun p => (.ok ((t.find? p).map Node.payload), t)
  | .pathExists path, t => withPath path t fun p => (.ok (t.has p), t)
  | .ensurePath path, t => withPath path t fun p => t.ensure clock p
  | .createNode path payload, t => withPath path t fun p => t.create clock p payload
  | .setPayload path payload, t => withPath path t fun p => t.setPayload clock p payload
  | .deleteNode path recursive, t => withPath path t fun p => t.delete p recursive
  | .describe path, t => withPath path t fun p => (t.statOf p, t)
  | .sendAdmin word, t => (.ok (t.answerAdmin word), t)

/-- The store that keeps its nodes in a tree. -/
def client (clock : Clock) : Client Tree := ⟨answer clock⟩

theorem client_answer_of_invalid (clock : Clock) (q : Request) (t : Tree)
    (hq : ∀ word, q ≠ .sendAdmin word) (h : NodePath.parse? q.target = none) :
    (client clock).answer q t = (.error (.invalidPath q.target), t) := by
  cases q with
  | sendAdmin word => exact absurd rfl (hq word)
  | _ => simp_all [client, answer, withPath, NodePath.parse, Request.target]

theorem client_answer_snd_of_reads (clock : Clock) (q : Request) (t : Tree)
    (h : q.mutates = false) : ((client clock).answer q t).2 = t := by
  cases q with
  | ensurePath | createNode | setPayload | deleteNode => simp [Request.mutates] at h
  | sendAdmin word => rfl
  | listChildren path | readPayload path | pathExists path | describe path =>
    simp only [client, answer, withPath]
    split <;> rfl

end TreeConsole.Tree
