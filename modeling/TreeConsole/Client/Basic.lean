import TreeConsole.Node.Path
import TreeConsole.Node.Stat
import TreeConsole.Text.Utf8

/-!
# Requests to a store

The shell reaches its store through requests, each with an answer of its own type. A client answers
requests over some state; what the state is, and whether it can fail, is the client's business.
Because a request is a value, what a line asks of the store can be listed, refused or compared.

There is no request for writing a payload whether or not its node is there. A client could answer
such a request in its own way, but none does: it always comes down to asking whether the node is
there and then setting the payload or creating the node, and those are the requests that are made
(see `Command.store`).

Main statement: `mutates_eq_true_iff` lists the requests that can change a store.
-/

namespace TreeConsole

/-- What can be asked of a store. Paths are texts as they were typed. -/
inductive Request where
  /-- The names of the children. -/
  | listChildren (path : String)
  /-- The payload, if the node is there. -/
  | readPayload (path : String)
  | pathExists (path : String)
  /-- Creates every missing node on the way. -/
  | ensurePath (path : String)
  | createNode (path : String) (payload : Bytes)
  | setPayload (path : String) (payload : Bytes)
  | deleteNode (path : String) (recursive : Bool)
  /-- The metadata. -/
  | describe (path : String)
  | sendAdmin (word : String)
  deriving DecidableEq, Repr

namespace Request

/-- The type of the answer to a request. -/
def Answer : Request → Type
  | listChildren _ => List String
  | readPayload _ => Option Bytes
  | pathExists _ => Bool
  | ensurePath _ | createNode _ _ | setPayload _ _ | deleteNode _ _ => Unit
  | describe _ => NodeStat
  | sendAdmin _ => String

/-- Whether a request can change the store. -/
def mutates : Request → Bool
  | ensurePath _ | createNode _ _ | setPayload _ _ | deleteNode _ _ => true
  | _ => false

/-- The name of a request. -/
def name : Request → String
  | listChildren _ => "list_children"
  | readPayload _ => "read_payload"
  | pathExists _ => "path_exists"
  | ensurePath _ => "ensure_path"
  | createNode _ _ => "create_node"
  | setPayload _ _ => "set_payload"
  | deleteNode _ _ => "delete_node"
  | describe _ => "describe"
  | sendAdmin _ => "send_admin"

/-- What a request is about: a path, or an admin word. -/
def target : Request → String
  | listChildren path | readPayload path | pathExists path | ensurePath path
  | createNode path _ | setPayload path _ | deleteNode path _ | describe path => path
  | sendAdmin word => word

theorem mutates_eq_true_iff {q : Request} :
    q.mutates = true ↔
      (∃ path, q = ensurePath path) ∨ (∃ path payload, q = createNode path payload) ∨
        (∃ path payload, q = setPayload path payload) ∨
          ∃ path recursive, q = deleteNode path recursive := by
  cases q <;> simp [mutates]

end Request

/-- Answers requests over a state. -/
structure Client (σ : Type) where
  answer : (q : Request) → σ → Except NodeError q.Answer × σ

namespace Client

variable {σ : Type}

/-- The client that keeps a list of the requests made to another, refused ones included. -/
def recorded (c : Client σ) : Client (σ × List Request) where
  answer q s :=
    let r := c.answer q s.1
    (r.1, r.2, s.2 ++ [q])

/-- The client that may refuse a request before another sees it. Whether it does, and with which
failure, is decided over a state of its own. -/
def interrupted {ω : Type} (c : Client σ) (refuse : Request → ω → Option NodeError × ω) :
    Client (σ × ω) where
  answer q s :=
    match refuse q s.2 with
    | (some e, w) => (.error e, s.1, w)
    | (none, w) =>
      let r := c.answer q s.1
      (r.1, r.2, w)

@[simp] theorem recorded_answer_fst (c : Client σ) (q : Request) (s : σ) (log : List Request) :
    (c.recorded.answer q (s, log)).1 = (c.answer q s).1 := rfl

@[simp] theorem recorded_answer_snd (c : Client σ) (q : Request) (s : σ) (log : List Request) :
    (c.recorded.answer q (s, log)).2 = ((c.answer q s).2, log ++ [q]) := rfl

end Client
end TreeConsole
