import TreeConsole.Act
import TreeConsole.Client.Basic
import TreeConsole.Editor.Basic
import TreeConsole.Session

/-!
# Desks

What a command has at hand while it runs: a store behind a client, the session, and an editor. A
request that fails is reported in the words of the shell; an editor fails in them anyway.

Main statements: `run_request` and `run_openEditor`.
-/

namespace TreeConsole

/-- What a command works on. -/
structure Desk (σ ε : Type) where
  /-- The state of the store. -/
  store : σ
  session : Session
  /-- The state of the editor. -/
  editor : ε

namespace Desk

variable {σ ε : Type}

/-- Asks the store. -/
def request (client : Client σ) (q : Request) : Act (Desk σ ε) q.Answer := fun d =>
  match client.answer q d.store with
  | (.ok a, store) => (.ok a, { d with store })
  | (.error e, store) => (.error (.ofNodeError e), { d with store })

/-- Has a payload edited. -/
def openEditor (editor : Editor ε) (path : String) (payload : Bytes) : Act (Desk σ ε) Bytes :=
  fun d =>
    let r := editor.edit path payload d.editor
    (r.1, { d with editor := r.2 })

/-- Changes the session. -/
def updateSession (f : Session → Session) : Act (Desk σ ε) Unit :=
  Act.update fun d => { d with session := f d.session }

theorem run_request (client : Client σ) (q : Request) (d : Desk σ ε) :
    (request client q).run d =
      ((client.answer q d.store).1.mapError ShellError.ofNodeError,
        { d with store := (client.answer q d.store).2 }) := by
  simp only [request, Act.run]
  rcases client.answer q d.store with ⟨_ | a, store⟩ <;> rfl

theorem run_openEditor (editor : Editor ε) (path : String) (payload : Bytes) (d : Desk σ ε) :
    (openEditor editor path payload).run d =
      ((editor.edit path payload d.editor).1,
        { d with editor := (editor.edit path payload d.editor).2 }) := rfl

end Desk
end TreeConsole
