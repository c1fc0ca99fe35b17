import TreeConsole.ShellError
import TreeConsole.Text.Utf8

/-!
# Editors

Whoever edits a payload for the user: a program on a file, or a list of edits laid out in
advance. An editor works over a state of its own, and either gives the payload back, changed or not,
or fails. It may fail with any failure of the shell, though there is one that is meant for it, and
the editors here fail with that one only.

Main statement: `failsAsEditor_scripted`.
-/

namespace TreeConsole

/-- Edits the payload of a node, over a state. -/
structure Editor (ε : Type) where
  edit : (path : String) → (payload : Bytes) → ε → Except ShellError Bytes × ε

/-- One edit that was laid out in advance. -/
inductive Edit where
  | replace (payload : Bytes)
  | append (payload : Bytes)
  | keep
  /-- The editor fails. -/
  | refuse (reason : String)
  deriving DecidableEq, Repr, Inhabited

/-- The payload after an edit. -/
def Edit.apply (payload : Bytes) : Edit → Except ShellError Bytes
  | replace new => .ok new
  | append more => .ok (payload ++ more)
  | keep => .ok payload
  | refuse reason => .error (.editor reason)

namespace Editor

variable {ε : Type}

/-- The editor fails with the failure that is meant for editors, and with no other. -/
def FailsAsEditor (editor : Editor ε) : Prop :=
  ∀ path payload s e, (editor.edit path payload s).1 = .error e → ∃ reason, e = .editor reason

/-- The editor that makes the edits of a list, then none. -/
def scripted : Editor (List Edit) where
  edit _ payload
    | [] => (.ok payload, [])
    | e :: edits => (e.apply payload, edits)

/-- The editor that keeps a list of what another was given. -/
def recorded (e : Editor ε) : Editor (ε × List (String × Bytes)) where
  edit path payload s :=
    let r := e.edit path payload s.1
    (r.1, r.2, s.2 ++ [(path, payload)])

theorem failsAsEditor_scripted : scripted.FailsAsEditor := by
  intro path payload edits e h
  cases edits with
  | nil => cases h
  | cons edit edits =>
    cases edit with
    | refuse reason =>
      cases h
      exact ⟨reason, rfl⟩
    | replace | append | keep => cases h

theorem FailsAsEditor.recorded {editor : Editor ε} (h : editor.FailsAsEditor) :
    editor.recorded.FailsAsEditor :=
  fun path payload s => h path payload s.1

end Editor
end TreeConsole
