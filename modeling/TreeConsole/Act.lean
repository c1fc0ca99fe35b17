import TreeConsole.ShellError

/-!
# Acts

Work on a state that gives a value or fails. A failure does not undo anything: the state after the
work is there in both cases, and whether it differs from the state before is for a theorem to say.

Main statements: `bind_of_ok` and `bind_of_error` run two acts one after the other; `lawful` has
the laws of a monad.
-/

namespace TreeConsole

/-- Work on a state. -/
def Act (ω α : Type) : Type := ω → Except ShellError α × ω

namespace Act

variable {ω α β : Type}

/-- Does an act in a state. -/
def run (a : Act ω α) (w : ω) : Except ShellError α × ω := a w

/-- Gives a value and leaves the state as it is. -/
def done (x : α) : Act ω α := fun w => (.ok x, w)

/-- Fails and leaves the state as it is. -/
def fail (e : ShellError) : Act ω α := fun w => (.error e, w)

/-- Reads off the state. -/
def view (f : ω → α) : Act ω α := fun w => (.ok (f w), w)

/-- Changes the state. -/
def update (f : ω → ω) : Act ω Unit := fun w => (.ok (), f w)

/-- One act, and another with its value unless it failed. -/
def andThen (a : Act ω α) (f : α → Act ω β) : Act ω β := fun w =>
  match a w with
  | (.ok x, w) => f x w
  | (.error e, w) => (.error e, w)

instance : Monad (Act ω) where
  pure := done
  bind := andThen

@[simp] theorem run_pure (x : α) (w : ω) : (pure x : Act ω α).run w = (.ok x, w) := rfl

@[simp] theorem run_fail (e : ShellError) (w : ω) : (fail e : Act ω α).run w = (.error e, w) := rfl

@[simp] theorem run_view (f : ω → α) (w : ω) : (view f).run w = (.ok (f w), w) := rfl

@[simp] theorem run_update (f : ω → ω) (w : ω) : (update f).run w = (.ok (), f w) := rfl

theorem bind_of_ok {a : Act ω α} {f : α → Act ω β} {w w' : ω} {x : α}
    (h : a.run w = (.ok x, w')) : (a >>= f).run w = (f x).run w' := by
  simp only [run] at h
  simp [run, bind, andThen, h]

theorem bind_of_error {a : Act ω α} {f : α → Act ω β} {w w' : ω} {e : ShellError}
    (h : a.run w = (.error e, w')) : (a >>= f).run w = (.error e, w') := by
  simp only [run] at h
  simp [run, bind, andThen, h]

instance lawful : LawfulMonad (Act ω) :=
  LawfulMonad.mk' _
    (fun a => by
      funext w
      change andThen a done w = a w
      simp only [andThen]
      split <;> simp_all [done])
    (fun _ _ => rfl)
    (fun a f g => by
      funext w
      change andThen (andThen a f) g w = andThen a (fun x => andThen (f x) g) w
      simp only [andThen]
      cases a w with
      | mk r w => cases r <;> rfl)

end Act
end TreeConsole
