import TreeConsole.Act

/-!
# What acts guarantee

A triple says of an act what may be relied on after it, given what was known before it. The result
is part of what may be spoken of, since an act that failed often leaves more in place than one that
went through. Triples of two acts are put together at the state between them.

Two acts on states of different sorts may do the same, as far as a relation between the states
tells. To keep a property is to do the same as oneself, for states that are equal and have it.

## Main definitions

* `Triple`
* `Keeps` — what held before the act holds after it, whatever the result
* `Spares` — what held before the act holds after it if it failed
* `Returns` — the values that an act gives are of a sort
* `Alike` — two acts do the same

## Main results

* `Triple.bind`, and from it `Keeps.bind` and `Spares.bind`
* `error_of_bind` — where a failure comes from
* `Alike.bind`, and `keeps_iff_alike`
-/

namespace TreeConsole.Act

variable {ω α β : Type} {P : ω → Prop} {a : Act ω α} {f : α → Act ω β}

/-- Done in a state with the first property, an act leads to a result and a state with the
second. -/
def Triple (P : ω → Prop) (a : Act ω α) (Q : Except ShellError α → ω → Prop) : Prop :=
  ∀ w, P w → Q (a.run w).1 (a.run w).2

/-- An act keeps a property of the state. -/
def Keeps (P : ω → Prop) (a : Act ω α) : Prop := Triple P a fun _ => P

/-- An act keeps a property of the state when it fails. -/
def Spares (P : ω → Prop) (a : Act ω α) : Prop := Triple P a fun r w => ∀ e, r = .error e → P w

/-- Every value that an act gives is of a sort. -/
def Returns (V : α → Prop) (a : Act ω α) : Prop :=
  Triple (fun _ => True) a fun r _ => ∀ x, r = .ok x → V x

/-- What holds between two acts is what the first leads to and the second starts from. A failure of
the first is a failure of both. -/
theorem Triple.bind {R : Except ShellError α → ω → Prop} {Q : Except ShellError β → ω → Prop}
    (ha : Triple P a R) (hf : ∀ x, Triple (R (.ok x)) (f x) Q)
    (he : ∀ e w, R (.error e) w → Q (.error e) w) : Triple P (a >>= f) Q := by
  intro w hw
  have hR := ha w hw
  rcases hrun : a.run w with ⟨e | x, w'⟩
  · rw [hrun] at hR
    rw [bind_of_error hrun]
    exact he e w' hR
  · rw [hrun] at hR
    rw [bind_of_ok hrun]
    exact hf x w' hR

/-- Of two acts that fail, the first failed, or the second did where the first had led. -/
theorem error_of_bind {w : ω} {e : ShellError} (h : ((a >>= f).run w).1 = .error e) :
    (a.run w).1 = .error e ∨
      ∃ x, (a.run w).1 = .ok x ∧ ((f x).run (a.run w).2).1 = .error e := by
  rcases hrun : a.run w with ⟨e' | x, w'⟩
  · rw [bind_of_error hrun] at h
    cases h
    exact Or.inl rfl
  · rw [bind_of_ok hrun] at h
    exact Or.inr ⟨x, rfl, h⟩

/-- From states that are related two acts have the same result and lead to states that are
related. -/
def Alike {ω' : Type} (R : ω' → ω → Prop) (a' : Act ω' α) (a : Act ω α) : Prop :=
  ∀ w' w, R w' w → (a'.run w').1 = (a.run w).1 ∧ R (a'.run w').2 (a.run w).2

/-! ### Acts that keep a property -/

theorem keeps_pure (x : α) : Keeps P (pure x : Act ω α) := fun _ hw => hw

theorem keeps_update {g : ω → ω} (h : ∀ w, P w → P (g w)) : Keeps P (update g) := h

theorem Keeps.bind (ha : Keeps P a) (hf : ∀ x, Keeps P (f x)) : Keeps P (a >>= f) :=
  Triple.bind ha hf fun _ _ hw => hw

/-! ### Acts that keep a property when they fail -/

theorem Spares.bind (ha : Keeps P a) (hf : ∀ x, Spares P (f x)) : Spares P (a >>= f) :=
  Triple.bind ha hf fun _ _ hw _ _ => hw

/-! ### Acts with values of a sort -/

theorem returns_pure {V : α → Prop} {x : α} (h : V x) : Returns V (pure x : Act ω α) := by
  intro w _ y hy
  cases hy
  exact h

/-- The last act alone gives the value. -/
theorem Returns.bind {V : β → Prop} (hf : ∀ x, Returns V (f x)) : Returns V (a >>= f) :=
  Triple.bind (R := fun _ _ => True) (fun _ _ => trivial) hf fun _ _ _ _ hy => by cases hy

/-! ### Acts that do the same -/

section Alike

variable {ω' : Type} {R : ω' → ω → Prop} {a' : Act ω' α} {f' : α → Act ω' β}

theorem alike_pure (x : α) : Alike R (pure x) (pure x) := fun _ _ hR => ⟨rfl, hR⟩

theorem alike_fail (e : ShellError) : Alike R (fail e : Act ω' α) (fail e) :=
  fun _ _ hR => ⟨rfl, hR⟩

theorem alike_view {g' : ω' → α} {g : ω → α} (h : ∀ w' w, R w' w → g' w' = g w) :
    Alike R (view g') (view g) := fun w' w hR => ⟨congrArg Except.ok (h w' w hR), hR⟩

theorem alike_update {g' : ω' → ω'} {g : ω → ω} (h : ∀ w' w, R w' w → R (g' w') (g w)) :
    Alike R (update g') (update g) := fun w' w hR => ⟨rfl, h w' w hR⟩

theorem Alike.bind (ha : Alike R a' a) (hf : ∀ x, Alike R (f' x) (f x)) :
    Alike R (a' >>= f') (a >>= f) := by
  intro w' w hR
  obtain ⟨hresult, hstate⟩ := ha w' w hR
  rcases hrun' : a'.run w' with ⟨r', v'⟩
  rcases hrun : a.run w with ⟨r, v⟩
  rw [hrun', hrun] at hresult hstate
  -- Both failed with the same failure, or both go on with the same value.
  cases hresult
  cases r' with
  | error e =>
    rw [bind_of_error hrun', bind_of_error hrun]
    exact ⟨rfl, hstate⟩
  | ok x =>
    rw [bind_of_ok hrun', bind_of_ok hrun]
    exact hf x v' v hstate

/-- An act keeps a property when it does the same as itself on states that are equal and have it. -/
theorem keeps_iff_alike : Keeps P a ↔ Alike (fun w' w => w' = w ∧ P w) a a := by
  constructor
  · rintro h w' w ⟨rfl, hw⟩
    exact ⟨rfl, rfl, h w' hw⟩
  · intro h w hw
    exact (h w w ⟨rfl, hw⟩).2.2

end Alike

end TreeConsole.Act
