import TreeConsole.Decimal.Shortest

/-!
# JSON values

Values as they are kept after reading: integers of 64 bits stay integers, other numbers are
floating-point, and the fields of an object stand in the order of their keys, each key once.

Main statements: `insertField` keeps the order (`pairwise_insertField`) and answers a look-up of
the key it was given (`lookup_insertField_self`).
-/

namespace TreeConsole

/-- A JSON number. -/
inductive JsonNumber where
  /-- An integer in the range of 64 bits, signed or unsigned. -/
  | int (n : Int)
  | float (x : Binary64)
  deriving DecidableEq, Repr, Inhabited

/-- A JSON value. -/
inductive Json where
  | null
  | bool (b : Bool)
  | num (n : JsonNumber)
  | str (s : String)
  | arr (items : List Json)
  | obj (fields : List (String × Json))
  deriving Repr, Inhabited

namespace Json

/-- Adds a field where its key belongs; a field of the same key is replaced. -/
def insertField {α : Type} (key : String) (value : α) : List (String × α) → List (String × α)
  | [] => [(key, value)]
  | (k, v) :: fields =>
    if key < k then (key, value) :: (k, v) :: fields
    else if k = key then (key, value) :: fields
    else (k, v) :: insertField key value fields

/-- An object of some fields; of two fields with one key the later counts. -/
def ofFields (fields : List (String × Json)) : Json :=
  .obj (fields.foldl (fun fs f => insertField f.1 f.2 fs) [])

/-- A field of an object. -/
def get? : Json → String → Option Json
  | obj fields, key => fields.lookup key
  | _, _ => none

theorem lookup_insertField_self {α : Type} (key : String) (value : α)
    (fields : List (String × α)) : (insertField key value fields).lookup key = some value := by
  induction fields with
  | nil => simp [insertField]
  | cons f fields ih =>
    obtain ⟨k, v⟩ := f
    simp only [insertField]
    split
    · simp
    · split
      · simp
      · rename_i hne
        simp [List.lookup_cons, beq_eq_false_iff_ne.mpr (Ne.symm hne), ih]

theorem mem_keys_insertField {α : Type} {key k : String} {value : α}
    {fields : List (String × α)} (h : k ∈ (insertField key value fields).map Prod.fst) :
    k = key ∨ k ∈ fields.map Prod.fst := by
  induction fields with
  | nil => simpa [insertField] using h
  | cons f fields ih =>
    obtain ⟨k', v'⟩ := f
    simp only [insertField] at h
    split at h
    · simpa using h
    · split at h
      · rename_i heq
        simp only [List.map_cons, List.mem_cons] at h ⊢
        rcases h with h | h
        · exact .inl h
        · exact .inr (.inr h)
      · simp only [List.map_cons, List.mem_cons] at h ⊢
        rcases h with h | h
        · exact .inr (.inl h)
        · exact (ih h).imp id .inr

/-- Keys that stand in strictly ascending order still do when a field is added. -/
theorem pairwise_insertField {α : Type} (key : String) (value : α) {fields : List (String × α)}
    (h : (fields.map Prod.fst).Pairwise (· < ·)) :
    ((insertField key value fields).map Prod.fst).Pairwise (· < ·) := by
  induction fields with
  | nil => simp [insertField]
  | cons f fields ih =>
    obtain ⟨k, v⟩ := f
    simp only [List.map_cons, List.pairwise_cons] at h
    simp only [insertField]
    split
    · rename_i hlt
      simp only [List.map_cons, List.pairwise_cons, List.mem_cons]
      refine ⟨?_, h⟩
      rintro a (rfl | ha)
      · exact hlt
      · exact String.lt_trans hlt (h.1 a ha)
    · split
      · rename_i heq
        subst heq
        simpa using h
      · rename_i hlt hne
        simp only [List.map_cons, List.pairwise_cons]
        refine ⟨fun a ha => ?_, ih h.2⟩
        rcases mem_keys_insertField ha with rfl | ha
        · have hle := String.not_lt.mp hlt
          exact String.not_le.mp fun hge => hne (String.le_antisymm hle hge)
        · exact h.1 a ha

end Json
end TreeConsole
