import TreeConsole.Proofs.Json.Tokens

/-!
# Exact values

Values that hold no floating-point number and keep the fields of each object in order. An object is
made of fields one after the other, where each goes to the place of its key and takes the place of
an earlier one with the same key. So fields in order stay as they are, and of all others the last
one of each key is kept.

## Main definitions

* `Json.IsExact` — the values that reading gives back as they are
* `Json.depth` — how deep containers stand inside each other

## Main results

* `Json.ofFields_of_pairwise` — fields in order stay as they are
* `Json.ofFields_eq_iff` — what an object keeps of its fields
-/

namespace TreeConsole.Json

variable {d : Nat} {v : Json} {fs gs : List (String × Json)} {k : String}

/-! ### Values without loss -/

mutual

/-- Values that are read back as they are: numbers are integers of 64 bits, and the fields of an
object stand in the order of their keys, each key once. -/
def IsExact : Json → Prop
  | null => True
  | bool _ => True
  | num (.int n) => IsWord n
  | num (.float _) => False
  | str _ => True
  | arr items => AreExact items
  | obj fields => (fields.map Prod.fst).Pairwise (· < ·) ∧ HoldExact fields

/-- The items of an array are exact. -/
def AreExact : List Json → Prop
  | [] => True
  | v :: vs => v.IsExact ∧ AreExact vs

/-- The fields of an object hold exact values. -/
def HoldExact : List (String × Json) → Prop
  | [] => True
  | (_, v) :: fs => v.IsExact ∧ HoldExact fs

end

mutual

/-- How deep containers stand inside each other. -/
def depth : Json → Nat
  | arr items => itemsDepth items + 1
  | obj fields => fieldsDepth fields + 1
  | _ => 0

/-- The depth of the deepest item. -/
def itemsDepth : List Json → Nat
  | [] => 0
  | v :: vs => max v.depth (itemsDepth vs)

/-- The depth of the deepest field. -/
def fieldsDepth : List (String × Json) → Nat
  | [] => 0
  | (_, v) :: fs => max v.depth (fieldsDepth fs)

end

theorem holdExact_iff : HoldExact fs ↔ ∀ f ∈ fs, f.2.IsExact := by
  induction fs with
  | nil => simp [HoldExact]
  | cons f fs ih => rw [HoldExact, ih, List.forall_mem_cons]

theorem fieldsDepth_le_iff : fieldsDepth fs ≤ d ↔ ∀ f ∈ fs, f.2.depth ≤ d := by
  induction fs with
  | nil => simp [fieldsDepth]
  | cons f fs ih => rw [fieldsDepth, Nat.max_le, ih, List.forall_mem_cons]

/-! ### Fields in order -/

theorem insertField_nil (k : String) (v : Json) : insertField k v [] = [(k, v)] := rfl

theorem insertField_of_lt {k k' : String} (h : k < k') (v v' : Json)
    (fields : List (String × Json)) :
    insertField k v ((k', v') :: fields) = (k, v) :: (k', v') :: fields := by
  rw [insertField, if_pos h]

theorem insertField_of_gt {k k' : String} (h : k' < k) (v v' : Json)
    (fields : List (String × Json)) :
    insertField k v ((k', v') :: fields) = (k', v') :: insertField k v fields := by
  have hnot : ¬ k < k' := fun hgt => String.lt_irrefl k (String.lt_trans hgt h)
  have hne : k' ≠ k := fun heq => String.lt_irrefl k (heq ▸ h)
  rw [insertField, if_neg hnot, if_neg hne]

/-- A field whose key is greater than all others belongs at the end. -/
theorem insertField_append {k : String} (v : Json) {fields : List (String × Json)}
    (h : ∀ k' ∈ fields.map Prod.fst, k' < k) :
    insertField k v fields = fields ++ [(k, v)] := by
  induction fields with
  | nil => rfl
  | cons f fields ih =>
    obtain ⟨k', v'⟩ := f
    have hlt : k' < k := h k' List.mem_cons_self
    rw [insertField_of_gt hlt, ih fun k'' hk'' => h k'' (List.mem_cons_of_mem k' hk''),
      List.cons_append]

/-- Fields in the order of their keys make the object that has them. -/
theorem ofFields_of_pairwise {fields : List (String × Json)}
    (h : (fields.map Prod.fst).Pairwise (· < ·)) : ofFields fields = .obj fields := by
  have hfold : ∀ done : List (String × Json), ((done ++ fields).map Prod.fst).Pairwise (· < ·) →
      fields.foldl (fun fs f => insertField f.1 f.2 fs) done = done ++ fields := by
    clear h
    induction fields with
    | nil => exact fun done _ => (List.append_nil done).symm
    | cons f fields ih =>
      intro done hdone
      have hlast : ∀ k' ∈ done.map Prod.fst, k' < f.1 := by
        rw [List.map_append, List.pairwise_append] at hdone
        exact fun k' hk' => hdone.2.2 k' hk' f.1 List.mem_cons_self
      rw [List.foldl_cons, insertField_append f.2 hlast, ih, List.append_assoc,
        List.singleton_append]
      rwa [List.append_assoc, List.singleton_append]
  rw [ofFields, hfold [] h, List.nil_append]

/-! ### The fields of an object -/

theorem mem_insertField {f : String × Json} (h : f ∈ insertField k v fs) : f = (k, v) ∨ f ∈ fs := by
  induction fs with
  | nil => exact Or.inl (List.mem_singleton.mp h)
  | cons g fs ih =>
    unfold insertField at h
    split at h
    · exact List.mem_cons.mp h
    split at h
    · exact (List.mem_cons.mp h).imp_right (List.mem_cons_of_mem g)
    · rcases List.mem_cons.mp h with rfl | h
      · exact Or.inr List.mem_cons_self
      · exact (ih h).imp_right (List.mem_cons_of_mem g)

/-- An object keeps fields that it was made of, in the order of their keys. -/
theorem exists_ofFields (fs : List (String × Json)) : ∃ gs, ofFields fs = .obj gs ∧
    (gs.map Prod.fst).Pairwise (· < ·) ∧ ∀ f ∈ gs, f ∈ fs := by
  -- The fields that have found their places are in order after each step.
  have hfold : ∀ done : List (String × Json), (done.map Prod.fst).Pairwise (· < ·) →
      ((fs.foldl (fun fs f => insertField f.1 f.2 fs) done).map Prod.fst).Pairwise (· < ·) ∧
        ∀ f ∈ fs.foldl (fun fs f => insertField f.1 f.2 fs) done, f ∈ fs ∨ f ∈ done := by
    induction fs with
    | nil => exact fun done hdone => ⟨hdone, fun f hf => Or.inr hf⟩
    | cons g fs ih =>
      intro done hdone
      obtain ⟨hsorted, hmem⟩ := ih _ (pairwise_insertField g.1 g.2 hdone)
      refine ⟨hsorted, fun f hf => ?_⟩
      rcases hmem f hf with hf | hf
      · exact Or.inl (List.mem_cons_of_mem g hf)
      · rcases mem_insertField hf with rfl | hf
        · exact Or.inl List.mem_cons_self
        · exact Or.inr hf
  obtain ⟨hsorted, hmem⟩ := hfold [] List.Pairwise.nil
  exact ⟨_, rfl, hsorted, fun f hf => (hmem f hf).resolve_right List.not_mem_nil⟩

theorem lookup_insertField_of_ne {key : String} (h : k ≠ key) (v : Json)
    (fs : List (String × Json)) : (insertField key v fs).lookup k = fs.lookup k := by
  induction fs with
  | nil => rw [insertField, List.lookup_cons, beq_false_of_ne h]
  | cons f fs ih =>
    unfold insertField
    split
    · rw [List.lookup_cons, beq_false_of_ne h]
    split
    · next hsame => rw [List.lookup_cons, List.lookup_cons, beq_false_of_ne h, hsame,
        beq_false_of_ne h]
    · rw [List.lookup_cons, List.lookup_cons, ih]

/-- An object answers with the last field of a key. -/
theorem get?_ofFields (fs : List (String × Json)) (k : String) :
    (ofFields fs).get? k = fs.reverse.lookup k := by
  -- A field that is still to come counts more than one that has its place.
  have hfold : ∀ done : List (String × Json),
      (fs.foldl (fun fs f => insertField f.1 f.2 fs) done).lookup k =
        (fs.reverse.lookup k).or (done.lookup k) := by
    induction fs with
    | nil => exact fun done => rfl
    | cons f fs ih =>
      intro done
      rw [List.foldl_cons, ih, List.reverse_cons, List.lookup_append, Option.or_assoc]
      congr 1
      by_cases hk : k = f.1
      · rw [hk, lookup_insertField_self, List.lookup_cons, beq_self_eq_true]
        rfl
      · rw [lookup_insertField_of_ne hk, List.lookup_cons, beq_false_of_ne hk]
        rfl
  rw [ofFields, get?, hfold [], List.lookup_nil, Option.or_none]

theorem lookup_eq_some_iff_mem (h : (fs.map Prod.fst).Pairwise (· < ·)) :
    fs.lookup k = some v ↔ (k, v) ∈ fs := by
  induction fs with
  | nil => simp
  | cons f fs ih =>
    obtain ⟨key, value⟩ := f
    rw [List.map_cons, List.pairwise_cons] at h
    rw [List.lookup_cons, List.mem_cons, Prod.mk.injEq]
    by_cases hk : k = key
    · -- No other field has the key.
      subst hk
      have hothers : (k, v) ∉ fs := fun hmem =>
        String.lt_irrefl k (h.1 k (List.mem_map_of_mem hmem))
      rw [beq_self_eq_true]
      simp only [Option.some.injEq, true_and, hothers, or_false]
      exact eq_comm
    · rw [beq_false_of_ne hk]
      simp only [ih h.2, hk, false_and, false_or]

/-- Two objects are equal when they answer alike, whatever they were made of. -/
theorem ofFields_eq_iff :
    ofFields fs = ofFields gs ↔ ∀ k, fs.reverse.lookup k = gs.reverse.lookup k := by
  constructor
  · intro h k
    rw [← get?_ofFields, h, get?_ofFields]
  · intro h
    obtain ⟨fs', hfs, hsorted, -⟩ := exists_ofFields fs
    obtain ⟨gs', hgs, hsorted', -⟩ := exists_ofFields gs
    have hlookup (k : String) : fs'.lookup k = gs'.lookup k := by
      have hsame := h k
      rwa [← get?_ofFields, ← get?_ofFields, hfs, hgs] at hsame
    have hmem (f : String × Json) : f ∈ fs' ↔ f ∈ gs' := by
      rw [← lookup_eq_some_iff_mem hsorted, ← lookup_eq_some_iff_mem hsorted', hlookup]
    -- Two lists in strict order that have the same members are one list.
    have horder {l : List (String × Json)} (hl : (l.map Prod.fst).Pairwise (· < ·)) :
        l.Pairwise fun a b => a.1 < b.1 := List.pairwise_map.mp hl
    have hnodup {l : List (String × Json)} (hl : (l.map Prod.fst).Pairwise (· < ·)) : l.Nodup := by
      refine (horder hl).imp fun hlt hsame => ?_
      rw [hsame] at hlt
      exact String.lt_irrefl _ hlt
    have hperm := (List.perm_ext_iff_of_nodup (hnodup hsorted) (hnodup hsorted')).mpr hmem
    have hequal : fs' = gs' := hperm.eq_of_pairwise
      (fun a b _ _ hab hba => absurd (String.lt_trans hab hba) (String.lt_irrefl _))
      (horder hsorted) (horder hsorted')
    rw [hfs, hgs, hequal]

end TreeConsole.Json
