import TreeConsole.Proofs.Json.Exact
import TreeConsole.Proofs.Json.Grammar

/-!
# Reading back what was written

A value that holds no floating-point number and keeps the fields of each object in order is read
back as it was, whether it is written on one line or over several. The reader is not opened for
that: the text that is written stands for the value, since the lines and spaces of a pretty text are
blanks of the grammar. In turn a text that admits nothing but integers of 64 bits stands for a value
of that kind, whatever its objects look like.

## Main results

* `Json.Spells.isExact` — texts with integers only stand for exact values
* `Json.spells_compactChars`, `Json.spells_prettyChars` — both texts of an exact value stand for it
* `Json.parse?_compactChars_obj` — an object is read back with its fields in order
-/

namespace TreeConsole.Json

variable {d : Nat} {cs : List Char} {v : Json} {vs : List Json} {fs : List (String × Json)}
  {k : String}

/-! ### Texts with integers only -/

mutual

/-- A text with integers only stands for an exact value, no deeper than the text. -/
theorem Spells.isExact : ∀ {d : Nat} {cs : List Char} {v : Json}, Spells IsInteger d cs v →
    v.IsExact ∧ v.depth ≤ d
  | _, _, _, .null => ⟨trivial, Nat.zero_le _⟩
  | _, _, _, .bool _ => ⟨trivial, Nat.zero_le _⟩
  | _, _, _, .num ⟨_, hi, _, hn⟩ => by
    subst hn
    exact ⟨hi, Nat.zero_le _⟩
  | _, _, _, .str _ => ⟨trivial, Nat.zero_le _⟩
  | _, _, _, .arrEmpty _ => ⟨trivial, Nat.succ_le_succ (Nat.zero_le _)⟩
  | _, _, _, .arr h => ⟨(SpellsItems.areExact h).1, Nat.succ_le_succ (SpellsItems.areExact h).2⟩
  | _, _, _, .objEmpty _ =>
    ⟨⟨List.Pairwise.nil, trivial⟩, Nat.succ_le_succ (Nat.zero_le _)⟩
  | _, _, _, @Spells.obj _ _ _ fs h => by
    -- In the text the fields may stand in any order; only those that are kept are put in order.
    obtain ⟨hexact, hdepth⟩ := SpellsFields.holdExact h
    obtain ⟨gs, hgs, hsorted, hmem⟩ := exists_ofFields fs
    rw [holdExact_iff] at hexact
    rw [fieldsDepth_le_iff] at hdepth
    rw [hgs]
    exact ⟨⟨hsorted, holdExact_iff.mpr fun f hf => hexact f (hmem f hf)⟩,
      Nat.succ_le_succ (fieldsDepth_le_iff.mpr fun f hf => hdepth f (hmem f hf))⟩

theorem SpellsPadded.isExact : ∀ {d : Nat} {cs : List Char} {v : Json},
    SpellsPadded IsInteger d cs v → v.IsExact ∧ v.depth ≤ d
  | _, _, _, .mk _ h _ => Spells.isExact h

theorem SpellsItems.areExact : ∀ {d : Nat} {cs : List Char} {vs : List Json},
    SpellsItems IsInteger d cs vs → AreExact vs ∧ itemsDepth vs ≤ d
  | _, _, _, .last h =>
    ⟨⟨(SpellsPadded.isExact h).1, trivial⟩,
      Nat.max_le.mpr ⟨(SpellsPadded.isExact h).2, Nat.zero_le _⟩⟩
  | _, _, _, .more h others =>
    ⟨⟨(SpellsPadded.isExact h).1, (SpellsItems.areExact others).1⟩,
      Nat.max_le.mpr ⟨(SpellsPadded.isExact h).2, (SpellsItems.areExact others).2⟩⟩

theorem SpellsFields.holdExact : ∀ {d : Nat} {cs : List Char} {fs : List (String × Json)},
    SpellsFields IsInteger d cs fs → HoldExact fs ∧ fieldsDepth fs ≤ d
  | _, _, _, .last _ h =>
    ⟨⟨(SpellsPadded.isExact h).1, trivial⟩,
      Nat.max_le.mpr ⟨(SpellsPadded.isExact h).2, Nat.zero_le _⟩⟩
  | _, _, _, .more _ h others =>
    ⟨⟨(SpellsPadded.isExact h).1, (SpellsFields.holdExact others).1⟩,
      Nat.max_le.mpr ⟨(SpellsPadded.isExact h).2, (SpellsFields.holdExact others).2⟩⟩

end

/-! ### Compact text -/

theorem areGaps_nil : AreGaps [] := fun _ hc => absurd hc List.not_mem_nil

/-- A value with nothing around it. -/
theorem Spells.bare (h : Spells IsInteger d cs v) : SpellsPadded IsInteger d cs v := by
  have hpadded := SpellsPadded.mk areGaps_nil h areGaps_nil
  rwa [List.append_nil, List.nil_append] at hpadded

theorem keyText_stringChars (k : String) : KeyText (stringChars k) k := by
  have hkey := KeyText.mk areGaps_nil (stringText_stringChars k) areGaps_nil
  rwa [List.append_nil, List.nil_append] at hkey

theorem compactItems_cons (v : Json) (h : vs ≠ []) :
    compactItems (v :: vs) = compactChars v ++ ',' :: compactItems vs := by
  cases vs with
  | nil => exact absurd rfl h
  | cons w ws => rw [compactItems]; exact fun hnil => by cases hnil

theorem compactFields_cons (k : String) (v : Json) (h : fs ≠ []) :
    compactFields ((k, v) :: fs) =
      stringChars k ++ ':' :: compactChars v ++ ',' :: compactFields fs := by
  cases fs with
  | nil => exact absurd rfl h
  | cons f fs => rw [compactFields]; exact fun hnil => by cases hnil

/-- The text of an object stands for the fields put in order, which need not stand so. -/
theorem spells_compactChars_obj (hd : (obj fs).depth ≤ d)
    (hfields : ∀ {d}, fs ≠ [] → fieldsDepth fs ≤ d →
      SpellsFields IsInteger d (compactFields fs) fs) :
    Spells IsInteger d (compactChars (.obj fs)) (ofFields fs) := by
  obtain ⟨d, rfl⟩ : ∃ n, d = n + 1 := Nat.exists_eq_add_one.mpr (Nat.lt_of_lt_of_le
    (Nat.succ_pos _) hd)
  cases fs with
  | nil => exact .objEmpty areGaps_nil
  | cons f fs => exact .obj (hfields (List.cons_ne_nil f fs) (Nat.le_of_succ_le_succ hd))

mutual

/-- The compact text of an exact value stands for it. -/
theorem spells_compactChars : ∀ (v : Json) {d : Nat}, v.IsExact → v.depth ≤ d →
    Spells IsInteger d (compactChars v) v
  | .null, _, _, _ => .null
  | .bool b, _, _, _ => .bool b
  | .num (.int i), _, hv, _ => .num ⟨i, hv, rfl, rfl⟩
  | .num (.float _), _, hv, _ => absurd hv id
  | .str s, _, _, _ => .str (stringText_stringChars s)
  | .arr _, 0, _, hd => absurd hd (Nat.not_succ_le_zero _)
  | .arr [], _ + 1, _, _ => .arrEmpty areGaps_nil
  | .arr (v :: vs), _ + 1, hv, hd =>
    .arr (spells_compactItems (v :: vs) (List.cons_ne_nil v vs) hv (Nat.le_of_succ_le_succ hd))
  | .obj fields, _, hv, hd => by
    have hobj := spells_compactChars_obj hd fun hne => spells_compactFields fields hne hv.2
    rwa [ofFields_of_pairwise hv.1] at hobj

theorem spells_compactItems : ∀ (vs : List Json) {d : Nat}, vs ≠ [] → AreExact vs →
    itemsDepth vs ≤ d → SpellsItems IsInteger d (compactItems vs) vs
  | [], _, hne, _, _ => absurd rfl hne
  | [v], _, _, hv, hd => .last (spells_compactChars v hv.1 (Nat.max_le.mp hd).1).bare
  | v :: w :: vs, _, _, hv, hd => by
    have hfirst := (spells_compactChars v hv.1 (Nat.max_le.mp hd).1).bare
    have hothers := spells_compactItems (w :: vs) (List.cons_ne_nil w vs) hv.2 (Nat.max_le.mp hd).2
    rw [compactItems_cons v (List.cons_ne_nil w vs)]
    exact .more hfirst hothers

theorem spells_compactFields : ∀ (fs : List (String × Json)) {d : Nat}, fs ≠ [] → HoldExact fs →
    fieldsDepth fs ≤ d → SpellsFields IsInteger d (compactFields fs) fs
  | [], _, hne, _, _ => absurd rfl hne
  | [(k, v)], _, _, hv, hd =>
    .last (keyText_stringChars k) (spells_compactChars v hv.1 (Nat.max_le.mp hd).1).bare
  | (k, v) :: f :: fs, _, _, hv, hd => by
    have hvalue := (spells_compactChars v hv.1 (Nat.max_le.mp hd).1).bare
    have hothers := spells_compactFields (f :: fs) (List.cons_ne_nil f fs) hv.2 (Nat.max_le.mp hd).2
    have hmore := SpellsFields.more (keyText_stringChars k) hvalue hothers
    rw [compactFields_cons k v (List.cons_ne_nil f fs)]
    simpa only [List.append_assoc, List.cons_append] using hmore

end

/-! ### Pretty text -/

theorem areGaps_space : AreGaps [' '] := by
  intro c hc
  rw [List.mem_singleton.mp hc]
  rfl

theorem areGaps_newLine (level : Nat) : AreGaps (newLine level) := by
  intro c hc
  rcases List.mem_cons.mp hc with rfl | hc
  · rfl
  · rw [List.eq_of_mem_replicate hc]
    rfl

theorem prettyItems_cons (level : Nat) (v : Json) (h : vs ≠ []) :
    prettyItems level (v :: vs) =
      newLine level ++ prettyChars level v ++ ',' :: prettyItems level vs := by
  cases vs with
  | nil => exact absurd rfl h
  | cons w ws => rw [prettyItems]; exact fun hnil => by cases hnil

theorem prettyFields_cons (level : Nat) (k : String) (v : Json) (h : fs ≠ []) :
    prettyFields level ((k, v) :: fs) = newLine level ++ stringChars k ++ ':' :: ' ' ::
      prettyChars level v ++ ',' :: prettyFields level fs := by
  cases fs with
  | nil => exact absurd rfl h
  | cons f fs => rw [prettyFields]; exact fun hnil => by cases hnil

/-- The key of a field on a line of its own. -/
theorem keyText_newLine (level : Nat) (k : String) :
    KeyText (newLine level ++ stringChars k) k := by
  have hkey := KeyText.mk (areGaps_newLine level) (stringText_stringChars k) areGaps_nil
  rwa [List.append_nil] at hkey

mutual

/-- The pretty text of an exact value stands for it. -/
theorem spells_prettyChars : ∀ (v : Json) {d : Nat} (level : Nat), v.IsExact → v.depth ≤ d →
    Spells IsInteger d (prettyChars level v) v
  | .null, _, _, _, _ => .null
  | .bool b, _, _, _, _ => .bool b
  | .num (.int i), _, _, hv, _ => .num ⟨i, hv, rfl, rfl⟩
  | .num (.float _), _, _, hv, _ => absurd hv id
  | .str s, _, _, _, _ => .str (stringText_stringChars s)
  | .arr [], 0, _, _, hd => absurd hd (Nat.not_succ_le_zero _)
  | .arr [], d + 1, _, _, _ => .arrEmpty areGaps_nil
  | .arr (v :: vs), 0, _, _, hd => absurd hd (Nat.not_succ_le_zero _)
  | .arr (v :: vs), d + 1, level, hv, hd => by
    have hitems := spells_prettyItems (v :: vs) (level + 1) (List.cons_ne_nil v vs) hv
      (Nat.le_of_succ_le_succ hd) (areGaps_newLine level)
    exact .arr hitems
  | .obj [], 0, _, _, hd => absurd hd (Nat.not_succ_le_zero _)
  | .obj [], d + 1, _, _, _ => .objEmpty areGaps_nil
  | .obj (f :: fs), 0, _, _, hd => absurd hd (Nat.not_succ_le_zero _)
  | .obj (f :: fs), d + 1, level, hv, hd => by
    have hfields := spells_prettyFields (f :: fs) (level + 1) (List.cons_ne_nil f fs) hv.2
      (Nat.le_of_succ_le_succ hd) (areGaps_newLine level)
    have hobj := Spells.obj hfields
    rwa [ofFields_of_pairwise hv.1] at hobj

/-- The lines of the items of an array, up to its end. -/
theorem spells_prettyItems : ∀ (vs : List Json) {d : Nat} {after : List Char} (level : Nat),
    vs ≠ [] → AreExact vs → itemsDepth vs ≤ d → AreGaps after →
      SpellsItems IsInteger d (prettyItems level vs ++ after) vs
  | [], _, _, _, hne, _, _, _ => absurd rfl hne
  | [v], d, _, level, _, hv, hd, hafter => by
    have hvalue := spells_prettyChars v level hv.1 (Nat.max_le.mp hd).1
    exact .last (.mk (areGaps_newLine level) hvalue hafter)
  | v :: w :: vs, d, after, level, _, hv, hd, hafter => by
    have hfirst := SpellsPadded.mk (areGaps_newLine level)
      (spells_prettyChars v level hv.1 (Nat.max_le.mp hd).1) areGaps_nil
    have hothers := spells_prettyItems (w :: vs) level (List.cons_ne_nil w vs) hv.2
      (Nat.max_le.mp hd).2 hafter
    have hmore := SpellsItems.more hfirst hothers
    rw [prettyItems_cons level v (List.cons_ne_nil w vs)]
    simpa only [List.append_nil, List.append_assoc, List.cons_append] using hmore

theorem spells_prettyFields : ∀ (fs : List (String × Json)) {d : Nat} {after : List Char}
    (level : Nat), fs ≠ [] → HoldExact fs → fieldsDepth fs ≤ d → AreGaps after →
      SpellsFields IsInteger d (prettyFields level fs ++ after) fs
  | [], _, _, _, hne, _, _, _ => absurd rfl hne
  | [(k, v)], d, after, level, _, hv, hd, hafter => by
    have hvalue := SpellsPadded.mk areGaps_space
      (spells_prettyChars v level hv.1 (Nat.max_le.mp hd).1) hafter
    have hlast := SpellsFields.last (keyText_newLine level k) hvalue
    rw [prettyFields]
    simpa only [List.append_assoc, List.cons_append, List.nil_append] using hlast
  | (k, v) :: f :: fs, d, after, level, _, hv, hd, hafter => by
    have hvalue := SpellsPadded.mk areGaps_space
      (spells_prettyChars v level hv.1 (Nat.max_le.mp hd).1) areGaps_nil
    have hothers := spells_prettyFields (f :: fs) level (List.cons_ne_nil f fs) hv.2
      (Nat.max_le.mp hd).2 hafter
    have hmore := SpellsFields.more (keyText_newLine level k) hvalue hothers
    rw [prettyFields_cons level k v (List.cons_ne_nil f fs)]
    simpa only [List.append_nil, List.append_assoc, List.cons_append, List.nil_append] using hmore

end

/-! ### Whole texts -/

theorem spellsText_compact (h : v.IsExact) (hd : v.depth ≤ nestingLimit) :
    SpellsText IsInteger v.compact v := by
  rw [SpellsText, compact, String.toList_ofList]
  exact (spells_compactChars v h hd).bare

theorem spellsText_pretty (h : v.IsExact) (hd : v.depth ≤ nestingLimit) :
    SpellsText IsInteger v.pretty v := by
  rw [SpellsText, pretty, String.toList_ofList]
  exact (spells_prettyChars v 0 h hd).bare

/-- The text of an object is read back, its fields in their order and also with blanks behind it. -/
theorem parse?_compactChars_obj {fields : List (String × Json)} (h : HoldExact fields)
    (hdepth : (obj fields).depth ≤ nestingLimit) {gap : List Char} (hgap : ∀ c ∈ gap, isGap c) :
    parse? (String.ofList (compactChars (.obj fields) ++ gap)) = some (ofFields fields) := by
  have hobj := spells_compactChars_obj hdepth fun hne => spells_compactFields fields hne h
  have hpadded := SpellsPadded.mk areGaps_nil hobj hgap
  rw [List.nil_append] at hpadded
  have htext : SpellsText IsInteger (String.ofList (compactChars (.obj fields) ++ gap))
      (ofFields fields) := by
    rwa [SpellsText, String.toList_ofList]
  exact htext.read admits_isInteger

end TreeConsole.Json
