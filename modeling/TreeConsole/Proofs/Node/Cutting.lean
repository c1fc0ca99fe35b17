import Mathlib.Data.List.DropRight
import TreeConsole.Proofs.Node.Spelling

/-!
# Canonical texts, cut and joined

Canonical texts can be told by their form alone: a slash, or legal segments joined by slashes behind
a slash. They are the texts that reading answers with, and every text that can be read is one of
them with slashes behind it. What reading, cutting at the last slash and joining do to texts is what
naming a node, going to its parent and going to a child do to paths, so cutting and joining undo
each other.

## Main definitions

* `IsCanonical` — the form of a canonical text
* `canonicalText` — the canonical text of the node that a text names
* `cutName` — what stands before the last slash of a text, and the name behind it

## Main results

* `isCanonical_iff` — the canonical texts are those of the paths
* `cutName_render` — to cut the text of a path is to go to its parent
* `canonicalText_cut_join` — reading, cutting and joining, said of texts
-/

namespace TreeConsole

open NodePath

variable {text q r name : String} {p : NodePath} {e : NodeError}

/-! ### Canonical texts -/

/-- A slash, or legal segments that are joined by slashes and have one in front of them. -/
def IsCanonical (text : String) : Prop :=
  text = "/" ∨ ∃ segments : List String, segments ≠ [] ∧ (∀ s ∈ segments, IsSegment s) ∧
    text = "/" ++ "/".intercalate segments

theorem render_eq_intercalate (p : NodePath) :
    p.render = "/" ++ "/".intercalate p.segments := by
  apply String.toList_inj.mp
  rw [toList_render, body, chunks, String.toList_append, String.toList_intercalate]
  rfl

/-- The canonical texts are those of the paths. -/
theorem isCanonical_iff : IsCanonical text ↔ ∃ p : NodePath, text = p.render := by
  constructor
  · rintro (rfl | ⟨segments, -, hlegal, rfl⟩)
    · exact ⟨root, rfl⟩
    · exact ⟨⟨segments, hlegal⟩, (render_eq_intercalate ⟨segments, hlegal⟩).symm⟩
  · rintro ⟨p, rfl⟩
    by_cases hp : p = root
    · exact Or.inl (by rw [hp]; rfl)
    · refine Or.inr ⟨p.segments, ?_, p.legal, render_eq_intercalate p⟩
      exact fun hnil => hp (NodePath.ext hnil)

theorem isCanonical_render (p : NodePath) : IsCanonical p.render := isCanonical_iff.mpr ⟨p, rfl⟩

theorem isCanonical_iff_parse? : IsCanonical text ↔ (parse? text).map render = some text := by
  rw [isCanonical_iff, Option.map_eq_some_iff]
  constructor
  · rintro ⟨p, rfl⟩
    exact ⟨p, parse?_render p, rfl⟩
  · rintro ⟨p, -, hp⟩
    exact ⟨p, hp.symm⟩

instance (text : String) : Decidable (IsCanonical text) :=
  decidable_of_iff _ isCanonical_iff_parse?.symm

/-- The canonical text of the node that a text names. -/
def canonicalText (text : String) : Except NodeError String := (parse text).map render

theorem canonicalText_of_parse? (h : parse? text = some p) : canonicalText text = .ok p.render := by
  rw [canonicalText, parse_eq_ok_iff.mpr h]
  rfl

theorem canonicalText_of_unnamed (h : parse? text = none) :
    canonicalText text = .error (.invalidPath text) := by
  rw [canonicalText, parse, h]
  rfl

/-- A text that can be read is the answer with slashes behind it. -/
theorem canonicalText_eq_ok_iff : canonicalText text = .ok q ↔
    IsCanonical q ∧ ∃ n, text.toList = q.toList ++ List.replicate n '/' := by
  constructor
  · intro h
    cases hread : parse? text with
    | none =>
      rw [canonicalText_of_unnamed hread] at h
      cases h
    | some p =>
      rw [canonicalText_of_parse? hread] at h
      cases h
      exact ⟨isCanonical_render p, parse?_eq_some_iff.mp hread⟩
  · intro h
    obtain ⟨hq, htext⟩ := h
    obtain ⟨p, rfl⟩ := isCanonical_iff.mp hq
    exact canonicalText_of_parse? (parse?_eq_some_iff.mpr htext)

/-- A text that cannot be read is reported as it is. -/
theorem canonicalText_eq_error_iff : canonicalText text = .error e ↔
    e = .invalidPath text ∧
      ¬ ∃ q, IsCanonical q ∧ ∃ n, text.toList = q.toList ++ List.replicate n '/' := by
  simp only [← canonicalText_eq_ok_iff]
  cases hread : parse? text with
  | none => simp [canonicalText_of_unnamed hread, eq_comm]
  | some p => simp [canonicalText_of_parse? hread]

/-! ### Cutting -/

/-- Cuts a text at its last slash into what stands before it and the name behind it; where nothing
stands before it, that is the root. A text without a slash or without a name is reported as it
is. -/
def cutName (text : String) : Except NodeError (String × String) :=
  let above := text.toList.rdropWhile (· != '/')
  let name := text.toList.rtakeWhile (· != '/')
  if above = [] ∨ name = [] then .error (.invalidPath text)
  else .ok (if above = ['/'] then "/" else String.ofList above.dropLast, String.ofList name)

/-- Where the last slash of a text is, it is cut. -/
theorem cutName_of_toList {front : List Char} (htext : text.toList = front ++ '/' :: name.toList)
    (h : IsSegment name) :
    cutName text = .ok (if front = [] then "/" else String.ofList front, name) := by
  have hname : ∀ c ∈ name.toList.reverse, (c != '/') = true := by
    intro c hc
    have hne : c ≠ '/' := fun heq => h.2.2.2 (heq ▸ List.mem_reverse.mp hc)
    exact bne_iff_ne.mpr hne
  -- Read from its end, the text begins with the name, and the slash is the first to stop there.
  have hreverse : text.toList.reverse = name.toList.reverse ++ '/' :: front.reverse := by
    simp [htext]
  have habove : text.toList.rdropWhile (· != '/') = front ++ ['/'] := by
    rw [List.rdropWhile, hreverse, List.dropWhile_append_of_pos hname]
    simp
  have hbehind : text.toList.rtakeWhile (· != '/') = name.toList := by
    rw [List.rtakeWhile, hreverse, List.takeWhile_append_of_pos hname]
    simp
  have hne : ¬ (front ++ ['/'] = [] ∨ name.toList = []) := by simp [h.1]
  rw [cutName, habove, hbehind, if_neg hne]
  simp

theorem cutName_child (h : IsSegment name) :
    cutName (p.child name h).render = .ok (p.render, name) := by
  by_cases hp : p = root
  · subst hp
    have htext : (root.child name h).render.toList = [] ++ '/' :: name.toList := by
      rw [toList_render, body_child_root]
      rfl
    exact cutName_of_toList htext h
  · have htext : (p.child name h).render.toList = p.render.toList ++ '/' :: name.toList := by
      rw [toList_render, toList_render, body_child h hp]
      rfl
    have hne : p.render.toList ≠ [] := by simp [toList_render]
    rw [cutName_of_toList htext h, if_neg hne, String.ofList_toList]

/-- To cut the text of a path is to go to its parent; the root has no name to cut off. -/
theorem cutName_render (p : NodePath) : cutName p.render =
    match p.parent? with
    | none => .error (.invalidPath p.render)
    | some (parent, name) => .ok (parent.render, name) := by
  rcases p.eq_root_or_child with rfl | ⟨parent, name, h, rfl⟩
  · rfl
  · rw [cutName_child, parent?_child]

/-! ### Reading, cutting and joining -/

/-- A text can be read exactly when it is a canonical text with slashes behind it, and reading
answers with that one; any other text is reported as it is. A canonical text other than that of the
root is cut into a canonical text and a legal segment, and joining them gives it back. A canonical
text and a legal segment are joined to another canonical text, and cutting it gives them back. -/
theorem canonicalText_cut_join :
    (∀ text q, canonicalText text = .ok q ↔
      IsCanonical q ∧ ∃ n, text.toList = q.toList ++ List.replicate n '/') ∧
    (∀ text e, canonicalText text = .error e ↔ e = .invalidPath text ∧
      ¬ ∃ q, IsCanonical q ∧ ∃ n, text.toList = q.toList ++ List.replicate n '/') ∧
    (∀ text q, canonicalText text = .ok q → canonicalText q = .ok q) ∧
    (∀ q, IsCanonical q → q ≠ "/" → ∃ r name, cutName q = .ok (r, name) ∧ IsCanonical r ∧
      IsSegment name ∧ joinChild r name = q) ∧
    (∀ r name, IsCanonical r → IsSegment name → IsCanonical (joinChild r name) ∧
      joinChild r name ≠ r ∧ cutName (joinChild r name) = .ok (r, name)) ∧
    ∀ p : NodePath, cutName p.render =
      match p.parent? with
      | none => .error (.invalidPath p.render)
      | some (parent, name) => .ok (parent.render, name) := by
  refine ⟨fun _ _ => canonicalText_eq_ok_iff, fun _ _ => canonicalText_eq_error_iff, ?_, ?_, ?_,
    cutName_render⟩
  · -- The answer is canonical, and so it is itself with no slashes behind it.
    intro text q h
    obtain ⟨hq, -⟩ := canonicalText_eq_ok_iff.mp h
    exact canonicalText_eq_ok_iff.mpr ⟨hq, 0, by simp⟩
  · intro q hq hne
    obtain ⟨p, rfl⟩ := isCanonical_iff.mp hq
    rcases p.eq_root_or_child with rfl | ⟨parent, name, h, rfl⟩
    · exact absurd rfl hne
    · exact ⟨parent.render, name, cutName_child h, isCanonical_render parent, h,
        joinChild_render h⟩
  · intro r name hr h
    obtain ⟨p, rfl⟩ := isCanonical_iff.mp hr
    rw [joinChild_render h]
    refine ⟨isCanonical_render _, ?_, cutName_child h⟩
    -- A child is not at or above its parent.
    intro heq
    exact not_child_le h (render_injective heq).le

/-- Blanks and letters outside of ASCII are no matter, and neither are dots within a name. -/
theorem canonicalText_cut_join_orchard :
    IsCanonical "/old orchard" ∧ IsSegment "..äpfel" ∧
      canonicalText "/old orchard/..äpfel//" = .ok "/old orchard/..äpfel" ∧
      joinChild "/old orchard" "..äpfel" ≠ "/old orchard" ∧
      cutName "/old orchard/..äpfel" = .ok ("/old orchard", "..äpfel") := by
  have hr : IsCanonical "/old orchard" := by decide +kernel
  have hname : IsSegment "..äpfel" := by decide +kernel
  have hjoin : joinChild "/old orchard" "..äpfel" = "/old orchard/..äpfel" := by decide +kernel
  obtain ⟨hread, -, -, -, hjoined, -⟩ := canonicalText_cut_join
  obtain ⟨hcanonical, hne, hcut⟩ := hjoined "/old orchard" "..äpfel" hr hname
  rw [hjoin] at hcanonical hcut
  exact ⟨hr, hname, (hread _ _).mpr ⟨hcanonical, 2, by decide +kernel⟩, hne, hcut⟩

end TreeConsole
