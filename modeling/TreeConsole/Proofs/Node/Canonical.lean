import TreeConsole.Proofs.Node.Order

/-!
# Canonical texts of node paths

Each path has one canonical text, and reading that text gives the path back. So a table may be
thought of as keyed by paths or by canonical texts: joining a name to a text is going to a child,
and one path is above another exactly when its text, a slash behind it, comes first in the other's.

## Main results

* `NodePath.parse_render` — a canonical text names the path it was written for
* `NodePath.render_injective` — no two paths share a canonical text
* `NodePath.joinChild_render` — joining a name to a canonical text gives the text of the child
* `NodePath.le_iff_text` — the order of paths, read off the texts
-/

namespace TreeConsole

theorem splitSlash_eq_splitOn (cs : List Char) : splitSlash cs = cs.splitOn '/' := by
  induction cs with
  | nil => rfl
  | cons c cs ih =>
    rw [List.splitOn_cons_eq_if_modifyHead, ← ih]
    by_cases hc : c = '/'
    · simp [splitSlash, hc]
    · simp only [splitSlash, if_neg hc, beq_eq_false_iff_ne.mpr hc, Bool.false_eq_true, if_false]
      cases hs : splitSlash cs with
      | nil => exact absurd hs (splitSlash_ne_nil cs)
      | cons s ss => rfl

theorem dropSlashes_of_getLast? {cs : List Char} (h : cs.getLast? ≠ some '/') :
    dropSlashes cs = cs := by
  rcases List.eq_nil_or_concat cs with rfl | ⟨front, c, rfl⟩
  · rfl
  · have hc : c ≠ '/' := fun heq => h (by simp [heq])
    simp [dropSlashes, hc]

namespace NodePath

variable {p q : NodePath} {name : String}

/-- The segments of a path as lists of characters. -/
def chunks (p : NodePath) : List (List Char) := p.segments.map String.toList

theorem chunks_child (h : IsSegment name) :
    (p.child name h).chunks = p.chunks ++ [name.toList] := by
  simp [chunks]

theorem not_mem_of_mem_chunks {cs : List Char} (h : cs ∈ p.chunks) : '/' ∉ cs := by
  obtain ⟨s, hs, rfl⟩ := List.mem_map.mp h
  exact (p.legal s hs).2.2.2

theorem ne_nil_of_mem_chunks {cs : List Char} (h : cs ∈ p.chunks) : cs ≠ [] := by
  obtain ⟨s, hs, rfl⟩ := List.mem_map.mp h
  exact fun hnil => (p.legal s hs).1 (String.toList_eq_nil_iff.mp hnil)

theorem chunks_eq_nil_iff : p.chunks = [] ↔ p = root := by
  rw [chunks, List.map_eq_nil_iff]
  exact ⟨fun h => NodePath.ext h, fun h => congrArg segments h⟩

/-- The canonical text after its first slash. -/
def body (p : NodePath) : List Char := ['/'].intercalate p.chunks

theorem toList_render (p : NodePath) : p.render.toList = '/' :: p.body := by
  -- Every segment brings a slash in front of it, the first one included.
  have hflat : ∀ s (ss : List String),
      (s :: ss).flatMap (fun s => '/' :: s.toList) =
        '/' :: ['/'].intercalate ((s :: ss).map String.toList) := by
    intro s ss
    induction ss generalizing s with
    | nil => simp
    | cons s' ss ih =>
      rw [List.flatMap_cons, ih s', List.map_cons, List.map_cons, List.map_cons,
        List.intercalate_cons_cons]
      simp
  unfold render body chunks
  split
  · rename_i hnil
    rw [hnil]
    rfl
  · rename_i hne
    rw [String.toList_join, List.flatMap_map]
    cases hseg : p.segments with
    | nil => exact absurd hseg hne
    | cons s ss =>
      rw [← hflat s ss]
      simp

theorem splitOn_body (h : p ≠ root) : p.body.splitOn '/' = p.chunks :=
  List.splitOn_intercalate '/' (fun _ hcs => not_mem_of_mem_chunks hcs)
    (fun hnil => h (chunks_eq_nil_iff.mp hnil))

@[simp] theorem body_root : root.body = [] := rfl

theorem body_append (hp : p ≠ root) {rest : List (List Char)} (hrest : rest ≠ [])
    (h : q.chunks = p.chunks ++ rest) : q.body = p.body ++ '/' :: ['/'].intercalate rest := by
  have hslash : ∀ cs ∈ rest, '/' ∉ cs := fun cs hcs =>
    not_mem_of_mem_chunks (p := q) (by simp [h, hcs])
  -- Both sides fall into the same pieces when they are cut at slashes.
  have hcut : q.chunks = (p.body ++ '/' :: ['/'].intercalate rest).splitOn '/' := by
    rw [List.splitOn_append_cons_self, splitOn_body hp,
      List.splitOn_intercalate '/' hslash hrest, h]
  rw [body, hcut, List.intercalate_splitOn]

theorem body_child (h : IsSegment name) (hp : p ≠ root) :
    (p.child name h).body = p.body ++ '/' :: name.toList := by
  rw [body_append hp (List.cons_ne_nil name.toList []) (chunks_child h)]
  simp

theorem body_child_root (h : IsSegment name) : (root.child name h).body = name.toList := by
  simp [body, chunks]

/-- A canonical text ends with the name of its node. -/
theorem getLast?_body_child (h : IsSegment name) :
    (p.child name h).body.getLast? = name.toList.getLast? := by
  have hne : name.toList ≠ [] := fun hnil => h.1 (String.toList_eq_nil_iff.mp hnil)
  by_cases hp : p = root
  · rw [hp, body_child_root]
  · rw [body_child h hp, List.getLast?_append_cons, List.getLast?_cons_of_ne_nil hne]

theorem getLast?_body_ne (p : NodePath) : p.body.getLast? ≠ some '/' := by
  rcases p.eq_root_or_child with rfl | ⟨q, name, h, rfl⟩
  · simp
  · rw [getLast?_body_child]
    exact fun hlast => h.2.2.2 (List.mem_of_getLast? hlast)

theorem body_ne_nil (h : p ≠ root) : p.body ≠ [] := by
  intro hnil
  have hsplit := splitOn_body h
  rw [hnil, List.splitOn_nil] at hsplit
  have hmem : [] ∈ p.chunks := by
    rw [← hsplit]
    exact List.mem_singleton.mpr rfl
  exact ne_nil_of_mem_chunks hmem rfl

/-- Only the text of the root ends with a slash. -/
theorem getLast?_render_ne (h : p ≠ root) : p.render.toList.getLast? ≠ some '/' := by
  rw [toList_render, List.getLast?_cons_of_ne_nil (body_ne_nil h)]
  exact p.getLast?_body_ne

/-! ### Reading -/

theorem parse?_render (p : NodePath) : parse? p.render = some p := by
  have hdrop : dropSlashes p.body = p.body := dropSlashes_of_getLast? p.getLast?_body_ne
  by_cases hp : p = root
  · subst hp
    rfl
  · have hchunks : (splitSlash p.body).map String.ofList = p.segments := by
      rw [splitSlash_eq_splitOn, splitOn_body hp, chunks, List.map_map]
      simp
    simp only [parse?, toList_render, hdrop]
    split
    · rename_i hnil
      exact absurd hnil (body_ne_nil hp)
    · rw [hchunks, ofSegments?, dif_pos p.legal]

@[simp] theorem parse_render (p : NodePath) : parse p.render = .ok p := by
  simp [parse, parse?_render]

theorem render_injective (h : p.render = q.render) : p = q := by
  have hp := parse?_render p
  rw [h, parse?_render] at hp
  exact (Option.some.inj hp).symm

/-! ### Joining -/

theorem joinChild_render (h : IsSegment name) :
    joinChild p.render name = (p.child name h).render := by
  apply String.toList_inj.mp
  by_cases hp : p = root
  · subst hp
    simp [joinChild, toList_render, body_child_root]
  · rw [joinChild, if_neg (getLast?_render_ne hp)]
    simp [toList_render, body_child h hp]

/-! ### The order of texts -/

theorem le_iff_chunks : p ≤ q ↔ p.chunks <+: q.chunks := by
  constructor
  · intro h
    exact List.IsPrefix.map String.toList h
  · intro h
    obtain ⟨front, hfront, heq⟩ := List.prefix_map_iff.mp h
    have hinj : Function.Injective String.toList := fun _ _ => String.toList_inj.mp
    rwa [← List.map_injective_iff.mpr hinj heq] at hfront

/-- A node is at or below another when its text is the text of the other or goes on behind it with a
slash. The slash keeps apart siblings whose names start alike. -/
theorem le_iff_text (hp : p ≠ root) :
    p ≤ q ↔ q.render = p.render ∨ (p.render ++ "/").toList <+: q.render.toList := by
  constructor
  · intro hle
    -- What is behind the common segments is either nothing or follows a slash.
    obtain ⟨rest, hrest⟩ := le_iff_chunks.mp hle
    by_cases hnil : rest = []
    · rw [hnil, List.append_nil] at hrest
      have hge : q ≤ p := le_iff_chunks.mpr (hrest ▸ List.prefix_refl _)
      exact Or.inl (congrArg render (le_antisymm hge hle))
    · right
      rw [String.toList_append, toList_render, toList_render, body_append hp hnil hrest.symm]
      exact ⟨['/'].intercalate rest, by simp⟩
  · intro htexts
    rcases htexts with heq | ⟨rest, htext⟩
    · exact (render_injective heq).symm ▸ le_refl q
    · have hbody : q.body = p.body ++ '/' :: rest := by
        rw [String.toList_append, toList_render, toList_render] at htext
        simpa using htext.symm
      have hq : q ≠ root := by
        intro heq
        simp [heq] at hbody
      -- The slash is a place where the text is cut, so whole segments are in front of it.
      rw [le_iff_chunks, ← splitOn_body hp, ← splitOn_body hq, hbody,
        List.splitOn_append_cons_self]
      exact List.prefix_append _ _

end NodePath
end TreeConsole
