import Mathlib.Data.List.TakeWhile
import TreeConsole.Proofs.Node.Canonical

/-!
# Texts of node paths

A path has one canonical text, and every other text that names it is that text with slashes behind
it. Joining the name of a child takes away at most one of them: behind two slashes an empty segment
comes about, and what is joined there names nothing.

## Main definitions

* `NodePath.Doubled` — two slashes at the end of a text

## Main results

* `NodePath.parse?_eq_some_iff` — the texts that name a path
* `NodePath.joinChild_of_not_doubled` — joined to any other text, a name gives what it gives joined
  to the canonical one
* `NodePath.parse?_joinChild_of_doubled` — joined behind two slashes, it gives the text of no path
-/

namespace TreeConsole

/-- What is dropped at the end of a text are slashes. -/
theorem exists_dropSlashes_append (cs : List Char) :
    ∃ n, cs = dropSlashes cs ++ List.replicate n '/' := by
  refine ⟨(cs.reverse.takeWhile (· == '/')).length, ?_⟩
  have hslashes : cs.reverse.takeWhile (· == '/') =
      List.replicate (cs.reverse.takeWhile (· == '/')).length '/' := by
    refine List.eq_replicate_iff.mpr ⟨rfl, fun c hc => ?_⟩
    simpa using List.mem_takeWhile_imp hc
  rw [dropSlashes, ← List.reverse_replicate, ← hslashes, ← List.reverse_append,
    List.takeWhile_append_dropWhile, List.reverse_reverse]

theorem dropSlashes_append_replicate (cs : List Char) (n : Nat) :
    dropSlashes (cs ++ List.replicate n '/') = dropSlashes cs := by
  rw [dropSlashes, dropSlashes, List.reverse_append, List.reverse_replicate,
    List.dropWhile_append_of_pos]
  intro c hc
  simp [List.eq_of_mem_replicate hc]

/-- A segment ends with something other than a slash. -/
theorem IsSegment.exists_getLast? {name : String} (h : IsSegment name) :
    ∃ c, name.toList.getLast? = some c ∧ c ≠ '/' := by
  cases hlast : name.toList.getLast? with
  | none => exact absurd (String.toList_eq_nil_iff.mp (List.getLast?_eq_none_iff.mp hlast)) h.1
  | some c => exact ⟨c, rfl, fun hc => h.2.2.2 (hc ▸ List.mem_of_getLast? hlast)⟩

namespace NodePath

variable {p : NodePath} {text name : String}

/-- Two slashes stand at the end of a text. -/
def Doubled (text : String) : Prop := ['/', '/'] <:+ text.toList

instance (text : String) : Decidable (Doubled text) := inferInstanceAs (Decidable (_ <:+ _))

theorem parse_eq_ok_iff : parse text = .ok p ↔ parse? text = some p := by
  unfold parse
  cases parse? text <;> simp

/-- The texts that name a path are its canonical text with any number of slashes behind it. -/
theorem parse?_eq_some_iff :
    parse? text = some p ↔ ∃ n, text.toList = p.render.toList ++ List.replicate n '/' := by
  constructor
  · intro h
    unfold parse? at h
    split at h
    case h_2 => cases h
    case h_1 cs htext =>
      obtain ⟨n, hcs⟩ := exists_dropSlashes_append cs
      refine ⟨n, ?_⟩
      rw [toList_render, htext, List.cons_append]
      split at h
      case h_1 hnil =>
        cases h
        rw [hnil] at hcs
        rw [body_root, ← hcs]
      case h_2 =>
        unfold ofSegments? at h
        split at h
        case isFalse => cases h
        case isTrue =>
          cases h
          have hbody : body ⟨(splitSlash (dropSlashes cs)).map String.ofList, ‹_›⟩ =
              dropSlashes cs := by
            rw [body, chunks, List.map_map]
            simp [Function.comp_def, intercalate_splitSlash]
          rw [hbody, ← hcs]
  · rintro ⟨n, htext⟩
    have hread := parse?_render p
    rw [toList_render] at htext
    unfold parse? at hread ⊢
    simp only [toList_render, htext, List.cons_append, dropSlashes_append_replicate] at hread ⊢
    exact hread

/-- In a canonical text no slash follows another. -/
theorem not_doubled_within_render (p : NodePath) : ¬ ['/', '/'] <:+: p.render.toList := by
  rintro ⟨front, rest, hparts⟩
  rw [toList_render] at hparts
  by_cases hp : p = root
  · rw [hp, body_root] at hparts
    have hlength := congrArg List.length hparts
    simp at hlength
    omega
  · -- Cut at its slashes, the text would have an empty piece among its segments.
    have hslash : ∀ cs : List Char, ('/' :: cs).splitOn '/' = [] :: cs.splitOn '/' :=
      fun cs => List.splitOn_append_cons_self [] cs
    have hpieces : [] :: p.chunks = front.splitOn '/' ++ [] :: rest.splitOn '/' := by
      rw [← splitOn_body hp, ← hslash, ← hslash, ← hparts, List.append_assoc,
        ← List.splitOn_append_cons_self]
      rfl
    obtain ⟨piece, pieces, hfront⟩ := List.exists_cons_of_ne_nil (List.splitOn_ne_nil '/' front)
    rw [hfront] at hpieces
    have hmem : [] ∈ p.chunks := by
      rw [(List.cons.inj hpieces).2]
      exact List.mem_append_right _ List.mem_cons_self
    exact ne_nil_of_mem_chunks hmem rfl

/-! ### Joining -/

/-- Joined to a text with no two slashes at its end, a name gives what it gives joined to the
canonical text. -/
theorem joinChild_of_not_doubled (h : parse? text = some p) (hsingle : ¬ Doubled text)
    (name : String) : joinChild text name = joinChild p.render name := by
  obtain ⟨n, htext⟩ := parse?_eq_some_iff.mp h
  match n with
  | 0 => rw [String.toList_inj.mp (htext.trans (List.append_nil _))]
  | 1 =>
    -- The one slash at the end is the one that would have been put there.
    have hlast : p.render.toList.getLast? ≠ some '/' := by
      intro hlast
      obtain ⟨front, hfront⟩ := List.getLast?_eq_some_iff.mp hlast
      exact hsingle ⟨front, by rw [htext, hfront, List.append_assoc]; rfl⟩
    have hslash : text = p.render ++ "/" := String.toList_inj.mp (by rw [htext]; simp)
    rw [joinChild, joinChild, if_neg hlast, hslash, if_pos (by simp)]
  | n + 2 =>
    refine absurd ⟨p.render.toList ++ List.replicate n '/', ?_⟩ hsingle
    rw [htext, List.append_assoc, ← List.replicate_append_replicate]
    rfl

/-- Joined behind two slashes, a name gives the text of no path. -/
theorem parse?_joinChild_of_doubled (hdoubled : Doubled text) (h : IsSegment name) :
    parse? (joinChild text name) = none := by
  obtain ⟨front, hfront⟩ := hdoubled
  have hslash : text.toList.getLast? = some '/' := by
    rw [← hfront]
    simp
  cases hread : parse? (joinChild text name) with
  | none => rfl
  | some q =>
    obtain ⟨n, htext⟩ := parse?_eq_some_iff.mp hread
    rw [joinChild, if_pos hslash, String.toList_append, ← hfront] at htext
    obtain ⟨c, hc, hne⟩ := h.exists_getLast?
    cases n with
    | zero =>
      refine absurd ?_ q.not_doubled_within_render
      rw [List.replicate_zero, List.append_nil] at htext
      exact ⟨front, name.toList, htext⟩
    | succ n =>
      -- The text ends as the name does, and no name ends with a slash.
      have hlast := congrArg List.getLast? htext
      rw [List.replicate_succ', ← List.append_assoc, List.getLast?_concat, List.getLast?_append,
        hc] at hlast
      exact absurd (Option.some.inj hlast) hne

end NodePath
end TreeConsole
