import TreeConsole.Disk

/-!
# Appending to files

A file that can be read can be appended to, and then holds what it held and the new bytes behind it.
The way to a file leads through folders, which appending does not touch, so that the path leads
where it led before.

## Main results

* `Disk.locate_put_file` — what a file holds does not matter to where paths lead
* `Disk.read_append` — appending to a file that can be read
-/

namespace TreeConsole.Disk

variable {d : Disk} {p : Place} {path : String} {content : Bytes}

/-- Names lead where they led when only the content of a file is replaced. -/
theorem follow_put_file (h : d.item? p = some (.file content)) (bytes : Bytes) (here : Place)
    (names : List String) : (d.put p (.file bytes)).follow here names = d.follow here names := by
  have hfixture := fixture?_of_item?_file h
  induction names generalizing here with
  | nil => rfl
  | cons name names ih =>
    by_cases hhere : here = p
    · -- No names lead through a file.
      subst hhere
      simp only [follow, h, item?_put_self hfixture]
    · simp only [follow, item?_put_of_ne hhere, ih]

theorem locate_put_file (h : d.item? p = some (.file content)) (bytes : Bytes) (path : String) :
    (d.put p (.file bytes)).locate path = d.locate path := by
  simp only [locate, follow_put_file h]
  rfl

/-- What can be read is a file at some place. -/
theorem read_eq_ok_iff :
    d.read path = .ok content ↔
      ∃ p, d.locate path = .ok p ∧ d.item? p = some (.file content) := by
  constructor
  · intro h
    unfold read at h
    split at h
    · cases h
    · next p hp =>
      split at h
      · cases h
      · cases h
      · next held hitem =>
        cases h
        exact ⟨p, hp, hitem⟩
      · cases h
  · rintro ⟨p, hp, hitem⟩
    simp only [read, hp, hitem]

/-- A file that can be read is appended to: it holds what it held and then the new bytes. -/
theorem read_append (h : d.read path = .ok content) (bytes : Bytes) :
    ∃ d', d.append path bytes = .ok d' ∧ d'.read path = .ok (content ++ bytes) := by
  obtain ⟨p, hp, hitem⟩ := read_eq_ok_iff.mp h
  refine ⟨d.put p (.file (content ++ bytes)), ?_, ?_⟩
  · simp only [append, hp, hitem]
  · refine read_eq_ok_iff.mpr ⟨p, ?_, item?_put_self (fixture?_of_item?_file hitem)⟩
    rw [locate_put_file hitem, hp]

end TreeConsole.Disk
