import TreeConsole.Proofs.Command.Assignment
import TreeConsole.Proofs.Command.Chunks
import TreeConsole.Runner

/-!
# Lines that are commands

A line is read twice: once strictly, to see whether it is a command of the right form, and once
more leniently, passing over chunks that could not stand anywhere, to take the command from it. A
line of the right form has no such chunks, so that the second reading finds the command that the
first one saw, with every chunk behind the command word for an argument.

## Main results

* `validate_eq_ok_iff` — the lines of the right form
* `Command.ofLine_of_validate` — the second reading takes what the first one saw
* `Command.validate_of_ofLine` — and takes nothing else
-/

namespace TreeConsole

variable {line : String} {k : Keyword} {tokens : List Token}

/-- Whatever fills an argument position could stand somewhere. -/
theorem isRecognized_of_fills {slots : List Slot} (h : fills slots tokens = true) :
    ∀ t ∈ tokens, t.isRecognized = true := by
  induction slots generalizing tokens with
  | nil =>
    have hnil : tokens = [] := List.isEmpty_iff.mp h
    simp [hnil]
  | cons slot slots ih =>
    rcases fills_cons_iff.mp h with ⟨token, rest, rfl, htakes, hrest⟩ | ⟨-, hrest⟩
    · exact List.forall_mem_cons.mpr ⟨Token.isRecognized_iff.mpr ⟨slot.kind, htakes⟩, ih hrest⟩
    · exact ih hrest

theorem isRecognized_of_keyword? {t : Token} (h : t.keyword? = some k) :
    t.isRecognized = true := by
  unfold Token.keyword? at h
  split at h
  · rename_i hkind
    exact Token.isRecognized_iff.mpr ⟨.command, hkind⟩
  · cases h

/-- A line is of the right form when its first chunk is a command word and the other chunks fill
the argument positions of the command. -/
theorem validate_eq_ok_iff : validate line = .ok k ↔
    ∃ token rest, scan line = token :: rest ∧ token.keyword? = some k ∧
      fills k.slots rest = true := by
  unfold validate leading
  rcases scan line with _ | ⟨token, rest⟩
  · simp
  · cases hk : token.keyword? with
    | none => simp [hk]
    | some keyword =>
      simp only [hk, List.cons.injEq]
      constructor
      · intro h
        by_cases hfills : fills keyword.slots rest = true
        · rw [if_pos hfills] at h
          cases h
          exact ⟨token, rest, ⟨rfl, rfl⟩, hk, hfills⟩
        · rw [if_neg hfills] at h
          cases h
      · rintro ⟨_, _, ⟨rfl, rfl⟩, hk', hfills⟩
        cases hk.symm.trans hk'
        rw [if_pos hfills]

/-- In a line of the right form every chunk can stand somewhere. -/
theorem tokenize_of_validate (h : validate line = .ok k) : tokenize line = scan line := by
  obtain ⟨token, rest, hscan, hk, hfills⟩ := validate_eq_ok_iff.mp h
  rw [tokenize, List.filter_eq_self, hscan]
  intro t ht
  rcases List.mem_cons.mp ht with rfl | ht
  · exact isRecognized_of_keyword? hk
  · exact isRecognized_of_fills hfills t ht

namespace Command

/-- The command of a line of the right form has all chunks after the first for its arguments. -/
theorem ofLine_of_validate (h : validate line = .ok k) :
    ∃ token rest, scan line = token :: rest ∧ fills k.slots rest = true ∧
      ofLine line = .ok ⟨k, rest.map Token.text⟩ := by
  obtain ⟨token, rest, hscan, hk, hfills⟩ := validate_eq_ok_iff.mp h
  have htokens : ofTokens? (tokenize line) = some ⟨k, rest.map Token.text⟩ := by
    rw [tokenize_of_validate h, hscan]
    exact ofTokens?_eq_some_iff.mpr ⟨token, rest, rfl, hk, rfl⟩
  refine ⟨token, rest, hscan, hfills, ?_⟩
  simp [ofLine, h, htokens, Option.filter]

/-- A command is taken only from a line of the right form. -/
theorem validate_of_ofLine {c : Command} (h : ofLine line = .ok c) :
    validate line = .ok c.keyword := by
  unfold ofLine at h
  split at h
  · cases h
  · rename_i keyword hvalid
    split at h
    · rename_i c' hfilter
      cases h
      have hkeyword := (Option.filter_eq_some_iff.mp hfilter).2
      rw [hvalid, of_decide_eq_true hkeyword]
    · cases h

end Command

/-- A line of the right form is not blank. -/
theorem isBlankText_of_validate (h : validate line = .ok k) : Text.isBlankText line = false := by
  obtain ⟨token, rest, hscan, -⟩ := validate_eq_ok_iff.mp h
  rw [← Bool.not_eq_true]
  intro hblank
  have hgap : line.toList ∈ Phrase.gap := List.all_eq_true.mp hblank
  rw [scan, scanFrom_of_gap hgap] at hscan
  cases hscan

end TreeConsole
