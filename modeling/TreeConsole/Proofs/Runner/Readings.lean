import TreeConsole.Proofs.Command.Arguments
import TreeConsole.Proofs.Runner.Course
import TreeConsole.Proofs.Runner.Table

/-!
# Two readings of a line

A line is checked by one reading and taken apart by another, which passes over what it does not
know. If the two ever disagreed on a line that was accepted, an argument would be lost or take the
place of another. They do not: what the second reading takes from an accepted line is all of it, and
the handler finds each argument where it looks for it. So whatever a runner says against a line was
said by the check already, unless an editor puts its own failure down to the line.

## Main results

* `Command.validate_of_ofLine_error` — the second reading fails with what the check said, or not at
  all
* `Runner.validate_of_run_blames` — so does a whole run
* `Runner.readings_agree` — the two readings agree on every line
-/

namespace TreeConsole

variable {σ κ ε τ : Type} {line : String} {k : Keyword}

theorem Keyword.helpText_ne_generalHelp (k : Keyword) : k.helpText ≠ generalHelp := by
  cases k <;> decide +kernel

theorem Command.validate_of_ofLine_error {e : ShellError} (h : ofLine line = .error e) :
    validate line = .error e := by
  cases hvalid : validate line with
  | error e' =>
    rw [ofLine, hvalid] at h
    cases h
    rfl
  | ok k =>
    obtain ⟨token, rest, -, -, hok⟩ := ofLine_of_validate hvalid
    rw [hok] at h
    cases h

/-- The arguments of a command that was taken from a line are there where its handler needs them. -/
theorem Command.exists_arg_of_ofLine {c : Command} {i : Nat} {slot : Slot}
    (h : ofLine line = .ok c) (hi : c.keyword.slots[i]? = some slot)
    (hslot : slot.optional = false) :
    ∃ a, c.arg? i = some a ∧ slot.kind.accepts a = true := by
  obtain ⟨token, rest, hscan, hfills, hok⟩ := ofLine_of_validate (validate_of_ofLine h)
  obtain ⟨a, ha, haccepts⟩ := exists_arg_of_validate hscan hfills hi hslot
  have hc : c = ⟨c.keyword, rest.map Token.text⟩ := Except.ok.inj (h.symm.trans hok)
  rw [hc]
  exact ⟨a, ha, haccepts⟩

theorem Command.exists_first_arg_of_ofLine {c : Command} (h : ofLine line = .ok c) (slot : Slot)
    (hslot : c.keyword.slots[0]? = some slot) (hrequired : slot.optional = false) :
    ∃ a, c.arg? 0 = some a :=
  (exists_arg_of_ofLine h hslot hrequired).imp fun _ ha => ha.1

namespace Runner

/-- A failure that a run puts down to the line is the one of the check. -/
theorem validate_of_run_blames {r : Runner σ κ ε τ} {w : World σ κ ε τ} {e : ShellError}
    (heditor : r.editor.FailsAsEditor) (h : (r.run line w).1 = .error e)
    (he : e.blamesLine = true) : validate line = .error e := by
  obtain ⟨result, d, asker, hcourse, hresult, -, -⟩ := r.run_course line w
  rw [hresult] at h
  cases hcourse with
  | blank => cases h
  | malformed _ hline =>
    cases h
    exact Command.validate_of_ofLine_error hline
  | refused =>
    cases h
    cases he
  | declined => cases h
  | @done c _ hline =>
    -- The command has what it needs, and then nothing else can be wrong with the line.
    have hargs := Command.exists_first_arg_of_ofLine hline
    have hblameless := c.handle_blameless heditor hargs w.desk trivial e h
    rw [he] at hblameless
    cases hblameless

/-- A line that asks for the help of a command gets that. -/
theorem run_help {r : Runner σ κ ε τ} {w : World σ κ ε τ} {word : String}
    (h : validate line = .ok .help) (hargs : (scan line).tail.map Token.text = [word]) :
    ∃ k : Keyword, word = k.word ∧ (r.run line w).1 = .ok (Command.saying k.helpText) := by
  obtain ⟨token, rest, hscan, hfills, hok⟩ := Command.ofLine_of_validate h
  rw [hscan, List.tail_cons] at hargs
  obtain ⟨t, rfl, rfl⟩ := List.map_eq_singleton_iff.mp hargs
  -- The one argument fills the one position, so it is a command word.
  have hkind : t.isKind .command = true := by
    simpa [Keyword.slots, Slot.allowed, fills] using hfills
  have ht : t ∈ scan line := by simp [hscan]
  obtain ⟨k, hk⟩ := Option.isSome_iff_exists.mp (accepts_of_isKind ht hkind)
  refine ⟨k, Keyword.ofWord?_eq_some_iff.mp hk, ?_⟩
  rw [(run_of_ofLine hok).1]
  have hexplain : Command.explain ⟨.help, [t.text]⟩ = Command.saying k.helpText := by
    have harg : (Command.arg? ⟨.help, [t.text]⟩ 0).bind Keyword.ofWord? = some k := hk
    rw [Command.explain, harg]
  exact congrArg Except.ok hexplain

/-- The two readings of a line agree: of an accepted line the second one takes the command that the
first one saw, with all that comes behind the command word, and every argument that has to be given
is where the handler needs it. So a run says of a line that it is unknown, or that its arguments do
not fit, only when the check said so, whatever editor it is run with, as long as that fails as an
editor; no command is missed in the table; and whoever asks for the help of a command gets that and
not the general help. -/
theorem readings_agree (line : String) :
    (∀ k, validate line = .ok k → ∃ c, Command.ofTokens? (tokenize line) = some c ∧
        c.keyword = k ∧ c.args = (scan line).tail.map Token.text ∧
        ∀ i slot, k.slots[i]? = some slot → slot.optional = false →
          k.Needs i ∧ ∃ a, c.arg? i = some a ∧ slot.kind.accepts a = true) ∧
      ∀ (r : Runner σ κ ε τ) (w : World σ κ ε τ),
        (r.editor.FailsAsEditor →
          (∀ text, (r.run line w).1 = .error (.unknownCommand text) →
            validate line = .error (.unknownCommand text)) ∧
          ∀ k reason, (r.run line w).1 = .error (.invalidArguments k reason) →
            validate line = .error (.invalidArguments k reason)) ∧
        (∀ c, ((CommandTable.standard r.client r.editor).lookup c.keyword).isSome = true ∧
          r.dispatchFrom (.standard r.client r.editor) c w = r.dispatch c w) ∧
        ∀ word, validate line = .ok .help → (scan line).tail.map Token.text = [word] →
          ∃ k : Keyword, word = k.word ∧ (r.run line w).1 = .ok (Command.saying k.helpText) ∧
            k.helpText ≠ generalHelp := by
  refine ⟨fun k hk => ?_, fun r w => ⟨fun heditor => ⟨fun text h => ?_, fun k reason h => ?_⟩,
    fun c => ?_, fun word hhelp hargs => ?_⟩⟩
  · obtain ⟨token, rest, hscan, hkeyword, hfills⟩ := validate_eq_ok_iff.mp hk
    refine ⟨⟨k, rest.map Token.text⟩, ?_, rfl, by rw [hscan, List.tail_cons], ?_⟩
    · rw [tokenize_of_validate hk]
      exact Command.ofTokens?_eq_some_iff.mpr ⟨token, rest, hscan, hkeyword, rfl⟩
    · intro i slot hi hslot
      exact ⟨Keyword.needs_of_required hi hslot, exists_arg_of_validate hscan hfills hi hslot⟩
  · exact validate_of_run_blames heditor h rfl
  · exact validate_of_run_blames heditor h rfl
  · rw [CommandTable.lookup_standard, dispatchFrom_standard]
    exact ⟨rfl, rfl⟩
  · obtain ⟨k, hword, hrun⟩ := run_help (r := r) (w := w) hhelp hargs
    exact ⟨k, hword, hrun, k.helpText_ne_generalHelp⟩

/-- The word `stat` is a command and an admin word, and each reading takes it for what is asked for
in its place. -/
theorem readings_agree_stat :
    let r : Runner Unit Unit Unit Unit :=
      ⟨⟨fun _ s => (.error (.connection "lost"), s)⟩, .assumeDefault,
        ⟨fun _ payload e => (.ok payload, e)⟩, none⟩
    let w : World Unit Unit Unit Unit := ⟨⟨(), .start false, ()⟩, (), (), []⟩
    r.editor.FailsAsEditor ∧ validate "raw stat" = .ok .raw ∧
      (∃ c, Command.ofTokens? (tokenize "raw stat") = some c ∧ c.keyword = .raw ∧
        Keyword.raw.Needs 0 ∧ ∃ a, c.arg? 0 = some a ∧ TokenKind.adminWord.accepts a = true) ∧
      (∃ k : Keyword, "stat" = k.word ∧
        (r.run "help stat" w).1 = .ok (Command.saying k.helpText)) ∧
      (r.run "lsx /a" w).1 = .error (.unknownCommand "lsx /a") ∧
      validate "lsx /a" = .error (.unknownCommand "lsx /a") ∧
      (r.run "set /a b" w).1 =
        .error (.invalidArguments .set "Command 'set /a b' is invalid") ∧
      validate "set /a b" =
        .error (.invalidArguments .set "Command 'set /a b' is invalid") := by
  intro r w
  have hraw : validate "raw stat" = .ok .raw := by decide +kernel
  have hhelp : validate "help stat" = .ok .help := by decide +kernel
  have hword : (scan "help stat").tail.map Token.text = ["stat"] := by decide +kernel
  have hunknown : (r.run "lsx /a" w).1 = .error (.unknownCommand "lsx /a") := by decide +kernel
  have hinvalid : (r.run "set /a b" w).1 =
      .error (.invalidArguments .set "Command 'set /a b' is invalid") := by decide +kernel
  obtain ⟨c, hc, hkeyword, -, hargs⟩ :=
    (@readings_agree Unit Unit Unit Unit "raw stat").1 .raw hraw
  have heditor : r.editor.FailsAsEditor := fun _ _ _ _ h => by cases h
  obtain ⟨-, -, hshown⟩ := (readings_agree "help stat").2 r w
  obtain ⟨k, hk, hrun, -⟩ := hshown "stat" hhelp hword
  refine ⟨heditor, hraw, ⟨c, hc, hkeyword, hargs 0 _ rfl rfl⟩, ⟨k, hk, hrun⟩, hunknown, ?_,
    hinvalid, ?_⟩
  · exact (((readings_agree "lsx /a").2 r w).1 heditor).1 _ hunknown
  · exact (((readings_agree "set /a b").2 r w).1 heditor).2 _ _ hinvalid

end Runner
end TreeConsole
