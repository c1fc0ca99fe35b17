import TreeConsole.Proofs.Question.Console

/-!
# Answers from a source that ends

Where what can be read is a list that gets shorter with every reading, a question is not put for
ever: every round takes an entry away, and at the end of the list there is nothing to go by. What a
question takes for itself is the beginning of the list, up to the first line that begins with a
letter y or n, or up to the first entry that is no line. The next question finds the rest. If it
cannot be written, it takes nothing.

Nothing is supposed of what can be written, and when.

## Main definitions

* `Console.Draws` — what is read over a console comes from a list
* `Console.ofList` — the console that any means of writing makes with any list
* `Console.Splits`, `Console.Series` — what a question takes for itself, and some questions in turn
* `Confirmer.askAll` — the answers to some questions in turn

## Main results

* `Console.draws_ofList`, `Console.draws_terminal` — consoles that draw on a list
* `Console.Draws.splits` — a question is answered, and splits the list
* `Confirmer.answers_split` — so do any number of questions, one after the other
* `Confirmer.onTerminal_splits` — at a terminal, what was laid out to be read is split
-/

namespace TreeConsole

variable {ι : Type} {c : Console ι} {left : ι → List Delivery} {q : Question} {d : Delivery}

/-! ### What an answer begins with -/

theorem Verdict.ofFirst_eq_no_iff {first : Option Char} :
    ofFirst first = .no ↔ first = some 'n' ∨ first = some 'N' := by
  unfold ofFirst
  split <;> simp_all

theorem Verdict.ofFirst_eq_unclear_iff {first : Option Char} :
    ofFirst first = .unclear ↔ ∀ c ∈ first, c ∉ ['y', 'Y', 'n', 'N'] := by
  cases first with
  | none => simp [ofFirst]
  | some c =>
    unfold ofFirst
    split <;> simp_all

theorem Verdict.ofFirst_ne_silent (first : Option Char) : ofFirst first ≠ .silent := by
  unfold ofFirst
  split <;> exact Verdict.noConfusion

namespace Delivery

/-- A delivery that is no line: the end of the input, or a reading that was broken off or failed. -/
def IsSilence (d : Delivery) : Prop :=
  (∃ text, d = .line 0 text) ∨ d = .interrupted ∨ ∃ reason, d = .failed reason

theorem IsSilence.verdict (h : d.IsSilence) : d.verdict = .silent := by
  rcases h with ⟨text, rfl⟩ | rfl | ⟨reason, rfl⟩ <;> rfl

/-- Every delivery but silence is a line, and says what its first character says. -/
theorem silence_or_line (d : Delivery) :
    d.IsSilence ∨
      ∃ count text, d = .line count text ∧ count ≠ 0 ∧ d.verdict = .ofFirst text.toList.head? := by
  cases d with
  | line count text =>
    cases count with
    | zero => exact Or.inl (Or.inl ⟨text, rfl⟩)
    | succ count => exact Or.inr ⟨_, text, rfl, count.succ_ne_zero, rfl⟩
  | interrupted => exact Or.inl (Or.inr (Or.inl rfl))
  | failed reason => exact Or.inl (Or.inr (Or.inr ⟨reason, rfl⟩))

theorem isSilence_of_verdict (h : d.verdict = .silent) : d.IsSilence := by
  rcases d.silence_or_line with hsilence | ⟨_, _, -, -, hv⟩
  · exact hsilence
  · exact absurd (hv.symm.trans h) (Verdict.ofFirst_ne_silent _)

end Delivery

namespace Console

/-! ### Consoles that draw on a list -/

/-- What is read over a console comes from a list, as much of which is left as a state says. Writing
takes nothing from it, and where nothing is left only silence is read. -/
structure Draws (c : Console ι) (left : ι → List Delivery) : Prop where
  write : ∀ text s, left (c.write text s).2 = left s
  flush : ∀ s, left (c.flush s).2 = left s
  read : ∀ {s d rest}, left s = d :: rest → (c.read s).1 = d ∧ left (c.read s).2 = rest
  ended : ∀ {s}, left s = [] → (c.read s).1.IsSilence ∧ left (c.read s).2 = []

/-- Any means of writing, with a list of what will be read and then the end of the input. -/
def ofList {ω : Type} (write : String → ω → Bool × ω) (flush : ω → Bool × ω) :
    Console (ω × List Delivery) where
  write text s := ((write text s.1).1, (write text s.1).2, s.2)
  flush s := ((flush s.1).1, (flush s.1).2, s.2)
  read
    | (o, []) => (.line 0 "", o, [])
    | (o, d :: rest) => (d, o, rest)

theorem draws_ofList {ω : Type} (write : String → ω → Bool × ω) (flush : ω → Bool × ω) :
    (ofList write flush).Draws Prod.snd where
  write _ _ := rfl
  flush _ := rfl
  read {s d rest} h := by
    obtain ⟨o, ds⟩ := s
    cases h
    exact ⟨rfl, rfl⟩
  ended {s} h := by
    obtain ⟨o, ds⟩ := s
    cases h
    exact ⟨Or.inl ⟨"", rfl⟩, rfl⟩

theorem draws_terminal : terminal.Draws fun t => t.incoming.map Reading.delivery where
  write _ _ := rfl
  flush _ := rfl
  read {t d rest} h := by
    obtain ⟨r, rs, hincoming, rfl, rfl⟩ := List.map_eq_cons_iff.mp h
    simp only [terminal, Terminal.read_of_incoming hincoming]
    exact ⟨trivial, trivial⟩
  ended {t} h := by
    have hincoming : t.incoming = [] := List.map_eq_nil_iff.mp h
    refine ⟨Delivery.isSilence_of_verdict ?_, ?_⟩
    · have hread : t.read.1 = t.ending.reading := by rw [Terminal.read, hincoming]
      have hdelivery : (terminal.read t).1 = t.ending.reading.delivery :=
        congrArg Reading.delivery hread
      rw [hdelivery, Reading.verdict_delivery, Ending.verdict_reading]
    · have hread : t.read.2.incoming = [] := by simp only [Terminal.read, hincoming]
      exact List.map_eq_nil_iff.mpr hread

theorem Draws.writeOut (h : c.Draws left) (text : String) (s : ι) :
    left (c.writeOut text s).2 = left s := by
  have hwrite := h.write text s
  unfold Console.writeOut
  rcases hw : c.write text s with ⟨_ | _, s₁⟩ <;> rw [hw] at hwrite
  · exact hwrite
  · exact (h.flush s₁).trans hwrite

/-! ### Splitting the list -/

/-- What putting a question does to a list of what can be read, and to whatever is written on: which
part of the list is read, with what answer, and what is left. Before anything is read the question
is written out. -/
inductive Splits (c : Console ι) (q : Question) :
    ι → List Delivery → Bool → ι → List Delivery → Prop
  /-- The first line that begins with one of the four letters is the last one that is read. -/
  | yes {s s₁ s' : ι} {count : Nat} {text : String} {rest : List Delivery}
    (written : c.writeOut q.text s = (true, s₁)) (read : c.read s₁ = (.line count text, s'))
    (nonempty : count ≠ 0) (first : text.toList.head? = some 'y' ∨ text.toList.head? = some 'Y') :
    Splits c q s (.line count text :: rest) true s' rest
  | no {s s₁ s' : ι} {count : Nat} {text : String} {rest : List Delivery}
    (written : c.writeOut q.text s = (true, s₁)) (read : c.read s₁ = (.line count text, s'))
    (nonempty : count ≠ 0) (first : text.toList.head? = some 'n' ∨ text.toList.head? = some 'N') :
    Splits c q s (.line count text :: rest) false s' rest
  /-- Any other line is read too, and then the question is put again. -/
  | unclear {s s₁ s₂ s' : ι} {count : Nat} {text : String} {rest rest' : List Delivery}
    {answer : Bool} (written : c.writeOut q.text s = (true, s₁))
    (read : c.read s₁ = (.line count text, s₂)) (nonempty : count ≠ 0)
    (first : ∀ c ∈ text.toList.head?, c ∉ ['y', 'Y', 'n', 'N'])
    (again : Splits c q s₂ rest answer s' rest') :
    Splits c q s (.line count text :: rest) answer s' rest'
  /-- At an entry that is no line the default is taken and the line is ended, if it can be. -/
  | silent {s s₁ s₂ : ι} {d : Delivery} {rest : List Delivery}
    (written : c.writeOut q.text s = (true, s₁)) (read : c.read s₁ = (d, s₂))
    (silence : d.IsSilence) : Splits c q s (d :: rest) q.default (c.write "\n" s₂).2 rest
  /-- At the end of the list too. -/
  | ended {s s₁ s₂ : ι} {d : Delivery} (written : c.writeOut q.text s = (true, s₁))
    (read : c.read s₁ = (d, s₂)) (silence : d.IsSilence) :
    Splits c q s [] q.default (c.write "\n" s₂).2 []
  /-- Nothing is read for a question that cannot be written out. -/
  | unwritten {s s₁ : ι} {rest : List Delivery} (failed : c.writeOut q.text s = (false, s₁)) :
    Splits c q s rest q.default (c.write "\n" s₁).2 rest

/-- Some questions in turn: each splits what the one before it has left. -/
inductive Series (c : Console ι) :
    List Question → ι → List Delivery → List Bool → ι → List Delivery → Prop
  | nil (s : ι) (rest : List Delivery) : Series c [] s rest [] s rest
  | cons {q : Question} {qs : List Question} {s s₁ s' : ι} {source rest rest' : List Delivery}
    {answer : Bool} {answers : List Bool} (first : c.Splits q s source answer s₁ rest)
    (others : Series c qs s₁ rest answers s' rest') :
    Series c (q :: qs) s source (answer :: answers) s' rest'

/-- Over a list a question is answered, and splits it. -/
theorem Draws.splits (h : c.Draws left) (q : Question) (s : ι) :
    ∃ answer s', (answer, s') ∈ q.put c s ∧ c.Splits q s (left s) answer s' (left s') := by
  -- By what is left: every round but the last takes an entry away.
  induction hsize : (left s).length using Nat.strong_induction_on generalizing s with
  | _ size ih =>
    have hleft := h.writeOut q.text s
    rcases hwrite : c.writeOut q.text s with ⟨_ | _, s₁⟩ <;> rw [hwrite] at hleft
    · refine ⟨_, _, Question.mem_put_of_settled (.unwritten hwrite), ?_⟩
      rw [h.write, hleft]
      exact .unwritten hwrite
    · rcases hread : c.read s₁ with ⟨d, s₂⟩
      have hround : c.Round q d.verdict s s₂ := ⟨s₁, d, hwrite, hread, rfl⟩
      cases hsource : left s with
      | nil =>
        obtain ⟨hsilence, hrest⟩ := h.ended (hleft.trans hsource)
        rw [hread] at hsilence hrest
        rw [hsilence.verdict] at hround
        refine ⟨_, _, Question.mem_put_of_settled (.silent hround), ?_⟩
        rw [h.write, hrest]
        exact .ended hwrite hread hsilence
      | cons d' rest =>
        obtain ⟨hd, hrest⟩ := h.read (hleft.trans hsource)
        rw [hread] at hd hrest
        obtain rfl : d = d' := hd
        rcases d.silence_or_line with hsilence | ⟨count, text, rfl, hcount, hv⟩
        · rw [hsilence.verdict] at hround
          refine ⟨_, _, Question.mem_put_of_settled (.silent hround), ?_⟩
          rw [h.write, hrest]
          exact .silent hwrite hread hsilence
        · subst hrest
          rw [hv] at hround
          cases hfirst : Verdict.ofFirst text.toList.head? with
          | yes =>
            rw [hfirst] at hround
            exact ⟨true, s₂, Question.mem_put_of_settled (.yes hround),
              .yes hwrite hread hcount (Verdict.ofFirst_eq_yes_iff.mp hfirst)⟩
          | no =>
            rw [hfirst] at hround
            exact ⟨false, s₂, Question.mem_put_of_settled (.no hround),
              .no hwrite hread hcount (Verdict.ofFirst_eq_no_iff.mp hfirst)⟩
          | unclear =>
            rw [hfirst] at hround
            have hless : (left s₂).length < size := by
              rw [← hsize, hsource]
              exact Nat.lt_succ_self _
            obtain ⟨answer, s', hput, hsplits⟩ := ih _ hless s₂ rfl
            exact ⟨answer, s', Question.mem_put_of_round hround hput,
              .unclear hwrite hread hcount (Verdict.ofFirst_eq_unclear_iff.mp hfirst) hsplits⟩
          | silent => exact absurd hfirst (Verdict.ofFirst_ne_silent _)

end Console

/-! ### Questions in turn -/

namespace Confirmer

variable {κ : Type}

/-- The answers to some questions, put one after the other. -/
def askAll (c : Confirmer κ) : List Question → κ → List Bool × κ
  | [], k => ([], k)
  | q :: qs, k =>
    let r := c.ask q k
    let others := c.askAll qs r.2
    (r.1 :: others.1, others.2)

theorem onConsole_splits (h : c.Draws left) (q : Question) (s : ι) :
    (q.put c s).Dom ∧
      c.Splits q s (left s) ((onConsole c).ask q s).1 ((onConsole c).ask q s).2
        (left ((onConsole c).ask q s).2) := by
  classical
  obtain ⟨answer, s', hput, hsplits⟩ := h.splits q s
  have hask : (onConsole c).ask q s = (q.put c s).getOrElse (q.default, s) := rfl
  rw [Part.eq_some_iff.mpr hput, Part.getOrElse_some] at hask
  rw [hask]
  exact ⟨Part.dom_iff_mem.mpr ⟨_, hput⟩, hsplits⟩

theorem onConsole_series (h : c.Draws left) (qs : List Question) (s : ι) :
    c.Series qs s (left s) ((onConsole c).askAll qs s).1 ((onConsole c).askAll qs s).2
      (left ((onConsole c).askAll qs s).2) := by
  induction qs generalizing s with
  | nil => exact .nil s (left s)
  | cons q qs ih => exact .cons (onConsole_splits h q s).2 (ih _)

/-- Over a list every question is answered, and questions that are put one after the other split the
list, each what the one before it has left. -/
theorem answers_split (h : c.Draws left) (qs : List Question) (s : ι) :
    (∀ (q : Question) (s : ι), (q.put c s).Dom) ∧
      c.Series qs s (left s) ((onConsole c).askAll qs s).1 ((onConsole c).askAll qs s).2
        (left ((onConsole c).askAll qs s).2) :=
  ⟨fun q s => (onConsole_splits h q s).1, onConsole_series h qs s⟩

/-- The first question is put twice, the second gets no answer and the third cannot be written, so
that the line that is left is not read. -/
theorem answers_split_short_of_room :
    let line text := Reading.ofBytes (Utf8.ofText text)
    let t : Terminal :=
      { Terminal.ofReadings [line "maybe\n", line "Yes\n", .interrupted, line "y\n"] with
        room := some 34 }
    let qs : List Question := [⟨"One?", false⟩, ⟨"Two?", true⟩, ⟨"Six?", false⟩]
    let left := fun t : Terminal => t.incoming.map Reading.delivery
    ∃ t', Console.terminal.Draws left ∧
      Console.terminal.Series qs t (left t) [true, true, false] t' [.line 2 "y\n"] ∧
      t'.output = Utf8.ofText "One? [y/n] One? [y/n] Two? [y/n] \n" := by
  intro line t qs left
  obtain ⟨-, hseries⟩ := answers_split Console.draws_terminal qs t
  rw [onConsole_terminal] at hseries
  have hanswers : (onTerminal.askAll qs t).1 = [true, true, false] := by decide +kernel
  have hleft : left (onTerminal.askAll qs t).2 = [.line 2 "y\n"] := by decide +kernel
  refine ⟨(onTerminal.askAll qs t).2, Console.draws_terminal, ?_, by decide +kernel⟩
  rw [← hanswers, ← hleft]
  exact hseries

/-- At a terminal what was laid out to be read is split. -/
theorem onTerminal_splits (qs : List Question) (t : Terminal) :
    Console.terminal.Series qs t (t.incoming.map Reading.delivery) (onTerminal.askAll qs t).1
      (onTerminal.askAll qs t).2 ((onTerminal.askAll qs t).2.incoming.map Reading.delivery) := by
  have hseries := onConsole_series Console.draws_terminal qs t
  rwa [onConsole_terminal] at hseries

end Confirmer
end TreeConsole
