import TreeConsole.Command.Handler
import TreeConsole.Proofs.Act.Triple
import TreeConsole.Proofs.Command.Partition

/-!
# Arguments that have to be given

The argument positions of a command say what a line has to give, and its handler says what it cannot
do without. Both mean the same position: where a line of the right form was read, the handler finds
what it needs, and if the command fails all the same, the store or the editor is to blame and not
the line. That holds of an editor that fails with the failure that is meant for editors; any other
could say of itself that the line was to blame.

## Main definitions

* `Keyword.Needs` — a command fails without the argument at a position
* `Act.Blameless` — an act that never fails with a failure that blames the line

## Main results

* `exists_arg_of_validate` — a line of the right form gives every argument that has to be given
* `Keyword.needs_of_required` — the handler of a command needs the arguments that have to be given
* `Command.handle_blameless` — a command that has them never blames the line
-/

namespace TreeConsole

variable {k : Keyword} {slot : Slot} {line : String} {t : Token} {i : Nat}

/-! ### What a line gives -/

/-- What stands where a kind is asked for is, as a text, of that kind. -/
theorem accepts_of_isKind {kind : TokenKind} (ht : t ∈ scan line) (h : t.isKind kind = true) :
    kind.accepts t.text = true := by
  have hshape := lexeme_of_mem_scanFrom ht
  unfold Token.isKind at h
  split at h
  · exact h
  · exact h
  · rename_i hpath
    rw [hpath] at hshape
    rcases hshape with hshape | hshape
    · cases hshape
    · exact isPathShape_iff.mpr (ofChunk_eq_path_iff.mp hshape.symm)
  · rename_i hquoted
    rw [hquoted] at hshape
    rcases hshape with hshape | hshape
    · cases hshape
    · exact isQuotedShape_iff.mpr (ofChunk_eq_quoted_iff.mp hshape.symm)
  · cases h

/-- Only the first argument of a command ever has to be given. -/
theorem Keyword.eq_zero_of_required (h : k.slots[i]? = some slot) (hslot : slot.optional = false) :
    i = 0 := by
  rcases i with _ | i
  · rfl
  · rcases i with _ | i <;> cases k <;> cases h
    cases hslot

/-- A line of the right form gives every argument that has to be given, and it is of its kind. -/
theorem exists_arg_of_validate {token : Token} {rest : List Token}
    (hscan : scan line = token :: rest) (hfills : fills k.slots rest = true)
    (h : k.slots[i]? = some slot) (hslot : slot.optional = false) :
    ∃ a, (rest.map Token.text)[i]? = some a ∧ slot.kind.accepts a = true := by
  obtain rfl := Keyword.eq_zero_of_required h hslot
  obtain ⟨slots, hslots⟩ : ∃ slots, k.slots = slot :: slots := by
    cases hk : k.slots with
    | nil =>
      rw [hk] at h
      cases h
    | cons first slots =>
      rw [hk] at h
      cases h
      exact ⟨slots, rfl⟩
  rw [hslots] at hfills
  unfold fills at hfills
  rw [hslot, Bool.false_and, Bool.or_false] at hfills
  cases rest with
  | nil => cases hfills
  | cons t rest =>
    have ht : t ∈ scan line := by simp [hscan]
    exact ⟨t.text, rfl, accepts_of_isKind ht (Bool.and_eq_true_iff.mp hfills).1⟩

/-! ### What a handler needs -/

/-- A command cannot do without the argument at a position: where it is not given, the command says
that it is lacking and does nothing. -/
def Keyword.Needs (k : Keyword) (i : Nat) : Prop :=
  ∀ {σ ε : Type} (client : Client σ) (editor : Editor ε) (c : Command) (d : Desk σ ε),
    c.keyword = k → c.arg? i = none →
      ∃ what, (c.handle client editor).run d = (.error (c.lacking what), d)

theorem Command.run_pathArg_bind_of_none {σ ε α : Type} {c : Command} (h : c.arg? 0 = none)
    (f : String → Act (Desk σ ε) α) (d : Desk σ ε) :
    (c.pathArg >>= f).run d = (.error (c.lacking "a path"), d) := by
  refine Act.bind_of_error ?_
  rw [pathArg, h]
  rfl

/-- The arguments that have to be given are those that the handler needs. -/
theorem Keyword.needs_of_required (h : k.slots[i]? = some slot) (hslot : slot.optional = false) :
    k.Needs i := by
  obtain rfl := eq_zero_of_required h hslot
  intro σ ε client editor c d hk hnone
  unfold Command.handle
  rw [hk]
  cases k
  case create | delete | edit | get | ls | rmr | set | stat =>
    exact ⟨_, Command.run_pathArg_bind_of_none hnone _ d⟩
  case raw =>
    refine ⟨"an admin word", ?_⟩
    simp only [Command.sendWord, hnone]
    rfl
  case help => cases h; cases hslot
  all_goals cases h

/-! ### Who is to blame -/

/-- A failure is put down to the line, and not to the store, the editor or the mode. -/
def ShellError.blamesLine : ShellError → Bool
  | unknownCommand _ | invalidArguments _ _ => true
  | _ => false

namespace Act

variable {ω α β : Type} {a : Act ω α} {f : α → Act ω β}

/-- If an act fails, the line is not to blame. -/
def Blameless (a : Act ω α) : Prop :=
  Triple (fun _ => True) a fun r _ => ∀ e, r = .error e → e.blamesLine = false

theorem blameless_pure (x : α) : Blameless (pure x : Act ω α) := fun _ _ e he => by cases he

theorem blameless_view (f : ω → α) : Blameless (view f) := fun _ _ e he => by cases he

theorem blameless_update (f : ω → ω) : Blameless (update f) := fun _ _ e he => by cases he

theorem Blameless.bind (ha : Blameless a) (hf : ∀ x, Blameless (f x)) : Blameless (a >>= f) :=
  Triple.bind ha (fun x w _ => hf x w trivial) fun e _ he e' he' => by
    cases he'
    exact he e rfl

end Act

namespace Command

open Act (Blameless)

variable {σ ε : Type} {client : Client σ} {editor : Editor ε} {c : Command} {path : String}

theorem request_blameless (q : Request) :
    Blameless (Desk.request client q : Act (Desk σ ε) q.Answer) := by
  intro d _ e he
  rw [Desk.run_request] at he
  cases ha : (client.answer q d.store).1 with
  | ok a =>
    rw [ha] at he
    cases he
  | error e' =>
    rw [ha] at he
    cases he
    cases e' <;> rfl

theorem openEditor_blameless (heditor : editor.FailsAsEditor) (path : String) (payload : Bytes) :
    Blameless (Desk.openEditor editor path payload : Act (Desk σ ε) Bytes) := by
  intro d _ e he
  obtain ⟨reason, rfl⟩ := heditor path payload d.editor e he
  rfl

theorem payloadOf_blameless (path : String) :
    Blameless (payloadOf client path : Act (Desk σ ε) Bytes) := by
  refine (request_blameless _).bind fun (payload : Option Bytes) => ?_
  cases payload with
  | none =>
    intro d _ e he
    cases he
    rfl
  | some payload => exact Act.blameless_pure _

theorem markParents_blameless (path : String) (names : List String) :
    Blameless (markParents client path names : Act (Desk σ ε) (List String)) := by
  induction names with
  | nil => exact Act.blameless_pure _
  | cons name names ih =>
    exact (request_blameless _).bind fun _ => ih.bind fun _ => Act.blameless_pure _

theorem store_blameless (path : String) (payload : Bytes) :
    Blameless (store client path payload : Act (Desk σ ε) Unit) := by
  refine (request_blameless _).bind fun (isThere : Bool) => ?_
  cases isThere with
  | false => exact request_blameless _
  | true => exact request_blameless _

theorem pathArg_blameless (h : c.arg? 0 = some path) :
    Blameless (c.pathArg : Act (Desk σ ε) String) := by
  rw [pathArg, h]
  exact Act.blameless_pure _

/-- A command that has the arguments it needs never blames the line. -/
theorem handle_blameless (heditor : editor.FailsAsEditor) (c : Command)
    (h : ∀ slot, c.keyword.slots[0]? = some slot → slot.optional = false → ∃ a, c.arg? 0 = some a) :
    Blameless (c.handle client editor) := by
  have hpath : c.keyword.slots[0]? = some (.required .path) →
      Blameless (c.pathArg : Act (Desk σ ε) String) := by
    intro hslot
    obtain ⟨a, ha⟩ := h _ hslot rfl
    exact pathArg_blameless ha
  unfold handle
  cases hk : c.keyword <;> rw [hk] at h hpath
  case close | exit | quit | help => exact Act.blameless_pure _
  case create | delete | rmr | stat =>
    exact (hpath rfl).bind fun _ => (request_blameless _).bind fun _ => Act.blameless_pure _
  case edit =>
    refine (hpath rfl).bind fun path => (payloadOf_blameless path).bind fun payload => ?_
    refine (openEditor_blameless heditor path payload).bind fun new => ?_
    split
    · exact Act.blameless_pure _
    · exact (request_blameless _).bind fun _ => Act.blameless_pure _
  case get =>
    exact (hpath rfl).bind fun path => (payloadOf_blameless path).bind fun _ => Act.blameless_pure _
  case ls =>
    refine (hpath rfl).bind fun path => (request_blameless _).bind fun _ => ?_
    refine (markParents_blameless path _).bind fun _ => ?_
    exact (Act.blameless_view _).bind fun _ => Act.blameless_pure _
  case raw =>
    obtain ⟨word, hword⟩ := h _ rfl rfl
    rw [sendWord, hword]
    exact (request_blameless _).bind fun _ => Act.blameless_pure _
  case set =>
    exact (hpath rfl).bind fun path => (store_blameless path _).bind fun _ => Act.blameless_pure _
  case toggleWrite =>
    refine (Act.blameless_update _).bind fun _ => ?_
    exact (Act.blameless_view _).bind fun _ => Act.blameless_pure _

end Command
end TreeConsole
