import TreeConsole.Proofs.Tree.Sound
import TreeConsole.Tree.Client
import TreeConsole.Tree.Seed

/-!
# Calls of a tree

What can be done to a tree from outside: it answers requests, it stores a payload whether or not the
node is there, and it takes over a document. Paths are given as texts, which need not name anything.
A tree is reachable when calls lead to it from the tree with only a root, whether they went through
or failed.

## Main definitions

* `Call`, with `Call.run`
* `Reachable` — the trees that calls lead to; `after` runs a list of them
* `Call.log`, `history` — what is put down of a call, and of a list of them

## Main results

* `Call.run_tells` — a call acts by changes that fit, and its log is what is put down of them
* `Reachable.sound` — every reachable tree is sound
* `Call.eq_of_run_error` — a call that fails leaves a sound tree alone, a document excepted
-/

namespace TreeConsole.Tree

variable {t : Tree} {clock : Clock}

/-- A call of a tree. -/
inductive Call where
  | ask (q : Request)
  /-- Replaces the payload of a node, or creates the node with it. -/
  | write (path : String) (payload : Bytes)
  /-- Writes the entries of a document. -/
  | seed (entries : List (String × Json))

namespace Call

/-- The type of the answer to a call. -/
def Answer : Call → Type
  | ask q => q.Answer
  | write _ _ | seed _ => Unit

/-- Does a call. -/
def run (clock : Clock) : (c : Call) → Tree → Result c.Answer
  | ask q, t => answer clock q t
  | write path payload, t => withPath path t fun p => t.write clock p payload
  | seed entries, t => t.seed clock entries

end Call

/-- The trees that calls lead to from a tree with only a root. Each call may have a clock of its
own. -/
inductive Reachable : Tree → Prop
  | start (clock : Clock) : Reachable (empty clock)
  | call {t : Tree} (clock : Clock) (c : Call) (h : Reachable t) : Reachable (c.run clock t).2

/-- The tree after some calls. -/
def after (calls : List (Clock × Call)) (t : Tree) : Tree :=
  calls.foldl (fun t c => (c.2.run c.1 t).2) t

theorem Reachable.after (h : Reachable t) (calls : List (Clock × Call)) :
    Reachable (t.after calls) := by
  induction calls generalizing t with
  | nil => exact h
  | cons c calls ih => exact ih (h.call c.1 c.2)

/-! ### What a call puts down -/

/-- The entries about the node that a path names, if it names one. -/
def entriesAt (path : String) (es : NodePath → List Entry) : List Entry :=
  (NodePath.parse? path).elim [] es

/-- What a request puts down if it goes through. -/
def requestLog (t : Tree) : Request → List Entry
  | .ensurePath path => entriesAt path t.missing
  | .createNode path _ => entriesAt path fun p => [.created p]
  | .setPayload path _ => entriesAt path fun p => [.replaced p]
  | .deleteNode path _ => entriesAt path fun p => [.deleted p]
  | .listChildren _ | .readPayload _ | .pathExists _ | .describe _ | .sendAdmin _ => []

/-- What writing a document puts down: for each entry the nodes above it that are missing, and then
the entry itself. -/
def seedLog (clock : Clock) : List (String × Json) → Tree → List Entry
  | [], _ => []
  | (path, value) :: document, t =>
    match NodePath.parse? path with
    -- The first path that is none stops the rest.
    | none => []
    | some p =>
      t.missing p.above ++ t.writing p :: seedLog clock document (t.seedEntry clock path value).2

/-- What a call puts down. A call that fails puts down nothing, except that a document may fail with
some of its entries written. -/
def Call.log (clock : Clock) (c : Call) (t : Tree) : List Entry :=
  match c with
  | .ask q => entered (answer clock q t) (t.requestLog q)
  | .write path payload =>
    entered (withPath path t fun p => t.write clock p payload)
      (entriesAt path fun p => [t.writing p])
  | .seed document => t.seedLog clock document

/-- What some calls put down, one after the other. -/
def history : List (Clock × Call) → Tree → List Entry
  | [], _ => []
  | c :: calls, t => c.2.log c.1 t ++ history calls (c.2.run c.1 t).2

/-! ### What a call does -/

theorem withPath_tells {α : Type} {f : NodePath → Result α} {g : NodePath → List Entry}
    (path : String) (h : ∀ p, Tells clock (entered (f p) (g p)) t (f p).2) :
    Tells clock (entered (withPath path t f) (entriesAt path g)) t (withPath path t f).2 := by
  unfold withPath entriesAt NodePath.parse
  cases NodePath.parse? path with
  | none => exact .none clock t
  | some p => exact h p

/-- An entry of a document can always be written if its path is one. -/
theorem seedEntry_of_parse (h : t.Sound) {path : String} {p : NodePath} (clock : Clock)
    (value : Json) (hp : NodePath.parse? path = some p) :
    ∃ t', t.seedEntry clock path value = (.ok (), t') ∧
      Tells clock (t.missing p.above ++ [t.writing p]) t t' := by
  unfold seedEntry NodePath.parse
  rw [hp]
  rcases p.eq_root_or_child with rfl | ⟨q, name, legal, rfl⟩
  · exact write_ok clock (seedPayload value) h.root
  · obtain ⟨t', hok, hhas⟩ := h.ensure_ok clock q
    have hensure := h.ensure_tells clock q
    rw [hok] at hensure
    have hq : t'.has (q.child name legal).above = true := by
      rw [NodePath.above_child]
      exact (hhas q).mpr (Or.inr le_rfl)
    obtain ⟨t'', hwrite, htells⟩ := write_ok clock (seedPayload value) hq
    rw [writing, Sound.has_child_of_ensure hhas, ← writing] at htells
    simp only [NodePath.parent?_child, NodePath.above_child, hok]
    exact ⟨t'', hwrite, hensure.append htells⟩

theorem Sound.seedEntry (h : t.Sound) (clock : Clock) (path : String) (value : Json) :
    (t.seedEntry clock path value).2.Sound := by
  cases hp : NodePath.parse? path with
  | none =>
    simp only [Tree.seedEntry, NodePath.parse, hp]
    exact h
  | some p =>
    obtain ⟨t', hok, htells⟩ := seedEntry_of_parse h clock value hp
    rw [hok]
    exact h.tells htells

theorem seed_tells (h : t.Sound) (clock : Clock) (document : List (String × Json)) :
    Tells clock (t.seedLog clock document) t (t.seed clock document).2 := by
  induction document generalizing t with
  | nil => exact .none clock t
  | cons e document ih =>
    rw [seed, seedLog]
    cases hp : NodePath.parse? e.1 with
    | none =>
      simp only [seedEntry, NodePath.parse, hp]
      exact .none clock t
    | some p =>
      obtain ⟨t', hok, hentry⟩ := seedEntry_of_parse h clock e.2 hp
      simp only [hok]
      rw [← List.singleton_append, ← List.append_assoc]
      exact hentry.append (ih (h.tells hentry))

/-- A document that fails puts down what its first entries put down, and these could be written. -/
theorem seedLog_of_error (h : t.Sound) {document : List (String × Json)} {e : NodeError}
    (he : (t.seed clock document).1 = .error e) :
    ∃ written rest, document = written ++ rest ∧ rest ≠ [] ∧
      (t.seed clock written).1 = .ok () ∧ t.seedLog clock document = t.seedLog clock written := by
  induction document generalizing t with
  | nil => cases he
  | cons entry document ih =>
    cases hp : NodePath.parse? entry.1 with
    | none =>
      have hlog : t.seedLog clock (entry :: document) = [] := by
        simp only [seedLog, hp]
      exact ⟨[], entry :: document, rfl, List.cons_ne_nil _ _, rfl, hlog⟩
    | some p =>
      obtain ⟨t', hok, hentry⟩ := seedEntry_of_parse h clock entry.2 hp
      simp only [seed, hok] at he
      obtain ⟨written, rest, rfl, hrest, hwritten, hlog⟩ := ih (h.tells hentry) he
      refine ⟨entry :: written, rest, rfl, hrest, ?_, ?_⟩
      · simpa only [seed, hok] using hwritten
      · simp only [seedLog, hp, hok, hlog]

/-- A request that only reads puts down nothing. -/
theorem log_ask_of_reads {q : Request} (hq : q.mutates = false) :
    (Call.ask q).log clock t = [] := by
  have hlog : t.requestLog q = [] := by
    cases q <;> first | rfl | cases hq
  rw [Call.log, hlog, entered_nil]

/-- A call that fails puts down nothing, unless it was to write a document. -/
theorem Call.log_of_error {c : Call} {e : NodeError} (hc : ∀ document, c ≠ .seed document)
    (he : (c.run clock t).1 = .error e) : c.log clock t = [] := by
  cases c with
  | seed document => exact absurd rfl (hc document)
  | ask q => exact entered_of_error he _
  | write path payload => exact entered_of_error he _

theorem ask_tells_of_reads {q : Request} (hq : q.mutates = false) :
    Tells clock ((Call.ask q).log clock t) t ((Call.ask q).run clock t).2 := by
  rw [log_ask_of_reads hq, show ((Call.ask q).run clock t).2 = t from
    client_answer_snd_of_reads clock q t hq]
  exact .none clock t

/-- A call acts by changes that fit, and what is put down of them is its log. -/
theorem Call.run_tells (h : t.Sound) (clock : Clock) (c : Call) :
    Tells clock (c.log clock t) t (c.run clock t).2 := by
  cases c with
  | write path payload => exact withPath_tells path fun p => (write_onceAs clock p payload t).tells
  | seed document => exact seed_tells h clock document
  | ask q =>
    cases q with
    | ensurePath path =>
      refine withPath_tells path fun p => ?_
      obtain ⟨t', hok, -⟩ := h.ensure_ok clock p
      have hensure := h.ensure_tells clock p
      rw [hok] at hensure ⊢
      exact hensure
    | createNode path payload =>
      exact withPath_tells path fun p => (create_onceAs clock p payload t).tells
    | setPayload path payload =>
      exact withPath_tells path fun p => (setPayload_onceAs clock p payload t).tells
    | deleteNode path recursive =>
      exact withPath_tells path fun p => (h.delete_onceAs clock p recursive).tells
    | listChildren path | readPayload path | pathExists path | describe path | sendAdmin path =>
      exact ask_tells_of_reads rfl

theorem Reachable.sound (h : Reachable t) : t.Sound := by
  induction h with
  | start clock => exact Sound.empty clock
  | call clock c _ ih => exact ih.tells (c.run_tells ih clock)

/-! ### Calls that fail -/

/-- A call that fails has changed nothing, unless it was to write a whole document. -/
theorem Call.eq_of_run_error {c : Call} {e : NodeError} (h : t.Sound)
    (hc : ∀ entries, c ≠ .seed entries) (he : (c.run clock t).1 = .error e) :
    (c.run clock t).2 = t := by
  -- All that a call changes is put down, and a call that fails puts down nothing.
  have htells := c.run_tells h clock
  rw [log_of_error hc he] at htells
  exact htells.eq_of_nil

end TreeConsole.Tree
