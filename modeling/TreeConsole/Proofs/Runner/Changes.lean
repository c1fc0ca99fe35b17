import TreeConsole.Proofs.Runner.Audit
import TreeConsole.Proofs.Runner.PathTexts

/-!
# Events and changes

Whether a writing command is told of is decided by its word and its reply, and not by what became of
the tree. For four of the five commands that is the same: one that goes through, and does not say
that it changed nothing, has made a change that can be seen at some node. It is not the same for
`create`, which goes through where the node is there already and says nothing of it. Then an event
is told of a line that changed nothing.

## Main definitions

* `Tree.Differs` — some node came or went, or shows another payload or other metadata
* `Turn.Changed`, `Turn.Repeated` — a line that changed the tree, and a `create` that did not
* `Act.Achieves`, `Act.Alters` — what an act leaves if it goes through, and if it ends with
  something done

## Main results

* `Tree.Sound.altered_of_answer` — a request that goes through has changed something, but for one to
  create what is there
* `Command.handle_alters` — so has a command that writes
* `Tree.Reachable.mutations_told` — the lines that are told of are those that changed something, and
  those that created what was there
-/

namespace TreeConsole

open Act (Keeps Triple)

variable {σ κ ε τ : Type} {clock : Clock} {t t' : Tree} {p : NodePath} {text line : String}

/-! ### Trees that differ -/

namespace Tree

/-- What is shown of a node: its payload and its metadata. -/
def record? (t : Tree) (p : NodePath) : Option (Bytes × NodeStat) :=
  (t.find? p).map fun n => (n.payload, n.stat)

/-- A node came or went, or it shows something else. -/
def Differs (t t' : Tree) : Prop := ∃ p, t'.record? p ≠ t.record? p

theorem isSome_record? (t : Tree) (p : NodePath) : (t.record? p).isSome = t.has p := by
  rw [record?, Option.isSome_map, has]

theorem differs_of_has (h : t'.has p ≠ t.has p) : t.Differs t' := by
  refine ⟨p, fun heq => h ?_⟩
  rw [← isSome_record?, ← isSome_record?, heq]

/-- Whatever a payload is replaced by, the node has a new version. -/
theorem differs_replace {payload : Bytes} (h : t.has p = true) :
    t.Differs ((Change.replace p payload).apply clock t) := by
  obtain ⟨n, hn⟩ := has_iff.mp h
  refine ⟨p, fun heq => ?_⟩
  rw [record?, record?, find?_replace, if_pos rfl, hn] at heq
  -- The version is shown as a number that may start over, but that never stays where it was.
  have hversion : Int32.ofNat (n.version + 1) = Int32.ofNat n.version :=
    congrArg (fun r : Bytes × NodeStat => r.2.version) (Option.some.inj heq)
  rw [Int32.ofNat_add] at hversion
  grind

/-- Every change can be seen at the node it was about. -/
theorem differs_of_fits {c : Change} (h : c.Fits t) : t.Differs (c.apply clock t) := by
  cases c with
  | create q name legal payload =>
    refine differs_of_has (p := q.child name legal) fun heq => ?_
    rw [has_create.mpr (Or.inl rfl), h.2] at heq
    cases heq
  | replace q payload => exact differs_replace h
  | delete q name legal =>
    refine differs_of_has (p := q.child name legal) fun heq => ?_
    exact (has_delete.mp (heq.trans h.2)).2 le_rfl

theorem differs_of_onceAs {entry : Entry} {r : Result Unit} (h : OnceAs clock entry t r)
    (hok : r.1 = .ok ()) : t.Differs r.2 := by
  rcases h with ⟨e, rfl⟩ | ⟨c, hfits, -, rfl⟩
  · cases hok
  · exact differs_of_fits hfits

theorem withPath_of_ok {α : Type} {x : α} {f : NodePath → Result α}
    (h : (withPath text t f).1 = .ok x) :
    ∃ p, NodePath.parse text = .ok p ∧ f p = withPath text t f := by
  unfold withPath at h ⊢
  cases hread : NodePath.parse text with
  | error e =>
    rw [hread] at h
    cases h
  | ok p => exact ⟨p, rfl, rfl⟩

/-- What a request that goes through leaves behind: a tree that differs, or, if it was to create
what is there, the tree itself. -/
def Altered (t : Tree) (q : Request) (t' : Tree) : Prop :=
  t.Differs t' ∨
    ∃ path p, q = .ensurePath path ∧ NodePath.parse path = .ok p ∧ t.has p = true ∧ t' = t

namespace Sound

/-- A request that may change the tree and goes through has changed it, unless it was to create what
is there. -/
theorem altered_of_answer (hs : t.Sound) {q : Request} (hq : q.mutates = true) {a : q.Answer}
    (h : ((client clock).answer q t).1 = .ok a) : t.Altered q ((client clock).answer q t).2 := by
  rcases Request.mutates_eq_true_iff.mp hq with
    ⟨path, rfl⟩ | ⟨path, payload, rfl⟩ | ⟨path, payload, rfl⟩ | ⟨path, recursive, rfl⟩
  · obtain ⟨p, hread, heq⟩ := withPath_of_ok h
    refine congrArg (fun r : Result Unit => t.Altered _ r.2) heq ▸ ?_
    by_cases hp : t.has p = true
    · exact Or.inr ⟨path, p, rfl, hread, hp, congrArg Prod.snd (hs.ensure_of_has clock hp)⟩
    · obtain ⟨t', hensure, hhas⟩ := hs.ensure_ok clock p
      rw [hensure]
      refine Or.inl (differs_of_has (p := p) fun heq => hp ?_)
      rw [← heq]
      exact (hhas p).mpr (Or.inr le_rfl)
  · obtain ⟨p, -, heq⟩ := withPath_of_ok h
    exact Or.inl (differs_of_onceAs (heq ▸ create_onceAs clock p payload t) h)
  · obtain ⟨p, -, heq⟩ := withPath_of_ok h
    exact Or.inl (differs_of_onceAs (heq ▸ setPayload_onceAs clock p payload t) h)
  · obtain ⟨p, -, heq⟩ := withPath_of_ok h
    exact Or.inl (differs_of_onceAs (heq ▸ hs.delete_onceAs clock p recursive) h)

end Sound

end Tree

/-! ### Commands that differ -/

namespace Act

variable {ε α β : Type} {R : Tree → Prop}

/-- If an act at a desk with some tree goes through, what it leaves is of a sort. -/
def Achieves (t : Tree) (R : Tree → Prop) (a : Act (Desk Tree ε) α) : Prop :=
  Triple (fun d => d.store = t) a fun r d => ∀ x, r = .ok x → R d.store

/-- If an act at a desk with some tree ends with something done, what it leaves is of a sort. -/
def Alters (t : Tree) (R : Tree → Prop) (a : Act (Desk Tree ε) Outcome) : Prop :=
  Triple (fun d => d.store = t) a fun r d => ¬ Idle r → R d.store

/-- What is looked up first makes no difference. -/
theorem Keeps.bind_achieves {a : Act (Desk Tree ε) α} {f : α → Act (Desk Tree ε) β}
    (ha : Keeps (fun d => d.store = t) a) (hf : ∀ x, Achieves t R (f x)) :
    Achieves t R (a >>= f) :=
  Triple.bind ha hf fun _ _ _ _ hx => by cases hx

theorem Keeps.bind_alters {a : Act (Desk Tree ε) α} {f : α → Act (Desk Tree ε) Outcome}
    (ha : Keeps (fun d => d.store = t) a) (hf : ∀ x, Alters t R (f x)) : Alters t R (a >>= f) :=
  Triple.bind ha hf fun _ _ _ hbusy => absurd trivial hbusy

/-- The change is the last thing that a command does. -/
theorem Achieves.alters {a : Act (Desk Tree ε) α} (ha : Achieves t R a) :
    Alters t R (a >>= fun _ => pure Command.silent) :=
  Triple.bind ha (fun x _ hd _ => hd x rfl) fun _ _ _ hbusy => absurd trivial hbusy

end Act

namespace Command

variable {ε : Type} {editor : Editor ε} {c : Command} {R : Tree → Prop}

open Act (Achieves Alters)

theorem request_achieves {q : Request}
    (h : ∀ a, ((Tree.client clock).answer q t).1 = .ok a → R ((Tree.client clock).answer q t).2) :
    Achieves t R (Desk.request (Tree.client clock) q : Act (Desk Tree ε) q.Answer) := by
  rintro d rfl a ha
  rw [Desk.run_request] at ha ⊢
  cases hanswer : ((Tree.client clock).answer q d.store).1 with
  | error e =>
    rw [hanswer] at ha
    cases ha
  | ok a => exact h a hanswer

/-- A command that writes and ends with something done has changed the tree, unless it was to create
what is there. -/
theorem handle_alters (hs : t.Sound) (hk : c.keyword.mutates = true)
    (harg : c.arg? 0 = some text) :
    Alters t (fun t' => t.Differs t' ∨ c.keyword = .create ∧
        ∃ p, NodePath.parse text = .ok p ∧ t.has p = true ∧ t' = t)
      (c.handle (Tree.client clock) editor) := by
  have hpath : ∀ {R : Tree → Prop} {f : String → Act (Desk Tree ε) Outcome},
      Alters t R (f text) → Alters t R (c.pathArg >>= f) := by
    intro R f hf d hd
    rw [run_pathArg_bind harg f d]
    exact hf d hd
  -- Only a request to create what is there goes through and changes nothing.
  have hchanges : ∀ {R : Tree → Prop} (q : Request), q.mutates = true →
      (∀ path, q ≠ .ensurePath path) → Achieves t (fun t' => t.Differs t' ∨ R t')
        (Desk.request (Tree.client clock) q : Act (Desk Tree ε) q.Answer) := by
    refine fun q hq hensure => request_achieves fun a ha => ?_
    refine Or.inl ((hs.altered_of_answer hq ha).resolve_right ?_)
    rintro ⟨path, -, heq, -⟩
    exact hensure path heq
  unfold handle
  cases hword : c.keyword <;> rw [hword] at hk
  case create =>
    refine hpath (request_achieves (q := .ensurePath text) fun a ha => ?_).alters
    rcases hs.altered_of_answer rfl ha with hchanged | ⟨path, p, heq, hread, hp, hsame⟩
    · exact Or.inl hchanged
    · cases heq
      exact Or.inr ⟨rfl, p, hread, hp, hsame⟩
  case delete => exact hpath (hchanges (.deleteNode text false) rfl nofun).alters
  case rmr => exact hpath (hchanges (.deleteNode text true) rfl nofun).alters
  case set =>
    have hasks : Keeps (fun d : Desk Tree ε => d.store = t)
        (Desk.request (Tree.client clock) (.pathExists text)) :=
      request_keeps_store rfl
    refine hpath (hasks.bind_achieves fun isThere => ?_).alters
    cases isThere with
    | true => exact hchanges (.setPayload text _) rfl nofun
    | false => exact hchanges (.createNode text _) rfl nofun
  case edit =>
    have hread : Keeps (fun d : Desk Tree ε => d.store = t)
        (payloadOf (Tree.client clock) text) :=
      payloadOf_keeps (request_keeps_store rfl)
    have hedit := openEditor_keeps_store (P := (· = t)) editor text
    refine hpath (hread.bind_alters fun payload => (hedit payload).bind_alters fun new => ?_)
    -- A payload that comes back as it was is not stored, and the reply says so.
    split
    · exact fun _ _ hbusy => absurd trivial hbusy
    · exact (hchanges (.setPayload text new) rfl nofun).alters
  all_goals cases hk

end Command

/-! ### Lines that differ -/

namespace Turn

/-- After the line some node came or went, or shows something else. -/
def Changed (u : Turn Tree κ ε τ) : Prop := u.before.desk.store.Differs u.after.desk.store

/-- The line was to create a node that was there. It went through, with an ordinary reply, and the
tree is the one that it was. -/
def Repeated (u : Turn Tree κ ε τ) : Prop :=
  u.Wrote .create ∧ u.after.desk.store = u.before.desk.store ∧
    ∃ text rest p, (scan u.line).tail.map Token.text = text :: rest ∧
      NodePath.parse text = .ok p ∧ u.before.desk.store.has p = true

private theorem mutationType_ne_writeModeType :
    LineReport.mutationType ≠ LineReport.writeModeType := by
  decide

/-- A mutation is told of exactly if something was written. -/
theorem Audited.exists_mutation_iff {module : String} {u : Turn Tree κ ε τ}
    {told : List AuditEvent} (h : u.Audited module told) :
    (∃ e ∈ told, e.type = LineReport.mutationType) ↔ ∃ k, u.Wrote k := by
  constructor
  · rintro ⟨e, he, htype⟩
    by_contra hnone
    by_cases hmode : validate u.line = .ok .toggleWrite
    · obtain ⟨-, stamp, rfl⟩ := h.switched hmode
      rw [List.mem_singleton.mp he] at htype
      exact mutationType_ne_writeModeType htype.symm
    · rw [h.silent (not_exists.mp hnone) hmode] at he
      cases he
  · rintro ⟨k, hk⟩
    obtain ⟨stamp, path, rest, -, rfl⟩ := h.wrote k hk
    exact ⟨_, List.mem_singleton.mpr rfl, rfl⟩

end Turn

namespace Runner

variable {r : Runner Tree κ ε τ} {w : World Tree κ ε τ} {k : Keyword}

/-- A line that wrote has changed the tree, or created what was there. -/
theorem changed_or_repeated_of_wrote (hr : r.client = Tree.client clock)
    (hw : w.desk.store.Sound) (h : (r.turn line w).Wrote k) :
    (r.turn line w).Changed ∨ (r.turn line w).Repeated := by
  have hbusy : ¬ Idle (r.run line w).1 := not_idle_of_wrote h
  have hk := Keyword.mutates_iff_mem.mpr h.1
  obtain ⟨text, rest, hargs, hok⟩ := ofLine_of_mutates hk h.2.1
  obtain ⟨result, d, asker, hcourse, hresult, -, hdesk⟩ := r.run_course line w
  rw [hresult] at hbusy
  -- Of the five courses only a command that is carried out ends with something done.
  cases hcourse with
  | blank hblank =>
    have hink : Text.isBlankText line = false := isBlankText_of_validate h.2.1
    rw [hink] at hblank
    cases hblank
  | malformed | refused | declined => exact absurd trivial hbusy
  | @done c _ hc =>
    obtain rfl : c = ⟨k, text :: rest⟩ := Except.ok.inj (hc.symm.trans hok)
    rw [hr] at hbusy hdesk
    have halters := Command.handle_alters hw hk rfl w.desk rfl hbusy
    refine halters.imp (fun hdiffers => ?_) ?_
    · have hafter : (r.turn line w).after.desk.store = _ := congrArg Desk.store hdesk
      rw [Turn.Changed, hafter]
      exact hdiffers
    · rintro ⟨rfl, p, hread, hp, hsame⟩
      exact ⟨h, (congrArg Desk.store hdesk).trans hsame, text, rest, p, hargs, hread, hp⟩

/-- What a line wrote is a change, or it repeated what was done. -/
theorem exists_wrote_iff (hr : r.client = Tree.client clock) (hw : w.desk.store.Sound) :
    (∃ k, (r.turn line w).Wrote k) ↔ (r.turn line w).Changed ∨ (r.turn line w).Repeated := by
  constructor
  · rintro ⟨k, hk⟩
    exact changed_or_repeated_of_wrote hr hw hk
  · rintro (hchanged | hrepeated)
    · refine wrote_of_store_ne hr hw fun hsame => ?_
      obtain ⟨p, hne⟩ := hchanged
      exact hne (congrArg (Tree.record? · p) hsame)
    · exact ⟨.create, hrepeated.1⟩

/-- The lines of a run that wrote are those that changed the tree and those that repeated what was
done. -/
theorem forall_exists_wrote_iff (hr : r.client = Tree.client clock) (lines : List String)
    (hw : w.desk.store.Reachable) :
    ∀ u ∈ r.turns lines w, (∃ k, u.Wrote k) ↔ u.Changed ∨ u.Repeated := by
  induction lines generalizing w with
  | nil => exact fun _ hu => (by cases hu)
  | cons line lines ih =>
    intro u hu
    rcases List.mem_cons.mp hu with rfl | hu
    · exact exists_wrote_iff hr hw.sound
    · exact ih (reachable_run hr hw line) u hu

end Runner

/-- Of the lines of a run over a reachable tree, those that an event tells a mutation of are those
after which something about some node is not as it was, and those that were to create what was there
already. -/
theorem Tree.Reachable.mutations_told {t : Tree} (h : Reachable t) (clock : Clock)
    (confirmer : Confirmer κ) (editor : Editor ε) (m : Telemetry τ) (Good : τ → Prop)
    (accepts : m.Accepts Good) (lines : List String)
    (w : World Tree κ ε (τ × List AuditEvent)) (hw : w.desk.store = t) (good : Good w.trail.1) :
    let r : Runner Tree κ ε τ := ⟨Tree.client clock, confirmer, editor, some m⟩
    (r.ledgered.turns lines w).map (Turn.map id Prod.fst) = r.turns lines (w.map id Prod.fst) ∧
      ∃ told, (r.ledgered.finish lines w).trail.2 = w.trail.2 ++ told.flatten ∧
        List.Forall₂ (fun u told => (∃ e ∈ told, e.type = LineReport.mutationType) ↔
            u.Changed ∨ u.Repeated)
          (r.ledgered.turns lines w) told := by
  intro r
  subst hw
  refine ⟨r.ledgered_looksLike.turns lines w, ?_⟩
  obtain ⟨told, hledger, haudited⟩ := Runner.audited_turns (r := r) accepts rfl rfl lines h good
  refine ⟨told, hledger, ?_⟩
  have hwrote := Runner.forall_exists_wrote_iff (r := r.ledgered) rfl lines h
  refine ((List.forall₂_and_left _ _).mpr ⟨hwrote, haudited⟩).imp ?_
  rintro u told ⟨hu, htold⟩
  exact htold.exists_mutation_iff.trans hu

/-- Of a new node a mutation is told, and of a look at it none. -/
theorem Tree.mutations_told_grove :
    let m : Telemetry Journal :=
      ⟨"treesh", none, some Journal.memoryPublisher, Journal.stamp fun _ => default⟩
    let r : Runner Tree Unit Unit Journal :=
      ⟨client default, .assumeDefault, ⟨fun _ payload e => (.ok payload, e)⟩, some m⟩
    let w : World Tree Unit Unit (Journal × List AuditEvent) :=
      ⟨⟨grove, .start false, ()⟩, (), (default, []), []⟩
    ∃ made seen, (r.ledgered.finish ["create /q", "get /q"] w).trail.2 = made ++ seen ∧
      (∃ e ∈ made, e.type = LineReport.mutationType) ∧
      ¬ ∃ e ∈ seen, e.type = LineReport.mutationType := by
  intro m r w
  have accepts : m.Accepts fun _ => True := by
    refine ⟨fun _ _ => trivial, fun _ hlog => (by cases hlog), Journal.memoryPublisher, rfl, ?_⟩
    exact fun _ _ _ => ⟨rfl, trivial⟩
  obtain ⟨-, told, hledger, htold⟩ := reachable_grove.mutations_told default r.confirmer r.editor m
    _ accepts ["create /q", "get /q"] w rfl trivial
  obtain _ | @⟨_, made, _, _, hmade, _ | @⟨_, seen, _, _, hseen, _ | _⟩⟩ := htold
  have happend : w.trail.2 ++ [made, seen].flatten = made ++ seen := by simp [w]
  refine ⟨made, seen, hledger.trans happend, hmade.mpr (Or.inl ?_), fun htold => ?_⟩
  · exact ⟨.child .root "q" (by decide), by decide +kernel⟩
  · have hget : validate "get /q" = .ok .get := by decide +kernel
    rcases hseen.mp htold with ⟨p, hne⟩ | ⟨⟨-, hcreate, -⟩, -⟩
    · have hclient : r.ledgered.client = client default := rfl
      refine hne (congrArg (record? · p) (Runner.store_run_of_reads hclient ?_))
      intro k hk
      rw [← Except.ok.inj (hget.symm.trans hk)]
      rfl
    · exact absurd (hget.symm.trans hcreate) (by decide)

/-- Of creating a node that is there a mutation is told, and the tree is as it was. -/
theorem Tree.created_again_told :
    let r : Runner Tree Unit Unit Journal :=
      ⟨client default, .assumeDefault, ⟨fun _ payload e => (.ok payload, e)⟩,
        some ⟨"treesh", none, some Journal.memoryPublisher, Journal.stamp fun _ => default⟩⟩
    let w : World Tree Unit Unit (Journal × List AuditEvent) :=
      ⟨⟨grove, .start false, ()⟩, (), (default, []), []⟩
    (r.ledgered.run "create /p2" w).1 = .ok (.proceed .empty) ∧
      (r.ledgered.finish ["create /p2"] w).trail.2.map AuditEvent.type =
        [LineReport.mutationType] ∧
      (r.ledgered.turns ["create /p2"] w).map (fun u => u.after.desk.store) = [grove] ∧
      ∀ u ∈ r.ledgered.turns ["create /p2"] w, ¬ u.Changed := by
  intro r w
  have hnodes : (r.ledgered.run "create /p2" w).2.desk.store.nodes = grove.nodes := by
    decide +kernel
  have hlast : (r.ledgered.run "create /p2" w).2.desk.store.lastChange = grove.lastChange := by
    decide +kernel
  have hsame : (r.ledgered.run "create /p2" w).2.desk.store = grove :=
    congrArg₂ Tree.mk hnodes hlast
  refine ⟨by decide +kernel, by decide +kernel, congrArg (· :: []) hsame, ?_⟩
  rintro u hu ⟨p, hne⟩
  rw [List.mem_singleton.mp hu] at hne
  exact hne (congrArg (record? · p) hsame)

end TreeConsole
