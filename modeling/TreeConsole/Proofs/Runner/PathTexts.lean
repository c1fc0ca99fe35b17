import TreeConsole.Proofs.Node.Spelling
import TreeConsole.Proofs.Runner.Storing

/-!
# One node, named by different texts

A command may name its node by the canonical text or by any other. The tree reads each text as a
path before it does anything, so that a request is answered alike. A listing goes further: it joins
the names of the children to the text as it was typed and asks for what is below them. If the text
has two slashes at its end, what it asks for then is the text of no path, and the listing of a node
that has children fails. There is no other case in which it matters how a node is named.

## Main definitions

* `Runner.SameEffect` — two lines that fail alike or lead to the same
* `Command.pathKeywords` — the commands that name a node and leave the editor alone

## Main results

* `Command.handle_respelled` — a command other than a listing does the same for both texts
* `Command.list_doubled`, `Command.list_canonical` — a listing by a text with two slashes at its
  end, and by the canonical one
* `Command.list_agrees_iff` — when the two listings agree
* `Tree.Reachable.sameEffect_iff` — when it matters how a node is named
-/

namespace TreeConsole

open Text (isBlank)

variable {σ κ ε τ : Type} {clock : Clock} {p : NodePath} {text : String} {args : List String}
  {k : Keyword}

/-- A node that is there names the children that are there. -/
theorem Tree.Sound.mem_of_childrenOf {t : Tree} (h : t.Sound) {children : List String}
    (hchildren : t.childrenOf p = .ok children) (name : String) :
    name ∈ children ↔ ∃ legal, t.has (p.child name legal) = true := by
  unfold childrenOf at hchildren
  split at hchildren
  · cases hchildren
  · rename_i n hn
    cases hchildren
    exact h.names hn name

namespace Command

/-- The commands that name a node and leave the editor alone. -/
def pathKeywords : List Keyword := [.ls, .get, .stat, .create, .set, .delete, .rmr]

/-! ### Requests -/

/-- What the tree answers, as it is reported at a desk. -/
def reported {α : Type} (d : Desk Tree ε) (r : Tree.Result α) :
    Except ShellError α × Desk Tree ε :=
  (r.1.mapError ShellError.ofNodeError, { d with store := r.2 })

/-- What a request asks of the tree depends on the path that its text names, and not on the text. -/
theorem request_respelled {α : Type} {a a' : Act (Desk Tree ε) α} (hp : NodePath.parse text = .ok p)
    (f : NodePath → Tree → Tree.Result α)
    (ha : ∀ d, a.run d = reported d (Tree.withPath text d.store fun q => f q d.store))
    (ha' : ∀ d, a'.run d = reported d (Tree.withPath p.render d.store fun q => f q d.store)) :
    a = a' := by
  funext d
  refine (ha d).trans (Eq.trans ?_ (ha' d).symm)
  simp only [Tree.withPath, hp, NodePath.parse_render]

section Respelled

variable (hp : NodePath.parse text = .ok p)
include hp

/-! ### Commands other than a listing -/

theorem make_respelled :
    (make (Tree.client clock) ⟨k, text :: args⟩ : Act (Desk Tree ε) Outcome) =
      make (Tree.client clock) ⟨k, p.render :: args⟩ := by
  have hrequest : (Desk.request (Tree.client clock) (.ensurePath text) : Act (Desk Tree ε) Unit) =
      Desk.request (Tree.client clock) (.ensurePath p.render) :=
    request_respelled hp (fun q t => t.ensure clock q) (Desk.run_request _ _)
      (Desk.run_request _ _)
  simp only [make, pathArg, arg?, List.getElem?_cons_zero, pure_bind]
  rw [hrequest]

theorem remove_respelled (recursive : Bool) :
    (remove (Tree.client clock) recursive ⟨k, text :: args⟩ : Act (Desk Tree ε) Outcome) =
      remove (Tree.client clock) recursive ⟨k, p.render :: args⟩ := by
  have hrequest :
      (Desk.request (Tree.client clock) (.deleteNode text recursive) : Act (Desk Tree ε) Unit) =
        Desk.request (Tree.client clock) (.deleteNode p.render recursive) :=
    request_respelled hp (fun q t => t.delete q recursive) (Desk.run_request _ _)
      (Desk.run_request _ _)
  simp only [remove, pathArg, arg?, List.getElem?_cons_zero, pure_bind]
  rw [hrequest]

theorem describe_respelled :
    (describe (Tree.client clock) ⟨k, text :: args⟩ : Act (Desk Tree ε) Outcome) =
      describe (Tree.client clock) ⟨k, p.render :: args⟩ := by
  have hrequest :
      (Desk.request (Tree.client clock) (.describe text) : Act (Desk Tree ε) NodeStat) =
        Desk.request (Tree.client clock) (.describe p.render) :=
    request_respelled hp (fun q t => (t.statOf q, t)) (Desk.run_request _ _)
      (Desk.run_request _ _)
  simp only [describe, pathArg, arg?, List.getElem?_cons_zero, pure_bind]
  rw [hrequest]

theorem write_respelled :
    (write (Tree.client clock) ⟨k, text :: args⟩ : Act (Desk Tree ε) Outcome) =
      write (Tree.client clock) ⟨k, p.render :: args⟩ := by
  have hstore : ∀ payload, (store (Tree.client clock) text payload : Act (Desk Tree ε) Unit) =
      store (Tree.client clock) p.render payload := by
    intro payload
    funext d
    exact (run_store_tree clock hp payload d).trans
      (run_store_tree clock p.parse_render payload d).symm
  simp only [write, pathArg, arg?, List.getElem?_cons_zero, List.getElem?_cons_succ, pure_bind,
    hstore]

/-- Without a node there is no payload to show, and the complaint names it as it was typed. -/
theorem run_payloadOf_of_none {d : Desk Tree ε} (h : d.store.payload? p = none) :
    (payloadOf (Tree.client clock) text).run d = (.error (.nodeNotFound text), d) := by
  have hread : (Desk.request (Tree.client clock) (.readPayload text)).run d = (.ok none, d) := by
    rw [Desk.run_request]
    simp only [Tree.client, Tree.answer, Tree.withPath, hp, ← h]
    rfl
  exact Act.bind_of_ok hread

/-- A payload is shown for both texts, or for neither. -/
theorem display_respelled (d : Desk Tree ε) :
    let typed := (display (Tree.client clock) ⟨k, text :: args⟩).run d
    let canonical := (display (Tree.client clock) ⟨k, p.render :: args⟩).run d
    typed.1.toOption = canonical.1.toOption ∧ typed.2 = canonical.2 := by
  intro typed canonical
  cases hpayload : d.store.payload? p with
  | some payload =>
    have hshown : ∀ path, NodePath.parse path = .ok p →
        (display (Tree.client clock) ⟨k, path :: args⟩).run d =
          (.ok (.proceed (.payload (Utf8.toText payload))), d) := by
      intro path hread
      simp only [display, pathArg, arg?, List.getElem?_cons_zero, pure_bind]
      exact Act.bind_of_ok (run_payloadOf_tree hread hpayload)
    have htyped : typed = _ := hshown text hp
    have hcanonical : canonical = _ := hshown p.render p.parse_render
    rw [htyped, hcanonical]
    exact ⟨rfl, rfl⟩
  | none =>
    have hfails : ∀ path, NodePath.parse path = .ok p →
        (display (Tree.client clock) ⟨k, path :: args⟩).run d =
          (.error (.nodeNotFound path), d) := by
      intro path hread
      simp only [display, pathArg, arg?, List.getElem?_cons_zero, pure_bind]
      exact Act.bind_of_error (run_payloadOf_of_none hread hpayload)
    have htyped : typed = _ := hfails text hp
    have hcanonical : canonical = _ := hfails p.render p.parse_render
    rw [htyped, hcanonical]
    exact ⟨rfl, rfl⟩

/-- A command other than a listing does the same for both texts, but for what it says when it
fails. -/
theorem handle_respelled (hk : k ∈ pathKeywords) (hls : k ≠ .ls) (editor : Editor ε)
    (d : Desk Tree ε) :
    let typed := (handle (Tree.client clock) editor ⟨k, text :: args⟩).run d
    let canonical := (handle (Tree.client clock) editor ⟨k, p.render :: args⟩).run d
    typed.1.toOption = canonical.1.toOption ∧ typed.2 = canonical.2 := by
  intro typed canonical
  simp only [pathKeywords, List.mem_cons, List.not_mem_nil, or_false] at hk
  have hsame : ∀ {a a' : Act (Desk Tree ε) Outcome}, a = a' → typed = a.run d →
      canonical = a'.run d → typed.1.toOption = canonical.1.toOption ∧ typed.2 = canonical.2 := by
    rintro a _ rfl htyped hcanonical
    rw [htyped, hcanonical]
    exact ⟨rfl, rfl⟩
  rcases hk with rfl | rfl | rfl | rfl | rfl | rfl | rfl
  · exact absurd rfl hls
  · exact display_respelled hp d
  · exact hsame (describe_respelled hp) rfl rfl
  · exact hsame (make_respelled hp) rfl rfl
  · exact hsame (write_respelled hp) rfl rfl
  · exact hsame (remove_respelled hp false) rfl rfl
  · exact hsame (remove_respelled hp true) rfl rfl

end Respelled

/-! ### Listings -/

/-- Shows the names of the children of a node, with a slash behind each that has children itself. -/
def showNames (client : Client σ) (path : String) (children : List String) :
    Act (Desk σ ε) Outcome := do
  let names ← markParents client path (children.mergeSort fun a b => decide (a ≤ b))
  let width ← Act.view fun d => d.session.width
  pure (saying (Text.columnize names width.toNat))

/-- A listing looks for the node first. -/
theorem run_list (hp : NodePath.parse text = .ok p) (d : Desk Tree ε) :
    (list (Tree.client clock) ⟨k, text :: args⟩).run d =
      match d.store.childrenOf p with
      | .error e => (.error (.ofNodeError e), d)
      | .ok children => (showNames (Tree.client clock) text children).run d := by
  have hrequest : (Desk.request (Tree.client clock) (.listChildren text)).run d =
      ((d.store.childrenOf p).mapError ShellError.ofNodeError, d) := by
    rw [Desk.run_request]
    simp only [Tree.client, Tree.answer, Tree.withPath, hp]
    rfl
  simp only [list, pathArg, arg?, List.getElem?_cons_zero, pure_bind]
  cases hchildren : d.store.childrenOf p with
  | error e =>
    rw [hchildren] at hrequest
    exact Act.bind_of_error hrequest
  | ok children =>
    rw [hchildren] at hrequest
    exact Act.bind_of_ok hrequest

/-- What is asked about the children depends on the text to which their names are joined. -/
theorem markParents_congr {client : Client σ} {text' : String}
    (h : ∀ name, joinChild text name = joinChild text' name) (names : List String) :
    (markParents client text names : Act (Desk σ ε) (List String)) =
      markParents client text' names := by
  induction names with
  | nil => rfl
  | cons name names ih =>
    unfold markParents
    rw [h name, ih]

/-- A listing does the same for both texts if one has no two slashes at its end, or if there are no
children to ask about. -/
theorem list_respelled (hp : NodePath.parse text = .ok p) {d : Desk Tree ε}
    (h : NodePath.Doubled text → ∀ children, d.store.childrenOf p = .ok children → children = []) :
    (list (Tree.client clock) ⟨k, text :: args⟩).run d =
      (list (Tree.client clock) ⟨k, p.render :: args⟩).run d := by
  have hread := NodePath.parse_eq_ok_iff.mp hp
  rw [run_list hp, run_list p.parse_render]
  cases hchildren : d.store.childrenOf p with
  | error e => rfl
  | ok children =>
    by_cases hdoubled : NodePath.Doubled text
    · rw [h hdoubled children hchildren]
      simp only [showNames, List.mergeSort_nil, markParents]
    · have hmarked : ∀ names, (markParents (Tree.client clock) text names : Act (Desk Tree ε) _) =
          markParents (Tree.client clock) p.render names :=
        markParents_congr (NodePath.joinChild_of_not_doubled hread hdoubled)
      simp only [showNames, hmarked]

/-- Behind two slashes the first child that is asked about has no path, and the listing fails. -/
theorem list_doubled (hp : NodePath.parse text = .ok p) (hdoubled : NodePath.Doubled text)
    {d : Desk Tree ε} (hsound : d.store.Sound) {children : List String}
    (hchildren : d.store.childrenOf p = .ok children) (hsome : children ≠ []) :
    ∃ name ∈ children, (list (Tree.client clock) ⟨k, text :: args⟩).run d =
      (.error (.client (.invalidPath (joinChild text name))), d) := by
  have hsorted : (children.mergeSort fun a b => decide (a ≤ b)) ≠ [] := by
    intro hnil
    have hlength := congrArg List.length hnil
    rw [List.length_mergeSort] at hlength
    exact hsome (List.length_eq_zero_iff.mp hlength)
  obtain ⟨name, names, hnames⟩ := List.exists_cons_of_ne_nil hsorted
  have hmem : name ∈ children := by
    have hfirst : name ∈ children.mergeSort fun a b => decide (a ≤ b) :=
      hnames ▸ List.mem_cons_self
    exact List.mem_mergeSort.mp hfirst
  obtain ⟨legal, -⟩ := (hsound.mem_of_childrenOf hchildren name).mp hmem
  refine ⟨name, hmem, ?_⟩
  have hrequest : (Desk.request (Tree.client clock) (.listChildren (joinChild text name))).run d =
      (.error (.client (.invalidPath (joinChild text name))), d) := by
    rw [Desk.run_request]
    simp only [Tree.client, Tree.answer, Tree.withPath, NodePath.parse,
      NodePath.parse?_joinChild_of_doubled hdoubled legal]
    rfl
  have hmarked : (markParents (Tree.client clock) text (name :: names)).run d =
      (.error (.client (.invalidPath (joinChild text name))), d) := Act.bind_of_error hrequest
  rw [run_list hp, hchildren]
  simp only [showNames, hnames]
  exact Act.bind_of_error hmarked

/-- Behind the canonical text every child that is there can be asked about. -/
theorem run_markParents_render {names : List String} {d : Desk Tree ε}
    (h : ∀ name ∈ names, ∃ legal, d.store.has (p.child name legal) = true) :
    ∃ marked, (markParents (Tree.client clock) p.render names).run d = (.ok marked, d) := by
  induction names with
  | nil => exact ⟨[], rfl⟩
  | cons name names ih =>
    obtain ⟨legal, hthere⟩ := h name List.mem_cons_self
    obtain ⟨marked, hrest⟩ := ih fun name' hname' => h name' (List.mem_cons_of_mem name hname')
    obtain ⟨n, hn⟩ := Option.isSome_iff_exists.mp hthere
    have hrequest :
        (Desk.request (Tree.client clock) (.listChildren (joinChild p.render name))).run d =
          (.ok n.children, d) := by
      rw [Desk.run_request, NodePath.joinChild_render legal]
      simp only [Tree.client, Tree.answer, Tree.withPath, NodePath.parse_render, Tree.childrenOf,
        hn]
      rfl
    refine ⟨(if n.children.isEmpty then name else name ++ "/") :: marked, ?_⟩
    exact (Act.bind_of_ok hrequest).trans (Act.bind_of_ok hrest)

/-- A node that is there can be listed by its canonical text. -/
theorem list_canonical {d : Desk Tree ε} (hsound : d.store.Sound) {children : List String}
    (hchildren : d.store.childrenOf p = .ok children) :
    ∃ outcome, (list (Tree.client clock) ⟨k, p.render :: args⟩).run d = (.ok outcome, d) := by
  have hthere : ∀ name ∈ children.mergeSort fun a b => decide (a ≤ b),
      ∃ legal, d.store.has (p.child name legal) = true := by
    intro name hname
    exact (hsound.mem_of_childrenOf hchildren name).mp (List.mem_mergeSort.mp hname)
  obtain ⟨marked, hmarked⟩ : ∃ marked, (markParents (Tree.client clock) p.render
      (children.mergeSort fun a b => decide (a ≤ b))).run d = (.ok marked, d) :=
    run_markParents_render hthere
  refine ⟨saying (Text.columnize marked d.session.width.toNat), ?_⟩
  rw [run_list p.parse_render, hchildren]
  exact Act.bind_of_ok hmarked

/-- A listing fails where the canonical one does not if its text has two slashes at the end and
there are children, and in no other case. -/
theorem list_agrees_iff (hp : NodePath.parse text = .ok p) {d : Desk Tree ε}
    (hsound : d.store.Sound) :
    (((list (Tree.client clock) ⟨k, text :: args⟩).run d).1.toOption =
          ((list (Tree.client clock) ⟨k, p.render :: args⟩).run d).1.toOption ∧
        ((list (Tree.client clock) ⟨k, text :: args⟩).run d).2.store =
          ((list (Tree.client clock) ⟨k, p.render :: args⟩).run d).2.store) ↔
      ¬ (NodePath.Doubled text ∧
        ∃ children, d.store.childrenOf p = .ok children ∧ children ≠ []) := by
  constructor
  · -- The one listing fails and the other does not, so that they cannot agree.
    rintro ⟨hsame, -⟩ ⟨hdoubled, children, hchildren, hsome⟩
    obtain ⟨name, -, hfails⟩ :
        ∃ name ∈ children, (list (Tree.client clock) ⟨k, text :: args⟩).run d =
          (.error (.client (.invalidPath (joinChild text name))), d) :=
      list_doubled hp hdoubled hsound hchildren hsome
    obtain ⟨outcome, hlists⟩ :
        ∃ outcome, (list (Tree.client clock) ⟨k, p.render :: args⟩).run d = (.ok outcome, d) :=
      list_canonical hsound hchildren
    rw [hfails, hlists] at hsame
    cases hsame
  · intro hnot
    rw [list_respelled hp fun hdoubled children hchildren => ?_]
    · exact ⟨rfl, rfl⟩
    · by_contra hsome
      exact hnot ⟨hdoubled, children, hchildren, hsome⟩

/-! ### What is typed -/

/-- The first argument of these commands is the path. -/
theorem slots_of_mem_pathKeywords (hk : k ∈ pathKeywords) :
    k.slots = .required .path :: k.slots.drop 1 := by
  simp only [pathKeywords, List.mem_cons, List.not_mem_nil, or_false] at hk
  rcases hk with rfl | rfl | rfl | rfl | rfl | rfl | rfl <;> rfl

/-- A text that names a node can be typed as an argument if it has no blank in it, and so can the
canonical text of that node. -/
theorem mem_path_of_parse (hp : NodePath.parse text = .ok p)
    (ink : ∀ c ∈ text.toList, isBlank c = false) :
    text.toList ∈ Phrase.path ∧ p.render.toList ∈ Phrase.path := by
  obtain ⟨n, htext⟩ := NodePath.parse?_eq_some_iff.mp (NodePath.parse_eq_ok_iff.mp hp)
  have hcanonical : ∀ c ∈ p.render.toList, isBlank c = false := by
    intro c hc
    refine ink c ?_
    rw [htext]
    exact List.mem_append_left _ hc
  refine ⟨?_, render_mem_path hcanonical⟩
  rw [htext, NodePath.toList_render] at ink ⊢
  exact ⟨_, rfl, fun c hc => ink c (List.mem_cons_of_mem _ hc)⟩

end Command

/-! ### Lines -/

namespace Runner

/-- Two lines fail both, or both lead to the same outcome; and they leave the same store. -/
def SameEffect (typed canonical : Except ShellError Outcome × World σ κ ε τ) : Prop :=
  typed.1.toOption = canonical.1.toOption ∧ typed.2.desk.store = canonical.2.desk.store

/-- A command that is allowed, and gets a yes to whatever it asks, is carried out. -/
theorem run_of_consented {r : Runner σ κ ε τ} {line : String} {w : World σ κ ε τ} {c : Command}
    (h : Command.ofLine line = .ok c) (writable : w.session.readOnly = false)
    (consent : ∀ q, (r.confirmer.ask q w.asker).1 = true) :
    (r.run line w).1 = ((c.handle r.client r.editor).run w.desk).1 ∧
      (r.run line w).2.desk.store = ((c.handle r.client r.editor).run w.desk).2.store := by
  obtain ⟨result, d, asker, hcourse, hresult, -, hdesk⟩ := r.run_course line w
  rw [hresult, hdesk]
  cases hcourse with
  | blank hblank =>
    rw [isBlankText_of_validate (Command.validate_of_ofLine h)] at hblank
    cases hblank
  | malformed _ hline =>
    rw [h] at hline
    cases hline
  | refused _ _ hw =>
    rw [writable] at hw
    cases hw
  | @declined _ q _ _ _ _ ha =>
    have hyes := consent q
    rw [ha] at hyes
    cases hyes
  | done hline =>
    rw [h] at hline
    cases hline
    exact ⟨rfl, rfl⟩

end Runner

namespace Tree

variable {t : Tree}

/-- In a session that may write, and with a yes to every question, it does not matter by which text
a node is named, with one exception: a listing fails if the text has two slashes at its end and the
node has children, while by the canonical text they are listed. -/
theorem Reachable.sameEffect_iff (h : Reachable t) (clock : Clock) (confirmer : Confirmer κ)
    (editor : Editor ε) (telemetry : Option (Telemetry τ)) (w : World Tree κ ε τ)
    (hw : w.desk.store = t) (writable : w.session.readOnly = false)
    (consent : ∀ q, (confirmer.ask q w.asker).1 = true) (hk : k ∈ Command.pathKeywords)
    (hp : NodePath.parse text = .ok p) (ink : ∀ c ∈ text.toList, isBlank c = false)
    (hargs : Slot.Filled (k.slots.drop 1) args) :
    let r : Runner Tree κ ε τ := ⟨Tree.client clock, confirmer, editor, telemetry⟩
    Runner.SameEffect (r.run (Command.spelled ⟨k, text :: args⟩) w)
        (r.run (Command.spelled ⟨k, p.render :: args⟩) w) ↔
      ¬ (k = .ls ∧ NodePath.Doubled text ∧
        ∃ children, t.childrenOf p = .ok children ∧ children ≠ []) := by
  intro r
  subst hw
  obtain ⟨htext, hrender⟩ := Command.mem_path_of_parse hp ink
  have hfilled : ∀ {a : String}, a.toList ∈ Phrase.path → Slot.Filled k.slots (a :: args) := by
    intro a ha
    rw [Command.slots_of_mem_pathKeywords hk]
    exact .given ha hargs
  have htyped := Runner.run_of_consented (r := r)
    (Command.ofLine_spelled (c := ⟨k, text :: args⟩) (hfilled htext)) writable consent
  have hcanonical := Runner.run_of_consented (r := r)
    (Command.ofLine_spelled (c := ⟨k, p.render :: args⟩) (hfilled hrender)) writable consent
  -- with a yes to whatever it asks, a line does what the command does at the desk
  rw [Runner.SameEffect, htyped.1, htyped.2, hcanonical.1, hcanonical.2]
  by_cases hls : k = .ls
  · subst hls
    exact (Command.list_agrees_iff hp h.sound).trans
      (not_congr ⟨fun hcase => ⟨rfl, hcase⟩, And.right⟩)
  · obtain ⟨hresult, hdesk⟩ := Command.handle_respelled hp hk hls editor w.desk
    exact iff_of_true ⟨hresult, congrArg Desk.store hdesk⟩ fun hcase => hls hcase.1

/-- By two slashes the root cannot be listed, and by one it can. -/
theorem doubled_root_not_listed :
    let r : Runner Tree Unit Unit Unit :=
      ⟨client default, ⟨fun _ k => (true, k)⟩, ⟨fun _ payload e => (.ok payload, e)⟩, none⟩
    let w : World Tree Unit Unit Unit := ⟨⟨grove, .start false, ()⟩, (), (), []⟩
    NodePath.parse "//" = NodePath.parse "/" ∧
      (r.run "ls //" w).1.toOption = none ∧ (r.run "ls /" w).1.toOption ≠ none := by
  intro r w
  have htyped : Command.ofLine "ls //" = .ok ⟨.ls, ["//"]⟩ := by decide +kernel
  have hcanonical : Command.ofLine "ls /" = .ok ⟨.ls, [NodePath.root.render]⟩ := by decide +kernel
  have hchildren : grove.childrenOf .root = .ok ["p", "p-x", "p2"] := by decide +kernel
  obtain ⟨name, -, hfails⟩ :
      ∃ name ∈ _, (Command.list (Tree.client default) ⟨.ls, ["//"]⟩).run w.desk =
        (.error (.client (.invalidPath (joinChild "//" name))), w.desk) :=
    Command.list_doubled rfl (by decide) reachable_grove.sound hchildren (by decide)
  obtain ⟨outcome, hlists⟩ :
      ∃ outcome, (Command.list (Tree.client default) ⟨.ls, [NodePath.root.render]⟩).run w.desk =
        (.ok outcome, w.desk) := Command.list_canonical reachable_grove.sound hchildren
  refine ⟨rfl, ?_, ?_⟩
  · rw [(Runner.run_of_consented (r := r) (w := w) htyped rfl fun _ => rfl).1]
    exact congrArg (fun a => a.1.toOption) hfails
  · rw [(Runner.run_of_consented (r := r) (w := w) hcanonical rfl fun _ => rfl).1]
    exact fun hnone => Option.some_ne_none outcome
      ((congrArg (fun a => a.1.toOption) hlists).symm.trans hnone)

/-- A node with nothing below it is listed by any text, and any node is deleted by any; the root is
not listed by two slashes. -/
theorem sameEffect_grove :
    let r : Runner Tree Unit Unit Unit :=
      ⟨client default, ⟨fun _ k => (true, k)⟩, ⟨fun _ payload e => (.ok payload, e)⟩, none⟩
    let w : World Tree Unit Unit Unit := ⟨⟨grove, .start false, ()⟩, (), (), []⟩
    Runner.SameEffect (r.run "ls /p2///" w) (r.run "ls /p2" w) ∧
      Runner.SameEffect (r.run "rmr /p//" w) (r.run "rmr /p" w) ∧
      ¬ Runner.SameEffect (r.run "ls //" w) (r.run "ls /" w) := by
  intro r w
  have hink : ∀ text ∈ ["/p2///", "/p//", "//"], ∀ c ∈ text.toList, isBlank c = false := by
    have hall : (["/p2///", "/p//", "//"].all fun text =>
        text.toList.all fun c => !isBlank c) = true := by decide +kernel
    simpa only [List.all_eq_true, Bool.not_eq_true'] using hall
  have hlisted := reachable_grove.sameEffect_iff (k := .ls)
    (p := .child .root "p2" (by decide)) default ⟨fun _ k => (true, k)⟩
    ⟨fun _ payload e => (.ok payload, e)⟩ none w rfl rfl (fun _ => rfl) (by decide)
    (by decide : NodePath.parse "/p2///" = _) (hink _ (by decide)) .none
  have hdeleted := reachable_grove.sameEffect_iff (k := .rmr)
    (p := .child .root "p" (by decide)) default ⟨fun _ k => (true, k)⟩
    ⟨fun _ payload e => (.ok payload, e)⟩ none w rfl rfl (fun _ => rfl) (by decide)
    (by decide : NodePath.parse "/p//" = _) (hink _ (by decide)) .none
  have hroot := reachable_grove.sameEffect_iff (k := .ls) (p := .root) default
    ⟨fun _ k => (true, k)⟩ ⟨fun _ payload e => (.ok payload, e)⟩ none w rfl rfl (fun _ => rfl)
    (by decide) (by decide : NodePath.parse "//" = _) (hink _ (by decide)) .none
  have hnone : grove.childrenOf (.child .root "p2" (by decide)) = .ok [] := by decide +kernel
  refine ⟨hlisted.mpr ?_, hdeleted.mpr ?_, fun hsame => hroot.mp hsame ?_⟩
  · rintro ⟨-, -, children, hchildren, hsome⟩
    rw [hnone] at hchildren
    cases hchildren
    exact hsome rfl
  · rintro ⟨hls, -⟩
    cases hls
  · exact ⟨rfl, by decide, ["p", "p-x", "p2"], by decide +kernel, by decide⟩

end Tree
end TreeConsole
