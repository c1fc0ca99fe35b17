import TreeConsole.Proofs.Runner.PathTexts
import TreeConsole.Proofs.Runner.Recording
import TreeConsole.Proofs.Text.ByteOrder

/-!
# What a listing shows

A listing asks the tree for the names of the children of a node, and then of each child whether it
has children itself. The first answer is what the table has under the node: by soundness a node
names the children that are there and no others, in order. The other answers need the names joined
to the text that was typed to be the texts of the children again, and then none of them can fail. A
child that has children is one below which there is a node at any depth.

## Main definitions

* `Tree.ShownAs`, `Tree.IsListing` — what is to be shown of the children of a node

## Main results

* `Command.run_list_recorded` — a listing shows this, and makes one request for the node and one for
  each child
* `Tree.Reachable.lists_children` — the same of a line that is run
-/

namespace TreeConsole

open Text (isBlank)

variable {κ ε τ : Type} {t : Tree} {p : NodePath} {name text : String}

namespace Tree

/-- How a child is shown: by its name, and with a slash if there is a node anywhere below it. -/
inductive ShownAs (t : Tree) (p : NodePath) (name : String) : String → Prop
  | inner {q r : NodePath} (child : q.parent? = some (p, name)) (below : q < r)
    (there : t.has r = true) : ShownAs t p name (name ++ "/")
  | leaf (bare : ∀ q r, q.parent? = some (p, name) → q < r → t.has r = false) :
    ShownAs t p name name

/-- What there is to be shown of the children of a node. -/
structure IsListing (t : Tree) (p : NodePath) (names shown : List String) : Prop where
  /-- The names are the last segments of the paths in the tree whose parent is the node. -/
  mem_iff : ∀ name, name ∈ names ↔ ∃ q, t.has q = true ∧ q.parent? = some (p, name)
  /-- They stand in the order of their bytes, each of them once. -/
  sorted : names.Pairwise fun a b => Utf8.ofText a < Utf8.ofText b
  shown : List.Forall₂ (t.ShownAs p) names shown

/-- A child has children exactly when there is something below it. -/
theorem Sound.shownAs (h : t.Sound) {legal : IsSegment name} {n : Node}
    (hn : t.find? (p.child name legal) = some n) :
    t.ShownAs p name (if n.children.isEmpty then name else name ++ "/") := by
  have hagrees : Agrees h.outline t := fun _ => rfl
  have hbelow := children_ne_nil_iff h hagrees hn
  by_cases hempty : n.children = []
  · rw [if_pos (List.isEmpty_iff.mpr hempty)]
    refine .leaf fun q r hq hlt => ?_
    obtain ⟨_, rfl⟩ := NodePath.parent?_eq_some_iff.mp hq
    rw [← Bool.not_eq_true]
    exact fun hr => hbelow.mpr ⟨r, hlt, hagrees.has_iff.mpr hr⟩ hempty
  · rw [if_neg fun hnil => hempty (List.isEmpty_iff.mp hnil)]
    obtain ⟨r, hlt, hr⟩ := hbelow.mp hempty
    exact .inner (NodePath.parent?_child p name legal) hlt (hagrees.has_iff.mp hr)

/-- The names by which a node goes on in a sound tree are those that it keeps. -/
theorem Sound.mem_children_iff (h : t.Sound) {n : Node} (hn : t.find? p = some n) (name : String) :
    name ∈ n.children ↔ ∃ q, t.has q = true ∧ q.parent? = some (p, name) := by
  rw [h.names hn name]
  simp only [NodePath.parent?_eq_some_iff]
  constructor
  · rintro ⟨legal, hchild⟩
    exact ⟨_, hchild, legal, rfl⟩
  · rintro ⟨_, hchild, legal, rfl⟩
    exact ⟨legal, hchild⟩

/-- There is one list of the names that a listing of a node may have. -/
theorem IsListing.names_eq {names shown : List String} (hl : t.IsListing p names shown)
    (h : t.Sound) {n : Node} (hn : t.find? p = some n) : names = n.children := by
  have hsorted : names.Pairwise (· < ·) := hl.sorted.imp Utf8.ofText_lt_ofText_iff.mp
  refine hsorted.eq_of_mem_iff (h.sorted hn) fun name => ?_
  rw [hl.mem_iff name, h.mem_children_iff hn name]

end Tree

/-! ### Requests -/

section Requests

variable {d : Desk (Tree × List Request) ε}

/-- A desk with some more requests on the list that is kept there. -/
def Desk.noting (d : Desk (Tree × List Request) ε) (made : List Request) :
    Desk (Tree × List Request) ε :=
  { d with store := (d.store.1, d.store.2 ++ made) }

theorem Desk.noting_nil (d : Desk (Tree × List Request) ε) : d.noting [] = d := by
  rw [noting, List.append_nil]

theorem Desk.noting_noting (d : Desk (Tree × List Request) ε) (made more : List Request) :
    (d.noting made).noting more = d.noting (made ++ more) := by
  rw [noting, noting, noting, List.append_assoc]

namespace Command

/-- The names of the children of a node that is there are given, and the request is noted. -/
theorem run_listChildren_recorded (clock : Clock) (hp : NodePath.parse text = .ok p) {n : Node}
    (hn : d.store.1.find? p = some n) :
    (Desk.request (Tree.client clock).recorded (.listChildren text)).run d =
      (.ok n.children, d.noting [.listChildren text]) := by
  rw [Desk.run_request]
  simp only [Client.recorded, Tree.client, Tree.answer, Tree.withPath, hp, Tree.childrenOf, hn]
  rfl

/-- Of every child that is there it is asked once whether there is something below it. -/
theorem run_markParents_recorded (clock : Clock) (text : String) (h : d.store.1.Sound)
    {names : List String}
    (hnames : ∀ name ∈ names, ∃ legal, d.store.1.has (p.child name legal) = true ∧
      NodePath.parse (joinChild text name) = .ok (p.child name legal)) :
    ∃ shown, (markParents (Tree.client clock).recorded text names).run d =
        (.ok shown, d.noting (names.map fun name => .listChildren (joinChild text name))) ∧
      List.Forall₂ (d.store.1.ShownAs p) names shown := by
  induction names generalizing d with
  | nil =>
    rw [List.map_nil, Desk.noting_nil]
    exact ⟨[], rfl, .nil⟩
  | cons name names ih =>
    obtain ⟨legal, hthere, hread⟩ := hnames name List.mem_cons_self
    obtain ⟨n, hn⟩ := Tree.has_iff.mp hthere
    have hasked := run_listChildren_recorded clock hread hn
    -- The tree is as before, only the request is noted.
    obtain ⟨shown, hrest, hshown⟩ := ih (d := d.noting [.listChildren (joinChild text name)]) h
      fun name' hname' => hnames name' (List.mem_cons_of_mem name hname')
    rw [Desk.noting_noting, List.singleton_append] at hrest
    exact ⟨_, (Act.bind_of_ok hasked).trans (Act.bind_of_ok hrest), .cons (h.shownAs hn) hshown⟩

/-- A node that is there is listed, by a text to which the names of its children can be joined. -/
theorem run_list_recorded (clock : Clock) (h : d.store.1.Sound)
    (hp : NodePath.parse text = .ok p) (there : d.store.1.has p = true)
    (hjoin : ∀ name legal, NodePath.parse (joinChild text name) = .ok (p.child name legal)) :
    ∃ names shown, d.store.1.IsListing p names shown ∧
      (list (Tree.client clock).recorded ⟨.ls, [text]⟩).run d =
        (.ok (saying (Text.columnize shown d.session.width.toNat)),
          d.noting (.listChildren text ::
            names.map fun name => .listChildren (joinChild text name))) := by
  obtain ⟨n, hn⟩ := Tree.has_iff.mp there
  -- The names come in order, so that to sort them changes nothing.
  have hsorted : n.children.mergeSort (fun a b => decide (a ≤ b)) = n.children :=
    List.mergeSort_of_pairwise ((h.sorted hn).imp fun hlt => decide_eq_true (le_of_lt hlt))
  have hasked := run_listChildren_recorded clock hp hn
  obtain ⟨shown, hmarked, hshown⟩ := run_markParents_recorded clock text
    (d := d.noting [.listChildren text]) (p := p) h fun name hname => by
      obtain ⟨legal, hchild⟩ := (h.names hn name).mp hname
      exact ⟨legal, hchild, hjoin name legal⟩
  rw [Desk.noting_noting, List.singleton_append] at hmarked
  have hordered := (h.sorted hn).imp Utf8.ofText_lt_ofText_iff.mpr
  refine ⟨n.children, shown, ⟨h.mem_children_iff hn, hordered, hshown⟩, ?_⟩
  simp only [list, pathArg, arg?, List.getElem?_cons_zero, pure_bind]
  refine (Act.bind_of_ok hasked).trans ?_
  rw [hsorted]
  exact Act.bind_of_ok hmarked

end Command

end Requests

/-! ### Lines -/

/-- The canonical text of a node names it, and so does that text with one slash behind it. With the
name of a child joined to it, either becomes the text of the child. -/
theorem NodePath.names_of_listed (h : text = p.render ∨ p ≠ .root ∧ text = p.render ++ "/") :
    parse text = .ok p ∧ ∀ name legal, parse (joinChild text name) = .ok (p.child name legal) := by
  have hjoin : ∀ name legal, parse (joinChild p.render name) = .ok (p.child name legal) := by
    intro name legal
    rw [joinChild_render legal, parse_render]
  rcases h with rfl | ⟨hp, rfl⟩
  · exact ⟨p.parse_render, hjoin⟩
  · refine ⟨parse_eq_ok_iff.mpr (parse?_eq_some_iff.mpr ⟨1, String.toList_append⟩), ?_⟩
    intro name legal
    -- The slash that is there is the one that would have been put there.
    have hsame : joinChild (p.render ++ "/") name = joinChild p.render name := by
      rw [joinChild, if_pos (by simp), joinChild, if_neg (getLast?_render_ne hp)]
    rw [hsame, hjoin]

namespace Tree

/-- A node that is there is listed, in any session, by its canonical text or, unless it is the root,
by that text with a slash behind it. What is shown are the last segments of the paths in the tree
whose parent is the node, in the order of their bytes and each of them once, with a slash behind
those below which the tree goes on. The tree is only read: it is asked for the children of the node
once, and then once for those of each child. Keeping a list of what it is asked for changes nothing
else. -/
theorem Reachable.lists_children (h : Reachable t) (clock : Clock) (confirmer : Confirmer κ)
    (editor : Editor ε) (telemetry : Option (Telemetry τ)) (w : RecordedWorld Tree κ ε τ)
    (hw : w.desk.store.1 = t) (there : t.has p = true)
    (ink : ∀ c ∈ p.render.toList, isBlank c = false)
    (htext : text = p.render ∨ p ≠ .root ∧ text = p.render ++ "/") :
    let r : Runner Tree κ ε τ := ⟨Tree.client clock, confirmer, editor, telemetry⟩
    let after := r.recorded.run ("ls " ++ text) w
    r.run ("ls " ++ text) w.forget = (after.1, after.2.forget) ∧
      ∃ names shown, t.IsListing p names shown ∧
        after.1 = .ok (.proceed (.text (Text.columnize shown w.session.width.toNat))) ∧
        after.2.desk.store = (t, w.desk.store.2 ++ .listChildren text ::
          names.map fun name => .listChildren (joinChild text name)) ∧
        NodePath.parse text = .ok p ∧
        ∀ q name, q.parent? = some (p, name) → NodePath.parse (joinChild text name) = .ok q := by
  intro r after
  subst hw
  obtain ⟨hp, hjoin⟩ := NodePath.names_of_listed htext
  -- The slash behind the path is no blank either, so that the line has one argument.
  have hink : ∀ c ∈ text.toList, isBlank c = false := by
    rcases htext with rfl | ⟨-, rfl⟩
    · exact ink
    · intro c hc
      rw [String.toList_append] at hc
      rcases List.mem_append.mp hc with hc | hc
      · exact ink c hc
      · rw [List.mem_singleton.mp hc]
        rfl
  have hline : Command.ofLine ("ls " ++ text) = .ok ⟨.ls, [text]⟩ :=
    Command.ofLine_spelled (c := ⟨.ls, [text]⟩) (.given (Command.mem_path_of_parse hp hink).1 .none)
  obtain ⟨names, shown, hlisting, hrun⟩ := Command.run_list_recorded clock (d := w.desk)
    h.sound hp there hjoin
  obtain ⟨hresult, hstore⟩ := Runner.run_of_unasked (r := r.recorded) (w := w) hline
    (fun hmutates => by cases hmutates) rfl
  refine ⟨r.run_forget _ w, names, shown, hlisting, ?_, ?_, hp, fun q name hq => ?_⟩
  · exact hresult.trans (congrArg Prod.fst hrun)
  · exact hstore.trans (congrArg (fun a => a.2.store) hrun)
  · obtain ⟨legal, rfl⟩ := NodePath.parent?_eq_some_iff.mp hq
    exact hjoin name legal

/-- Children whose names begin alike. With the slash that is shown behind it the first of them would
come last. -/
def hedge : Tree :=
  (empty default).after <| List.map (Prod.mk default)
    [.ask (.ensurePath "/p/a-b"), .ask (.ensurePath "/p/a/c"), .write "/p/a b" [1]]

/-- The names are put in order before the slash is put behind one of them, and a blank in a name is
no hindrance. -/
theorem lists_children_hedge :
    let r : Runner Tree Unit Unit Unit :=
      ⟨client default, .assumeDefault, ⟨fun _ payload e => (.ok payload, e)⟩, none⟩
    let w : RecordedWorld Tree Unit Unit Unit :=
      ⟨⟨(hedge, []), .start true, ((), [])⟩, ((), []), (), []⟩
    let p := NodePath.root.child "p" (by decide)
    let after := r.recorded.run "ls /p/" w
    ∃ shown, hedge.IsListing p ["a", "a b", "a-b"] shown ∧
      after.1 = .ok (.proceed (.text (Text.columnize shown 80))) ∧
      after.2.desk.store = (hedge, [.listChildren "/p/", .listChildren "/p/a",
        .listChildren "/p/a b", .listChildren "/p/a-b"]) := by
  intro r w p after
  have hreachable : Reachable hedge := (Reachable.start default).after _
  have hall : (p.render.toList.all fun c => !isBlank c) = true := by decide
  have ink : ∀ c ∈ p.render.toList, isBlank c = false := by
    simpa only [List.all_eq_true, Bool.not_eq_true'] using hall
  obtain ⟨-, names, shown, hlisting, hresult, hstore, -⟩ := hreachable.lists_children default
    .assumeDefault ⟨fun _ payload e => (.ok payload, e)⟩ none w rfl (by decide +kernel) ink
    (.inr ⟨by decide, rfl⟩ : "/p/" = p.render ∨ p ≠ .root ∧ "/p/" = p.render ++ "/")
  have hchildren : (hedge.find? p).map Node.children = some ["a", "a b", "a-b"] := by
    decide +kernel
  obtain ⟨n, hn, hnames⟩ := Option.map_eq_some_iff.mp hchildren
  obtain rfl : names = ["a", "a b", "a-b"] :=
    (hlisting.names_eq hreachable.sound hn).trans hnames
  exact ⟨shown, hlisting, hresult, hstore⟩

end Tree
end TreeConsole
