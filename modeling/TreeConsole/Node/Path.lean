import TreeConsole.Node.Error

/-!
# Node paths

A node is named by the segments on the way from the root to it. A text names a node when it starts
with a slash and its segments, parted by single slashes, are all legal; slashes at the end do not
count. Each node has one canonical text, which `render` writes and `parse` reads.

Main statements: `segments_child`; `intercalate_splitSlash` says that cutting at slashes loses
nothing.
-/

namespace TreeConsole

/-- What may stand between two slashes: not nothing, not a dot, not two dots, and no slash. -/
def IsSegment (s : String) : Prop := s ≠ "" ∧ s ≠ "." ∧ s ≠ ".." ∧ '/' ∉ s.toList

instance (s : String) : Decidable (IsSegment s) := inferInstanceAs (Decidable (_ ∧ _))

/-- The way from the root to a node. -/
structure NodePath where
  segments : List String
  legal : ∀ s ∈ segments, IsSegment s
  deriving DecidableEq

/-- Cuts a text at its slashes. -/
def splitSlash : List Char → List (List Char)
  | [] => [[]]
  | c :: cs =>
    if c = '/' then [] :: splitSlash cs
    else
      match splitSlash cs with
      | [] => [[c]]
      | s :: ss => (c :: s) :: ss

/-- A text without the slashes at its end. -/
def dropSlashes (cs : List Char) : List Char := (cs.reverse.dropWhile (· == '/')).reverse

theorem splitSlash_ne_nil (cs : List Char) : splitSlash cs ≠ [] := by
  cases cs with
  | nil => simp [splitSlash]
  | cons c cs =>
    simp only [splitSlash]
    split
    · simp
    · split <;> simp

theorem intercalate_splitSlash (cs : List Char) : ['/'].intercalate (splitSlash cs) = cs := by
  induction cs with
  | nil => rfl
  | cons c cs ih =>
    simp only [splitSlash]
    split
    · rename_i hc
      subst hc
      cases hs : splitSlash cs with
      | nil => exact absurd hs (splitSlash_ne_nil cs)
      | cons s ss => simp_all [List.intercalate]
    · cases hs : splitSlash cs with
      | nil => exact absurd hs (splitSlash_ne_nil cs)
      | cons s ss =>
        rw [hs] at ih
        cases ss <;> simp_all [List.intercalate]

namespace NodePath

instance : Repr NodePath := ⟨fun p _ => repr p.segments⟩

/-- The node that every other is below. -/
def root : NodePath := ⟨[], by simp⟩

instance : Inhabited NodePath := ⟨root⟩

/-- The canonical text of a path. -/
def render (p : NodePath) : String :=
  match p.segments with
  | [] => "/"
  | segments => String.join (segments.map fun s => "/" ++ s)

/-- The path of some segments, if all of them are legal. -/
def ofSegments? (segments : List String) : Option NodePath :=
  if h : ∀ s ∈ segments, IsSegment s then some ⟨segments, h⟩ else none

/-- The path a text names. -/
def parse? (text : String) : Option NodePath :=
  match text.toList with
  | '/' :: cs =>
    match dropSlashes cs with
    | [] => some root
    | body => ofSegments? ((splitSlash body).map String.ofList)
  | _ => none

/-- The path a text names; a text that names none is reported as it is. -/
def parse (text : String) : Except NodeError NodePath :=
  match parse? text with
  | some p => .ok p
  | none => .error (.invalidPath text)

/-- The way to a child. -/
def child (p : NodePath) (name : String) (h : IsSegment name) : NodePath :=
  ⟨p.segments ++ [name], by
    intro s hs
    rcases List.mem_append.mp hs with hs | hs
    · exact p.legal s hs
    · simp only [List.mem_singleton] at hs
      exact hs ▸ h⟩

/-- The way to a child, if its name is legal. -/
def child? (p : NodePath) (name : String) : Option NodePath :=
  if h : IsSegment name then some (p.child name h) else none

/-- The first part of a way. -/
def take (p : NodePath) (n : Nat) : NodePath :=
  ⟨p.segments.take n, fun s hs => p.legal s (List.mem_of_mem_take hs)⟩

/-- The node above and the name below it; the root has none. -/
def parent? (p : NodePath) : Option (NodePath × String) :=
  match p.segments.getLast? with
  | none => none
  | some name => some (p.take (p.segments.length - 1), name)

/-- The nodes on the way below the root, the shallowest first and the path itself last. -/
def waypoints (p : NodePath) : List NodePath :=
  (List.range p.segments.length).map fun i => p.take (i + 1)

/-- Whether a node is another or above it. -/
def isAtOrAbove (p q : NodePath) : Bool := p.segments.isPrefixOf q.segments

@[simp] theorem segments_root : root.segments = [] := rfl

@[simp] theorem segments_child (p : NodePath) (name : String) (h : IsSegment name) :
    (p.child name h).segments = p.segments ++ [name] := rfl

@[ext] theorem ext {p q : NodePath} (h : p.segments = q.segments) : p = q := by
  cases p; cases q; simp_all

theorem parent?_root : root.parent? = none := rfl

theorem parent?_child (p : NodePath) (name : String) (h : IsSegment name) :
    (p.child name h).parent? = some (p, name) := by
  simp only [parent?, segments_child, List.getLast?_concat]
  congr 2
  ext1
  simp [take]

end NodePath

/-- Joins the name of a child to a text that names its parent. -/
def joinChild (parent child : String) : String :=
  if parent.toList.getLast? = some '/' then parent ++ child else parent ++ "/" ++ child

end TreeConsole
