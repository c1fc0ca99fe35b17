import TreeConsole.Failure
import TreeConsole.OsError
import TreeConsole.Text.Utf8

/-!
# Disks

Folders and files by their places. A path is followed name by name, from the root when it starts
with a slash and else from the working folder; a dot stays and two dots go up, and every name before
the last has to be a folder. Files can be read as a whole and be appended to, which makes those that
are missing; folders can be made with all folders above them. The root, and a device that never has
room for anything, are on every disk.

Main statements: `item?_put_self` and `item?_put_of_ne` describe a disk by its look-ups.
-/

namespace TreeConsole

/-- What is at a place of a disk. -/
inductive DiskItem where
  | folder
  | file (content : Bytes)
  /-- A device that can be opened, takes no bytes and gives bytes without end. -/
  | full
  deriving DecidableEq, Repr, Inhabited

/-- The names on the way from the root. -/
abbrev Place := List String

/-- A disk. What is on every disk has no entry. -/
structure Disk where
  items : List (Place × DiskItem)
  /-- The folder in which paths start that do not start at the root. -/
  here : Place := []
  deriving Repr, Inhabited

namespace Disk

/-- A disk with nothing but its root. -/
def empty : Disk := { items := [] }

/-! ### Places -/

/-- The parts of a path between its slashes. -/
def pathParts (path : String) : List String :=
  (splitOnSlash path.toList).map String.ofList
where
  /-- Cuts a text at its slashes. -/
  splitOnSlash : List Char → List (List Char)
    | [] => [[]]
    | c :: cs =>
      if c = '/' then [] :: splitOnSlash cs
      else
        match splitOnSlash cs with
        | [] => [[c]]
        | s :: ss => (c :: s) :: ss

/-- What is on every disk: the root, and the full device in the folder of devices. -/
def fixture? : Place → Option DiskItem
  | [] | ["dev"] => some .folder
  | ["dev", "full"] => some .full
  | _ => none

/-- What is at a place. -/
def item? (d : Disk) (p : Place) : Option DiskItem := (fixture? p).or (d.items.lookup p)

/-- Puts something at a place. -/
def put (d : Disk) (p : Place) (i : DiskItem) : Disk :=
  { d with items := (p, i) :: d.items.filter fun e => e.1 ≠ p }

/-- The greatest number of bytes of a name. -/
def maxName : Nat := 255

/-- Follows names from a place on. Every name but the last has to be there and be a folder, and so
does the last when it stands for a folder. -/
def follow (d : Disk) (here : Place) : List String → Except OsError Place
  | [] => .ok here
  | name :: names =>
    match d.item? here with
    | none => .error .notFound
    | some (.file _) | some .full => .error .notDirectory
    | some .folder =>
      if name = "" ∨ name = "." then d.follow here names
      else if name = ".." then d.follow here.dropLast names
      else if maxName < Utf8.width name.toList then .error .nameTooLong
      else d.follow (here ++ [name]) names

/-- Whether a path starts at the root. -/
def isAbsolute (path : String) : Bool := path.toList.head? = some '/'

/-- The place where a path starts. -/
def start (d : Disk) (path : String) : Place := if isAbsolute path then [] else d.here

/-- The place a path leads to. -/
def locate (d : Disk) (path : String) : Except OsError Place :=
  if path = "" then .error .notFound
  else if path.toList.contains '\x00' then .error .invalidName
  else d.follow (d.start path) (pathParts path)

/-! ### Files -/

/-- The content of a file. -/
def read (d : Disk) (path : String) : Except OsError Bytes :=
  match d.locate path with
  | .error e => .error e
  | .ok p =>
    match d.item? p with
    | none => .error .notFound
    | some .folder => .error .isDirectory
    | some (.file content) => .ok content
    | some .full => .error .outOfMemory

/-- Whether a path ends like the path of a folder. -/
def namesFolder (path : String) : Bool :=
  match (pathParts path).getLast? with
  | some name => name = "" || name = "." || name = ".."
  | none => true

/-- Adds bytes to the end of a file; a file that is missing is made. -/
def append (d : Disk) (path : String) (bytes : Bytes) : Except OsError Disk :=
  match d.locate path with
  | .error .notFound => .error (if namesFolder path && path ≠ "" then .isDirectory else .notFound)
  | .error e => .error e
  | .ok p =>
    match d.item? p, d.item? p.dropLast with
    -- What is there decides first; only what is missing asks for its folder.
    | some .folder, _ => .error .isDirectory
    | some (.file content), _ => .ok (d.put p (.file (content ++ bytes)))
    | some .full, _ => if bytes = [] then .ok d else .error .noSpace
    | none, some .folder => .ok (d.put p (.file bytes))
    | none, some (.file _) | none, some .full => .error .notDirectory
    | none, none => .error .notFound

/-! ### Folders -/

/-- Makes the folders that names lead through, from a place on. -/
def makeFolders (d : Disk) (here : Place) : List String → Except OsError Disk
  | [] => .ok d
  | name :: names =>
    if name = "" ∨ name = "." then d.makeFolders here names
    else if name = ".." then d.makeFolders here.dropLast names
    else if maxName < Utf8.width name.toList then .error .nameTooLong
    else
      match d.item? (here ++ [name]) with
      | some .folder => d.makeFolders (here ++ [name]) names
      | some (.file _) | some .full =>
        .error (if names.isEmpty then .alreadyExists else .notDirectory)
      | none => (d.put (here ++ [name]) .folder).makeFolders (here ++ [name]) names

/-- Makes a folder and every folder above it. An empty path stands for a folder that is there. -/
def makeFolder (d : Disk) (path : String) : Except OsError Disk :=
  if path.toList.contains '\x00' then .error .invalidName
  else d.makeFolders (d.start path) (pathParts path)

/-- A path without the slashes and dots at its end that stand for nothing. -/
def trimTail (parts : List String) : List String :=
  (parts.reverse.dropWhile fun s => s = "" || s = ".").reverse

/-- The path of the folder that a path is in, as it was written; the root is in none. -/
def parentPath? (path : String) : Option String :=
  let parts := pathParts path
  let rooted := path.toList.head? = some '/'
  match (trimTail (if rooted then parts.drop 1 else parts)).reverse with
  | [] =>
    -- A path of dots alone still has a first dot, which is in the folder of no name.
    if !rooted && parts.head? = some "." then some "" else none
  | _ :: above =>
    let kept := trimTail above.reverse
    let kept := if kept = [] && !rooted && parts.head? = some "." && above ≠ [] then ["."] else kept
    some ((if rooted then "/" else "") ++ "/".intercalate kept)

/-- Makes the folder that a path is in. -/
def makeParent (d : Disk) (path : String) : Except OsError Disk :=
  match parentPath? path with
  | none => .ok d
  | some parent => d.makeFolder parent

/-! ### Paths as texts -/

/-- A path seen from a folder. -/
def join (folder path : String) : String :=
  if isAbsolute path then path
  else if folder = "" || folder.toList.getLast? = some '/' then folder ++ path
  else folder ++ "/" ++ path

theorem item?_put_self {d : Disk} {p : Place} {i : DiskItem} (h : fixture? p = none) :
    (d.put p i).item? p = some i := by
  simp [put, item?, h]

theorem item?_put_of_ne {d : Disk} {p q : Place} {i : DiskItem} (h : q ≠ p) :
    (d.put p i).item? q = d.item? q := by
  refine congrArg (fixture? q).or ?_
  simp only [put, List.lookup_cons, beq_eq_false_iff_ne.mpr h]
  induction d.items with
  | nil => rfl
  | cons e items ih =>
    obtain ⟨k, j⟩ := e
    by_cases hk : k = p
    · subst hk
      rw [List.filter_cons_of_neg (by simp), ih, List.lookup_cons, beq_eq_false_iff_ne.mpr h]
    · rw [List.filter_cons_of_pos (by simpa using hk), List.lookup_cons, List.lookup_cons, ih]

/-- No file is on every disk. -/
theorem fixture?_of_item?_file {d : Disk} {p : Place} {content : Bytes}
    (h : d.item? p = some (.file content)) : fixture? p = none := by
  unfold item? fixture? at *
  split at h <;> first | rfl | cases h

end Disk
end TreeConsole
