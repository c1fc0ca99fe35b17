import TreeConsole.Tree.Basic

/-!
# Seeds

A tree written down as a document: node paths with their payloads. A string is a payload as it
stands, nothing at all is an empty payload, and any other value is stored as its compact text. The
entries are written one after the other, with the nodes above them, and the first path that is none
stops the rest.
-/

namespace TreeConsole.Tree

/-- The payload that a value of a seed stands for. -/
def seedPayload : Json → Bytes
  | .str s => Utf8.ofText s
  | .null => []
  | v => Utf8.encode v.compactChars

/-- Writes one entry, with the nodes above it. -/
def seedEntry (clock : Clock) (path : String) (value : Json) (t : Tree) : Result Unit :=
  match NodePath.parse path with
  | .error e => (.error e, t)
  | .ok p =>
    match p.parent? with
    | none => t.write clock p (seedPayload value)
    | some (parent, _) =>
      match t.ensure clock parent with
      | (.error e, t) => (.error e, t)
      | (.ok _, t) => t.write clock p (seedPayload value)

/-- Writes the entries of a document in their order. What was written before a failure stays. -/
def seed (clock : Clock) : List (String × Json) → Tree → Result Unit
  | [], t => (.ok (), t)
  | (path, value) :: entries, t =>
    match t.seedEntry clock path value with
    | (.error e, t) => (.error e, t)
    | (.ok _, t) => seed clock entries t

/-- The tree of a document. -/
def ofSeed (clock : Clock) (entries : List (String × Json)) : Except NodeError Tree :=
  match (empty clock).seed clock entries with
  | (.error e, _) => .error e
  | (.ok _, t) => .ok t

end TreeConsole.Tree
