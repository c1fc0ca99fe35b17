/-!
# TOML documents

The values of a TOML document, and how its lines build it up. A table comes into being in one of
three ways: by a header of its own, by the header of a table below it, or by a dotted key. Each way
allows different additions later: a header may take over a table that only a header below it
implied, and a dotted key may only go on with tables that dotted keys made. No key is set twice.

Numbers and dates are kept as they are written.
-/

namespace TreeConsole.Toml

/-- A value on the right of a key. -/
inductive Value where
  | text (s : String)
  | bool (b : Bool)
  /-- A number or a date, as it is written. -/
  | literal (s : String)
  | array (items : List Value)
  | table (fields : List (String × Value))
  deriving Repr, Inhabited

/-- How a table came into being. -/
inductive Origin where
  /-- By its own header. -/
  | header
  /-- By the header of a table below it. -/
  | implied
  /-- By a dotted key. -/
  | dotted
  deriving DecidableEq, Repr, Inhabited

/-- What a key of a document leads to. -/
inductive Item where
  | value (v : Value)
  | table (origin : Origin) (entries : List (String × Item))
  /-- The tables of an array; additions go to the last one. -/
  | tables (elements : List (List (String × Item)))
  deriving Repr, Inhabited

/-- The entries of a table. -/
abbrev Entries := List (String × Item)

/-- Replaces the item of a key that is there. -/
def replaceKey (key : String) (item : Item) (es : Entries) : Entries :=
  es.map fun e => if e.1 = key then (key, item) else e

/-- Sets a key that is not there yet. -/
def setKey (key : String) (item : Item) (es : Entries) : Option Entries :=
  match es.lookup key with
  | some _ => none
  | none => some (es ++ [(key, item)])

/-- Changes the table that the keys of a header lead to, making the tables on the way. -/
def atHeader (f : Entries → Option Entries) : List String → Entries → Option Entries
  | [], es => f es
  | key :: keys, es =>
    match es.lookup key with
    | none => do
      let inner ← atHeader f keys []
      some (es ++ [(key, .table .implied inner)])
    | some (.value _) => none
    | some (.table origin inner) => do
      let inner ← atHeader f keys inner
      some (replaceKey key (.table origin inner) es)
    | some (.tables elements) => do
      let inner ← atHeader f keys (elements.getLast?.getD [])
      some (replaceKey key (.tables (elements.dropLast ++ [inner])) es)

/-- Opens the table of a header. -/
def openTable (key : String) (es : Entries) : Option Entries :=
  match es.lookup key with
  | none => some (es ++ [(key, .table .header [])])
  | some (.table .implied inner) => some (replaceKey key (.table .header inner) es)
  | some _ => none

/-- Opens the next table of an array of tables. -/
def openElement (key : String) (es : Entries) : Option Entries :=
  match es.lookup key with
  | none => some (es ++ [(key, .tables [[]])])
  | some (.tables elements) => some (replaceKey key (.tables (elements ++ [[]])) es)
  | some _ => none

/-- Sets a dotted key: its last part in the table that the others lead to. `origin` is how the table
that is being changed came into being, and `nested` whether a part has been followed already. -/
def setDotted (item : Item) (origin : Origin) (nested : Bool) :
    List String → Entries → Option Entries
  | [], _ => none
  -- Behind other parts only a table that dotted keys made may get a key.
  | [key], es => if (origin = .dotted) = nested then setKey key item es else none
  | key :: keys, es =>
    match es.lookup key with
    | none => do
      let inner ← setDotted item .dotted true keys []
      some (es ++ [(key, .table .dotted inner)])
    -- A table with a header of its own is complete for dotted keys, and a value is no table.
    | some (.table .header _) | some (.value _) => none
    | some (.table inner entries) => do
      let entries ← setDotted item inner true keys entries
      some (replaceKey key (.table inner entries) es)
    | some (.tables elements) => do
      let inner ← setDotted item .header true keys (elements.getLast?.getD [])
      some (replaceKey key (.tables (elements.dropLast ++ [inner])) es)

/-- A line of a document. -/
inductive Line where
  /-- A key and its value. -/
  | pair (keys : List String) (value : Value)
  /-- The header of a table. -/
  | header (keys : List String)
  /-- The header of the next table of an array. -/
  | element (keys : List String)
  deriving Repr

/-- A document while it is being built: its entries, and the table that pairs go to. -/
structure Draft where
  entries : Entries
  here : List String

/-- Opens a table below the one that all but the last key lead to. -/
def Draft.opened (d : Draft) (keys : List String) (f : String → Entries → Option Entries) :
    Option Draft :=
  match keys.getLast? with
  | none => none
  | some key => (atHeader (f key) keys.dropLast d.entries).map (⟨·, keys⟩)

/-- Adds a line. -/
def Draft.add (d : Draft) : Line → Option Draft
  | .pair keys value =>
    (atHeader (setDotted (.value value) .header false keys) d.here d.entries).map (⟨·, d.here⟩)
  | .header keys => d.opened keys openTable
  | .element keys => d.opened keys openElement

/-- Builds a document from its lines. -/
def build (lines : List Line) : Option Entries :=
  (lines.foldlM Draft.add ⟨[], []⟩).map Draft.entries

mutual

/-- An item as a value. -/
def Item.toValue : Item → Value
  | .value v => v
  | .table _ es => .table (fieldsOf es)
  | .tables elements => .array (valuesOf elements)

/-- Entries as fields. -/
def fieldsOf : Entries → List (String × Value)
  | [] => []
  | (key, item) :: es => (key, item.toValue) :: fieldsOf es

/-- Tables as values. -/
def valuesOf : List Entries → List Value
  | [] => []
  | es :: rest => .table (fieldsOf es) :: valuesOf rest

end

end TreeConsole.Toml
