import TreeConsole.Text.Blank

/-!
# Columns

Names laid out row by row in columns of one width. A column is as wide as the longest name and a
gap; as many stand side by side as the width takes, and never fewer than one. Widths count
characters.

Main statement: `flatten_rows`, no name is lost and the order is kept.
-/

namespace TreeConsole.Text

/-- The blanks between two columns. -/
def columnGap : Nat := 2

/-- A name with blanks behind it up to a width. -/
def padded (width : Nat) (cs : List Char) : List Char :=
  cs ++ List.replicate (width - cs.length) ' '

/-- Cuts a list into rows of `k + 1` entries; the last row may be shorter. -/
def rows {α : Type} (k : Nat) (xs : List α) : List (List α) :=
  match xs with
  | [] => []
  | x :: xs => (x :: xs.take k) :: rows k (xs.drop k)
termination_by xs.length
decreasing_by simp only [List.length_drop, List.length_cons]; omega

theorem flatten_rows {α : Type} (k : Nat) (xs : List α) : (rows k xs).flatten = xs := by
  fun_induction rows k xs with
  | case1 => rfl
  | case2 x xs ih => simp [ih]

/-- The longest of some names, in characters. -/
def longest (names : List String) : Nat := (names.map String.length).foldr max 0

/-- The width of a column for some names. -/
def columnWidth (names : List String) : Nat := longest names + columnGap

/-- How many columns of a width stand side by side; at least one. -/
def columnCount (names : List String) (width : Nat) : Nat := max 1 (width / columnWidth names)

/-- One row of columns, without the blanks at its end. -/
def row (width : Nat) (names : List String) : List Char :=
  trimEnd (names.flatMap fun name => padded width name.toList)

/-- Names in columns, one row a line. -/
def columnize (names : List String) (width : Nat) : String :=
  "\n".intercalate ((rows (columnCount names width - 1) names).map fun r =>
    String.ofList (row (columnWidth names) r))

end TreeConsole.Text
