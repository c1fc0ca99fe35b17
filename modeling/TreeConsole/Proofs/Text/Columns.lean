import Mathlib.Data.List.DropRight
import Mathlib.Order.Bounds.Basic
import Mathlib.Order.MinMax
import TreeConsole.Text.Columns

/-!
# Names in columns can be read back

A listing is a text, and what it lists is got back from the text and the width of a column: each
line is cut into fields of that width, and the blanks that fill a field up are dropped. The fields
of a line come out right since every name but the last of its row takes up a whole field, and the
last one ends where the line ends; for that no name may be empty, end with a blank, or go over a
line end.

The lines are no longer than the width that was asked for, unless a single name is.

## Main definitions

* `IsColumnName` — names that can be read back
* `fields` — the names on a line

## Main results

* `length_of_mem_dropLast_rows` — only the last row may be shorter
* `fields_row` — a row is read back from its line
* `columnize_legible` — a listing is read back line by line, and fits
-/

namespace TreeConsole.Text

/-! ### Rows -/

section Rows

variable {α : Type} {k : Nat} {xs r : List α}

theorem rows_append (h : xs.length = k + 1) (ys : List α) :
    rows k (xs ++ ys) = xs :: rows k ys := by
  cases xs with
  | nil => cases h
  | cons x xs =>
    have hlength : xs.length = k := Nat.succ.inj h
    rw [List.cons_append, rows, List.take_left' hlength, List.drop_left' hlength]

theorem rows_of_length_le (hne : xs ≠ []) (h : xs.length ≤ k + 1) : rows k xs = [xs] := by
  cases xs with
  | nil => exact absurd rfl hne
  | cons x xs =>
    have hlength : xs.length ≤ k := Nat.le_of_succ_le_succ h
    rw [rows, List.take_of_length_le hlength, List.drop_of_length_le hlength, rows]

theorem ne_nil_of_mem_rows (h : r ∈ rows k xs) : r ≠ [] := by
  fun_induction rows k xs with
  | case1 => cases h
  | case2 x xs ih =>
    rcases List.mem_cons.mp h with rfl | h
    · exact List.cons_ne_nil _ _
    · exact ih h

theorem mem_of_mem_rows {x : α} (h : r ∈ rows k xs) (hx : x ∈ r) : x ∈ xs := by
  rw [← flatten_rows k xs]
  exact List.mem_flatten_of_mem h hx

theorem length_le_of_mem_rows (h : r ∈ rows k xs) : r.length ≤ k + 1 := by
  fun_induction rows k xs with
  | case1 => cases h
  | case2 x xs ih =>
    rcases List.mem_cons.mp h with rfl | h
    · exact Nat.succ_le_succ (List.length_take_le _ _)
    · exact ih h

theorem rows_ne_nil (h : xs ≠ []) : rows k xs ≠ [] := by
  cases xs with
  | nil => exact absurd rfl h
  | cons x xs =>
    rw [rows]
    exact List.cons_ne_nil _ _

/-- Only the last row may be shorter than the others. -/
theorem length_of_mem_dropLast_rows (h : r ∈ (rows k xs).dropLast) : r.length = k + 1 := by
  fun_induction rows k xs with
  | case1 => cases h
  | case2 x xs ih =>
    by_cases hlast : rows k (xs.drop k) = []
    · rw [hlast] at h
      cases h
    · rw [List.dropLast_cons_of_ne_nil hlast] at h
      rcases List.mem_cons.mp h with rfl | h
      · -- Something is left for another row, so this one could be filled.
        have hleft : xs.drop k ≠ [] := fun hnil => hlast (by rw [hnil, rows])
        have hlt : k < xs.length := by
          rw [ne_eq, List.drop_eq_nil_iff] at hleft
          exact not_le.mp hleft
        rw [List.length_cons, List.length_take_of_le hlt.le]
      · exact ih h

/-- A list of pieces that are as long as rows, and a shorter one behind them, falls into these. -/
theorem rows_flatten_append {xss : List (List α)} {ys : List α} (h : ∀ xs ∈ xss, xs.length = k + 1)
    (hne : ys ≠ []) (hys : ys.length ≤ k + 1) : rows k (xss.flatten ++ ys) = xss ++ [ys] := by
  induction xss with
  | nil => exact rows_of_length_le hne hys
  | cons xs xss ih =>
    obtain ⟨hxs, hxss⟩ := List.forall_mem_cons.mp h
    rw [List.flatten_cons, List.append_assoc, rows_append hxs, ih hxss, List.cons_append]

end Rows

/-! ### Names and their fields -/

/-- A name that can be read back from a listing. -/
structure IsColumnName (name : String) : Prop where
  nonempty : name ≠ ""
  oneLine : '\n' ∉ name.toList
  /-- It does not end with a blank. -/
  inked : ∀ c ∈ name.toList.getLast?, isBlank c = false

instance (name : String) : Decidable (IsColumnName name) :=
  decidable_of_iff
    (name ≠ "" ∧ '\n' ∉ name.toList ∧ (name.toList.getLast?.all fun c => !isBlank c) = true)
    ⟨fun h => ⟨h.1, h.2.1, by simpa [Option.all_eq_true] using h.2.2⟩,
      fun h => ⟨h.nonempty, h.oneLine, by simpa [Option.all_eq_true] using h.inked⟩⟩

/-- The names on a line of columns: the line is cut into fields of a width, and the blanks at the
end of each are dropped. -/
def fields (width : Nat) (line : List Char) : List String :=
  (rows (width - 1) line).map fun field => String.ofList (field.rdropWhile (· == ' '))

variable {name : String} {names : List String} {width : Nat}

theorem IsColumnName.exists_concat (h : IsColumnName name) :
    ∃ cs c, name.toList = cs ++ [c] ∧ isBlank c = false := by
  rcases List.eq_nil_or_concat name.toList with hnil | ⟨cs, c, hlast⟩
  · exact absurd (String.toList_eq_nil_iff.mp hnil) h.nonempty
  · rw [List.concat_eq_append] at hlast
    exact ⟨cs, c, hlast, h.inked c (by rw [hlast]; simp)⟩

theorem length_padded (h : name.length ≤ width) : (padded width name.toList).length = width := by
  rw [padded, List.length_append, List.length_replicate, String.length_toList]
  omega

/-- What fills a field up is dropped, and what stands in it is left. -/
theorem rdropWhile_append_replicate {f : Char → Bool} {cs : List Char} {c pad : Char}
    (hc : f c = false) (hpad : f pad = true) (n : Nat) :
    (cs ++ [c] ++ List.replicate n pad).rdropWhile f = cs ++ [c] := by
  induction n with
  | zero =>
    rw [List.replicate_zero, List.append_nil,
      List.rdropWhile_concat_neg _ _ _ (Bool.not_eq_true _ ▸ hc)]
  | succ n ih =>
    rw [List.replicate_succ', ← List.append_assoc, List.rdropWhile_concat_pos _ _ _ hpad, ih]

/-- A name is got back from its field. -/
theorem rdropWhile_padded (h : IsColumnName name) (width : Nat) :
    (padded width name.toList).rdropWhile (· == ' ') = name.toList := by
  obtain ⟨cs, c, hname, hc⟩ := h.exists_concat
  have hink : (c == ' ') = false := by
    rw [beq_eq_false_iff_ne]
    rintro rfl
    cases hc
  rw [padded, hname]
  exact rdropWhile_append_replicate (f := (· == ' ')) hink rfl _

/-- Of a row the last name is not filled up. -/
theorem row_concat (h : IsColumnName name) (width : Nat) (front : List String) :
    row width (front ++ [name]) =
      (front.map fun name => padded width name.toList).flatten ++ name.toList := by
  obtain ⟨cs, c, hname, hc⟩ := h.exists_concat
  rw [row, List.flatMap_append, List.flatMap_singleton, padded, hname, ← List.flatMap_def,
    ← List.append_assoc, ← List.append_assoc]
  exact rdropWhile_append_replicate (f := isBlank) hc rfl _

/-- A row is read back from its line. -/
theorem fields_row (hne : names ≠ []) (hnames : ∀ name ∈ names, IsColumnName name)
    (hwidth : ∀ name ∈ names, name.length < width) : fields width (row width names) = names := by
  rcases List.eq_nil_or_concat' names with hnil | ⟨front, name, rfl⟩
  · exact absurd hnil hne
  have hlast : name ∈ front ++ [name] := List.mem_append_right _ List.mem_cons_self
  have hname : IsColumnName name := hnames name hlast
  have hlt : name.length < width := hwidth name hlast
  have hpieces : ∀ piece ∈ front.map fun name => padded width name.toList,
      piece.length = width - 1 + 1 := by
    rw [List.forall_mem_map]
    intro name' hname'
    have hlt' := hwidth name' (List.mem_append_left _ hname')
    rw [length_padded hlt'.le]
    omega
  have hend : name.toList ≠ [] := fun hnil => hname.nonempty (String.toList_eq_nil_iff.mp hnil)
  have hshort : name.toList.length ≤ width - 1 + 1 := by
    rw [String.length_toList]
    omega
  -- A name that is not filled up is read like one that is.
  have hunfilled : name.toList.rdropWhile (· == ' ') = name.toList := by
    have hnone := rdropWhile_padded hname 0
    rwa [padded, Nat.zero_sub, List.replicate_zero, List.append_nil] at hnone
  rw [fields, row_concat hname, rows_flatten_append hpieces hend hshort, List.map_append,
    List.map_map, List.map_singleton, hunfilled, String.ofList_toList]
  refine congrArg (· ++ [name]) ((List.map_congr_left fun name' hname' => ?_).trans front.map_id)
  have hfield := rdropWhile_padded (hnames name' (List.mem_append_left _ hname')) width
  rw [Function.comp_apply, hfield, String.ofList_toList, id]

theorem length_row (h : IsColumnName name) {front : List String}
    (hfront : ∀ name ∈ front, name.length ≤ width) :
    (row width (front ++ [name])).length = front.length * width + name.length := by
  have hlengths : ((front.map fun name => padded width name.toList).map List.length) =
      List.replicate front.length width := by
    rw [List.map_map, List.eq_replicate_iff, List.length_map, List.forall_mem_map]
    exact ⟨rfl, fun name hname => length_padded (hfront name hname)⟩
  rw [row_concat h, List.length_append, String.length_toList, List.length_flatten, hlengths,
    List.sum_replicate_nat]

theorem lineFeed_not_mem_row (hnames : ∀ name ∈ names, IsColumnName name) (width : Nat) :
    '\n' ∉ row width names := by
  intro hmem
  have hrow : row width names <+: names.flatMap fun name => padded width name.toList :=
    List.rdropWhile_prefix isBlank _
  obtain ⟨name, hname, hpadded⟩ := List.mem_flatMap.mp (hrow.subset hmem)
  rcases List.mem_append.mp hpadded with hletter | hfilled
  · exact (hnames name hname).oneLine hletter
  · cases List.eq_of_mem_replicate hfilled

/-! ### Listings -/

theorem length_le_longest (h : name ∈ names) : name.length ≤ longest names := by
  unfold longest
  induction names with
  | nil => cases h
  | cons first names ih =>
    rw [List.map_cons, List.foldr_cons]
    rcases List.mem_cons.mp h with rfl | h
    · exact le_max_left _ _
    · exact (ih h).trans (le_max_right _ _)

theorem longest_le {n : Nat} (h : ∀ name ∈ names, name.length ≤ n) : longest names ≤ n := by
  unfold longest
  induction names with
  | nil => exact Nat.zero_le n
  | cons first names ih =>
    obtain ⟨hfirst, hnames⟩ := List.forall_mem_cons.mp h
    rw [List.map_cons, List.foldr_cons]
    exact max_le hfirst (ih hnames)

/-- The length of the longest of some names. -/
theorem longest_eq {n : Nat} (h : IsGreatest {m | ∃ name ∈ names, name.length = m} n) :
    longest names = n := by
  obtain ⟨⟨name, hname, rfl⟩, hgreatest⟩ := h
  exact le_antisymm (longest_le fun name' hname' => hgreatest ⟨name', hname', rfl⟩)
    (length_le_longest hname)

/-- A listing has a line for each row. -/
theorem splitOn_columnize (hne : names ≠ []) (hnames : ∀ name ∈ names, IsColumnName name)
    (width : Nat) : (columnize names width).toList.splitOn '\n' =
      (rows (columnCount names width - 1) names).map (row (columnWidth names)) := by
  have htext : (columnize names width).toList = ['\n'].intercalate
      ((rows (columnCount names width - 1) names).map (row (columnWidth names))) := by
    rw [columnize, String.toList_intercalate, List.map_map]
    simp only [Function.comp_def, String.toList_ofList]
    rfl
  rw [htext]
  refine List.splitOn_intercalate '\n' ?_ ?_
  · rw [List.forall_mem_map]
    intro r hr
    exact lineFeed_not_mem_row (fun name hname => hnames name (mem_of_mem_rows hr hname)) _
  · rw [ne_eq, List.map_eq_nil_iff]
    exact rows_ne_nil hne

/-- A row that has no more names than stand side by side is no longer than the width, unless it is a
single name. -/
theorem length_row_le {n : Nat} (hne : names ≠ []) (hnames : ∀ name ∈ names, IsColumnName name)
    (hlongest : ∀ name ∈ names, name.length ≤ n)
    (hlength : names.length ≤ max 1 (width / (n + columnGap))) :
    (row (n + columnGap) names).length ≤ max width n := by
  rcases List.eq_nil_or_concat' names with hnil | ⟨front, name, rfl⟩
  · exact absurd hnil hne
  have hlast : name ∈ front ++ [name] := List.mem_append_right _ List.mem_cons_self
  have hn : name.length ≤ n := hlongest name hlast
  rw [length_row (hnames name hlast) fun name' hname' =>
    (hlongest name' (List.mem_append_left _ hname')).trans (Nat.le_add_right n columnGap)]
  rw [List.length_append, List.length_singleton] at hlength
  rcases le_max_iff.mp hlength with hone | hmany
  · have hnone : front.length = 0 := by omega
    rw [hnone, Nat.zero_mul, Nat.zero_add]
    exact hn.trans (le_max_right _ _)
  · -- All names but the last take up a column each, and there is room for one column more.
    have hroom : (front.length + 1) * (n + columnGap) ≤ width :=
      (Nat.le_div_iff_mul_le (Nat.add_pos_right n (Nat.succ_pos 1))).mp hmany
    rw [Nat.add_mul, Nat.one_mul] at hroom
    refine le_trans ?_ (le_max_left _ _)
    omega

/-- What is read from a listing, line by line, is what was listed, row by row. -/
theorem map_fields_columnize (hne : names ≠ []) (hnames : ∀ name ∈ names, IsColumnName name)
    (width : Nat) :
    ((columnize names width).toList.splitOn '\n').map (fields (columnWidth names)) =
      rows (columnCount names width - 1) names := by
  rw [splitOn_columnize hne hnames, List.map_map]
  refine (List.map_congr_left fun r hr => ?_).trans (List.map_id _)
  refine fields_row (ne_nil_of_mem_rows hr)
    (fun name hname => hnames name (mem_of_mem_rows hr hname)) fun name hname => ?_
  exact (length_le_longest (mem_of_mem_rows hr hname)).trans_lt
    (Nat.lt_add_of_pos_right (Nat.succ_pos 1))

/-- All names are read from a listing, in their order. -/
theorem flatMap_fields_columnize (hne : names ≠ []) (hnames : ∀ name ∈ names, IsColumnName name)
    (width : Nat) :
    ((columnize names width).toList.splitOn '\n').flatMap (fields (columnWidth names)) = names := by
  rw [List.flatMap_def, map_fields_columnize hne hnames, flatten_rows]

/-- Some names that can be read back from columns are: each line of their listing has as many of
them as stand side by side, except for the last, which has at least one, and no line is longer than
the width or the longest name. So two lists of names that are laid out in columns of one width give
different texts. -/
theorem columnize_legible (names : List String) (width n : Nat)
    (hnames : ∀ name ∈ names, IsColumnName name)
    (hlongest : IsGreatest {m | ∃ name ∈ names, name.length = m} n) :
    let c := n + 2
    let k := max 1 (width / c)
    let lines := (columnize names width).toList.splitOn '\n'
    (∀ line ∈ lines, line.length ≤ max width n) ∧
      (∀ line ∈ lines.dropLast, (fields c line).length = k) ∧
      (∀ line ∈ lines.getLast?, fields c line ≠ []) ∧
      lines.flatMap (fields c) = names ∧
      ∀ (names' : List String) (width' : Nat), (∀ name ∈ names', IsColumnName name) →
        IsGreatest {m | ∃ name ∈ names', name.length = m} n →
          columnize names' width' = columnize names width → names' = names := by
  intro c k lines
  have hwidth : ∀ {names : List String},
      IsGreatest {m | ∃ name ∈ names, name.length = m} n → columnWidth names = c :=
    fun h => congrArg (· + columnGap) (longest_eq h)
  have hne : ∀ {names : List String},
      IsGreatest {m | ∃ name ∈ names, name.length = m} n → names ≠ [] := by
    rintro _ ⟨⟨name, hname, -⟩, -⟩
    exact List.ne_nil_of_mem hname
  have hcount : columnCount names width - 1 + 1 = k := by
    rw [columnCount, hwidth hlongest]
    exact Nat.sub_add_cancel (le_max_left _ _)
  have hlines : lines = (rows (columnCount names width - 1) names).map (row c) :=
    hwidth hlongest ▸ splitOn_columnize (hne hlongest) hnames width
  have hread : lines.map (fields c) = rows (columnCount names width - 1) names :=
    hwidth hlongest ▸ map_fields_columnize (hne hlongest) hnames width
  have hnames' : ∀ {names : List String} (width : Nat), (∀ name ∈ names, IsColumnName name) →
      IsGreatest {m | ∃ name ∈ names, name.length = m} n →
        ((columnize names width).toList.splitOn '\n').flatMap (fields c) = names :=
    fun width hnames h => hwidth h ▸ flatMap_fields_columnize (hne h) hnames width
  refine ⟨?fits, ?full, ?last, hnames' width hnames hlongest, fun names' width' h h' heq => ?_⟩
  case fits =>
    rw [hlines, List.forall_mem_map]
    intro r hr
    exact length_row_le (ne_nil_of_mem_rows hr)
      (fun name hname => hnames name (mem_of_mem_rows hr hname))
      (fun name hname => hlongest.2 ⟨name, mem_of_mem_rows hr hname, rfl⟩)
      ((length_le_of_mem_rows hr).trans_eq hcount)
  case full =>
    intro line hline
    have hmem := List.mem_map_of_mem (f := fields c) hline
    rw [List.map_dropLast, hread] at hmem
    exact (length_of_mem_dropLast_rows hmem).trans hcount
  case last =>
    intro line hline
    have hmem := List.mem_map_of_mem (f := fields c) (List.mem_of_getLast? hline)
    rw [hread] at hmem
    exact ne_nil_of_mem_rows hmem
  · rw [← hnames' width' h h', heq, hnames' width hnames hlongest]

/-- Four names stand two by two; blanks within a name, and a letter of two bytes, are read back
too. -/
theorem columnize_legible_two_by_two :
    let names := ["a", "é b", "ccc", "dddd/"]
    let lines := (columnize names 16).toList.splitOn '\n'
    (∀ name ∈ names, IsColumnName name) ∧
      IsGreatest {m | ∃ name ∈ names, name.length = m} 5 ∧
      columnize names 16 = "a      é b\nccc    dddd/" ∧
      (∀ line ∈ lines, line.length ≤ 16) ∧ lines.flatMap (fields 7) = names := by
  intro names lines
  have hnames : ∀ name ∈ names, IsColumnName name := by decide +kernel
  have hbound : ∀ name ∈ names, name.length ≤ 5 := by decide
  have hlongest : IsGreatest {m | ∃ name ∈ names, name.length = m} 5 := by
    refine ⟨⟨"dddd/", by decide, rfl⟩, ?_⟩
    rintro _ ⟨name, hname, rfl⟩
    exact hbound name hname
  obtain ⟨hfits, -, -, hread, -⟩ := columnize_legible names 16 5 hnames hlongest
  exact ⟨hnames, hlongest, by decide +kernel, hfits, hread⟩

end TreeConsole.Text
