import Mathlib.Data.List.Chain
import TreeConsole.Proofs.Command.Language

/-!
# A line taken apart

A line is read into tokens with nothing lost: it is blanks, a chunk, blanks, another chunk, and so
on. The tokens say where in the line they stand, counted in bytes, and each is labelled by its shape
and by whether it touches the one before it. These are worked out apart from each other, a position
by adding up widths, a label from the chunk and what came before it. Here they are shown to agree,
by following the line as it is laid out.

A bare run ends only at a blank or at the end of the line, so that another token can touch a token
only if that one is quoted. And a quote at the front of a bare run has no partner: not in the run,
and not in anything that comes after.

## Main definitions

* `Stands` — at some byte of a text, another one stands
* `Layout` — how a text is made of blanks and chunks, and the tokens of it
* `Parted`, `Labelled` — what tokens have to do with their line, and with each other

## Main results

* `layout_scanFrom` — the tokens that are read are those of the layout
* `Layout.isChain_glued` — a token is not recognized exactly if it touches the one before it
* `scan_partition` — every line is parted into tokens that are labelled as they stand
-/

namespace TreeConsole

open Text
open Phrase (gap)

variable {c x q : Char} {cs before w rest : List Char} {position n : Nat} {glued : Bool}
  {t : Token} {tokens : List Token} {line : String}

/-! ### Places in a text -/

namespace Utf8

@[simp] theorem width_nil : width [] = 0 := rfl

@[simp] theorem width_cons (c : Char) (cs : List Char) :
    width (c :: cs) = c.utf8Size + width cs := rfl

@[simp] theorem width_append (cs ds : List Char) : width (cs ++ ds) = width cs + width ds := by
  induction cs with
  | nil => simp
  | cons c cs ih => simp [ih, Nat.add_assoc]

theorem width_eq_zero_iff : width cs = 0 ↔ cs = [] := by
  cases cs with
  | nil => simp
  | cons c cs => simp [c.utf8Size_pos.ne']

end Utf8

open Utf8 (width)

/-- In a text that begins at a byte position, another one stands at byte `n`. -/
def Stands (position : Nat) (cs : List Char) (n : Nat) (w : List Char) : Prop :=
  ∃ before after, cs = before ++ (w ++ after) ∧ n = position + width before

/-- A character stands at the front of a text, or it stands behind the first character. -/
theorem stands_cons_iff : Stands position (x :: cs) n [c] ↔
    c = x ∧ n = position ∨ Stands (position + x.utf8Size) cs n [c] := by
  constructor
  · rintro ⟨before, after, heq, rfl⟩
    cases before with
    | nil =>
      obtain ⟨rfl, -⟩ := List.cons.inj heq
      exact Or.inl ⟨rfl, rfl⟩
    | cons y before =>
      obtain ⟨rfl, rfl⟩ := List.cons.inj heq
      exact Or.inr ⟨before, after, rfl, by simp [Nat.add_assoc]⟩
  · rintro (⟨rfl, rfl⟩ | ⟨before, after, rfl, rfl⟩)
    · exact ⟨[], cs, rfl, rfl⟩
    · exact ⟨x :: before, after, rfl, by simp [Nat.add_assoc]⟩

theorem not_stands_nil : ¬ Stands position [] n [c] := by
  rintro ⟨before, after, heq, -⟩
  simp at heq

theorem stands_append_iff : Stands position (w ++ rest) n [c] ↔
    Stands position w n [c] ∨ Stands (position + width w) rest n [c] := by
  induction w generalizing position with
  | nil => simp [not_stands_nil]
  | cons x w ih => simp only [List.cons_append, stands_cons_iff, ih, Utf8.width_cons, or_assoc,
      Nat.add_assoc]

/-- Where a character stands lies within the text. -/
theorem Stands.bounds (h : Stands position cs n [c]) : position ≤ n ∧ n < position + width cs := by
  obtain ⟨before, after, rfl, rfl⟩ := h
  have hsize := c.utf8Size_pos
  simp only [Utf8.width_append, Utf8.width_cons, Utf8.width_nil]
  omega

theorem Stands.mem (h : Stands position cs n [c]) : c ∈ cs := by
  obtain ⟨before, after, rfl, -⟩ := h
  simp

/-! ### Chunks and blanks -/

/-- A chunk that is not followed by a blank is quoted. -/
theorem IsChunk.mem_quoted (h : IsChunk w rest) (hx : x ∈ rest.head?) (hink : isBlank x = false) :
    w ∈ Phrase.quoted := by
  cases h with
  | quoted h => exact h
  | bare _ stops _ =>
    rw [stops x hx] at hink
    cases hink

/-- A chunk that is not quoted has no blank in it. -/
theorem IsChunk.ink_of_not_mem_quoted (h : IsChunk w rest) (hw : w ∉ Phrase.quoted) :
    ∀ x ∈ w, isBlank x = false := by
  cases h with
  | quoted h => exact absurd h hw
  | bare ink => exact ink

/-- A quote at the front of a chunk that is not quoted does not come again. -/
theorem IsChunk.not_mem_of_not_mem_quoted (h : IsChunk (q :: w) rest) (hw : q :: w ∉ Phrase.quoted)
    (hq : isQuote q = true) : q ∉ w ++ rest := by
  generalize hcs : q :: w = cs at h
  cases h with
  | quoted h => exact absurd (hcs ▸ h) hw
  | bare _ _ unquoted =>
    obtain ⟨rfl, rfl⟩ := List.cons.inj hcs
    intro hmem
    -- Up to where it comes first, there would be a quoted text in front.
    obtain ⟨body, after, heq, hbody⟩ := List.eq_append_cons_of_mem hmem
    exact unquoted _ (mem_quoted_iff.mpr ⟨q, body, hq, hbody, rfl⟩) ⟨after, by simp [heq]⟩

theorem ofChunk_ne_unrecognized (w : List Char) : Lexeme.ofChunk w ≠ .unrecognized := by
  unfold Lexeme.ofChunk
  split_ifs <;> decide

theorem filter_isInk_of_gap (h : cs ∈ gap) : cs.filter isInk = [] :=
  List.filter_eq_nil_iff.mpr fun x hx => by simp [isInk, h x hx]

/-- Nothing is left of a text without the blanks around it if it is all blank. -/
theorem trimmed_eq_empty_iff : trimmed line = "" ↔ line.toList ∈ gap := by
  have hempty : trimmed line = "" ↔ ∀ x ∈ line.toList.dropWhile isBlank, isBlank x = true := by
    rw [trimmed, String.ofList_eq_empty_iff, trim, trimEnd, trimStart, List.reverse_eq_nil_iff,
      List.dropWhile_eq_nil_iff]
    simp only [List.mem_reverse]
  rw [hempty]
  constructor
  · intro h x hx
    rw [← List.takeWhile_append_dropWhile (p := isBlank) (l := line.toList)] at hx
    rcases List.mem_append.mp hx with hx | hx
    · exact List.mem_takeWhile_imp hx
    · exact h x hx
  · exact fun h x hx => h x ((List.dropWhile_sublist _).mem hx)

/-! ### How a line is laid out -/

/-- A text that begins at a byte position is blank, or it is blanks, a chunk and what comes after
the chunk; these are its tokens. The first of them is glued if the text begins right behind a chunk
and is not parted from it by a blank. -/
inductive Layout : Nat → Bool → List Char → List Token → Prop
  | blank {position : Nat} {glued : Bool} {cs : List Char} (h : cs ∈ gap) :
      Layout position glued cs []
  | chunk {position : Nat} {glued : Bool} {before w rest : List Char} {tokens : List Token}
      (hbefore : before ∈ gap) (hchunk : IsChunk w rest)
      (tail : Layout (position + width before + width w) true rest tokens) :
      Layout position glued (before ++ (w ++ rest))
        ({ lexeme := if glued && before.isEmpty then .unrecognized else .ofChunk w
           text := String.ofList w
           start := position + width before } :: tokens)

/-- The tokens that are read are those of the layout. -/
theorem layout_scanFrom (position : Nat) (glued : Bool) (cs : List Char) :
    Layout position glued cs (scanFrom position glued cs) := by
  rcases gap_or_chunk cs with hgap | ⟨w, before, hbefore, rest, hchunk, hcs⟩
  · rw [scanFrom_of_gap hgap]
    exact .blank hgap
  · rw [hcs, scanFrom_gap_append hbefore, scanFrom_of_isChunk hchunk]
    exact .chunk hbefore hchunk (layout_scanFrom _ _ rest)
termination_by cs.length
decreasing_by
  obtain ⟨c, w, rfl, -⟩ := hchunk.exists_cons
  simp [hcs]
  omega

namespace Layout

/-- Every token is a chunk of the text, and if it is recognized it has the shape of that chunk. -/
theorem exists_chunk (h : Layout position glued cs tokens) (ht : t ∈ tokens) :
    ∃ before w rest, IsChunk w rest ∧ cs = before ++ (w ++ rest) ∧ t.text = String.ofList w ∧
      t.start = position + width before ∧
      (t.lexeme = .unrecognized ∨ t.lexeme = .ofChunk w) := by
  induction h with
  | blank => cases ht
  | @chunk position glued before w rest tokens hbefore hchunk tail ih =>
    rcases List.mem_cons.mp ht with rfl | ht
    · refine ⟨before, w, rest, hchunk, rfl, rfl, rfl, ?_⟩
      dsimp only
      split
      · exact Or.inl rfl
      · exact Or.inr rfl
    · obtain ⟨before', w', rest', hchunk', rfl, htext, hstart, hlexeme⟩ := ih ht
      exact ⟨before ++ (w ++ before'), w', rest', hchunk', by simp, htext,
        by simp [hstart, Nat.add_assoc], hlexeme⟩

theorem le_start (h : Layout position glued cs tokens) (ht : t ∈ tokens) : position ≤ t.start := by
  obtain ⟨before, _, _, _, _, _, hstart, _⟩ := h.exists_chunk ht
  omega

theorem pairwise (h : Layout position glued cs tokens) :
    tokens.Pairwise fun s t => s.stop ≤ t.start := by
  induction h with
  | blank => exact .nil
  | chunk _ _ tail ih =>
    refine List.pairwise_cons.mpr ⟨fun t ht => ?_, ih⟩
    simpa [Token.stop] using tail.le_start ht

/-- Whatever stands in the text is in a token, or it is blank. -/
theorem covers (h : Layout position glued cs tokens) (hc : Stands position cs n [c]) :
    (∃ t ∈ tokens, t.start ≤ n ∧ n < t.stop) ∨ isBlank c = true := by
  induction h with
  | blank h => exact Or.inr (h c hc.mem)
  | chunk hbefore hchunk tail ih =>
    rcases stands_append_iff.mp hc with hc | hc
    · exact Or.inr (hbefore c hc.mem)
    rcases stands_append_iff.mp hc with hc | hc
    · refine Or.inl ⟨_, List.mem_cons_self, ?_⟩
      simpa [Token.stop] using hc.bounds
    · exact (ih hc).imp_left fun ⟨t, ht, hn⟩ => ⟨t, List.mem_cons_of_mem _ ht, hn⟩

theorem filter_isInk (h : Layout position glued cs tokens) :
    cs.filter isInk = tokens.flatMap fun t => t.text.toList.filter isInk := by
  induction h with
  | blank h => exact filter_isInk_of_gap h
  | chunk hbefore _ _ ih => simp [filter_isInk_of_gap hbefore, ih]

theorem eq_nil_iff (h : Layout position glued cs tokens) : tokens = [] ↔ cs ∈ gap := by
  cases h with
  | blank h => exact iff_of_true rfl h
  | @chunk _ _ before w rest _ _ hchunk _ =>
    obtain ⟨c, w, rfl, hc⟩ := hchunk.exists_cons
    refine iff_of_false (List.cons_ne_nil _ _) fun hgap => ?_
    rw [hgap c (by simp)] at hc
    cases hc

/-- The first token is not recognized exactly if the text is right behind a chunk and the token at
its front. -/
theorem head_unrecognized_iff (h : Layout position glued cs tokens) (ht : t ∈ tokens.head?) :
    t.lexeme = .unrecognized ↔ glued = true ∧ t.start = position := by
  cases h with
  | blank => cases ht
  | @chunk _ _ before w _ _ _ _ _ =>
    cases ht
    have hempty : width before = 0 ↔ before.isEmpty = true := by
      rw [Utf8.width_eq_zero_iff, List.isEmpty_iff]
    by_cases hglued : (glued && before.isEmpty) = true
    · simp_all
    · simp_all [ofChunk_ne_unrecognized]

/-- A text whose first token is at its front begins with a character that is not blank. -/
theorem head_ink (h : Layout position glued cs tokens) (ht : t ∈ tokens.head?)
    (hstart : t.start = position) : ∃ x ∈ cs.head?, isBlank x = false := by
  cases h with
  | blank => cases ht
  | @chunk _ _ before w rest _ _ hchunk _ =>
    cases ht
    have hbefore : before = [] := Utf8.width_eq_zero_iff.mp (Nat.add_eq_left.mp hstart)
    obtain ⟨c, w, rfl, hc⟩ := hchunk.exists_cons
    exact ⟨c, by simp [hbefore], hc⟩

/-- A token is not recognized exactly if it begins where the one before it ends. -/
theorem isChain_glued (h : Layout position glued cs tokens) :
    tokens.IsChain fun s t => t.lexeme = .unrecognized ↔ s.stop = t.start := by
  induction h with
  | blank => exact .nil
  | chunk _ _ tail ih =>
    refine List.isChain_cons.mpr ⟨fun t ht => ?_, ih⟩
    rw [tail.head_unrecognized_iff ht]
    simp [Token.stop, eq_comm]

/-- Another token begins where a token ends only behind a quoted text. -/
theorem isChain_quoted (h : Layout position glued cs tokens) :
    tokens.IsChain fun s t => s.stop = t.start → s.text.toList ∈ Phrase.quoted := by
  induction h with
  | blank => exact .nil
  | chunk _ hchunk tail ih =>
    refine List.isChain_cons.mpr ⟨fun t ht hstop => ?_, ih⟩
    -- What comes after the chunk begins with the next token, so it is not a blank that ends it.
    rw [Token.stop, String.toList_ofList] at hstop
    obtain ⟨x, hx, hink⟩ := tail.head_ink ht hstop.symm
    rw [String.toList_ofList]
    exact hchunk.mem_quoted hx hink

end Layout

/-! ### Tokens and their line -/

/-- A token that is not glued has the shape of its text. -/
theorem lexeme_of_mem_scanFrom (h : t ∈ scanFrom position glued cs) :
    t.lexeme = .unrecognized ∨ t.lexeme = .ofChunk t.text.toList := by
  obtain ⟨before, w, rest, -, -, htext, -, hlexeme⟩ :=
    (layout_scanFrom position glued cs).exists_chunk h
  rwa [htext, String.toList_ofList]

/-- Tokens are the parts of a line that are not blank. -/
structure Parted (line : String) (tokens : List Token) : Prop where
  /-- A token is what stands in the line between two bytes, and it is not empty. -/
  stands : ∀ t ∈ tokens, t.start < t.stop ∧ Stands 0 line.toList t.start t.text.toList
  /-- Tokens come in order and have nothing in common. -/
  apart : tokens.Pairwise fun s t => s.stop ≤ t.start
  /-- A character that is in no token is blank. -/
  between : ∀ n c, Stands 0 line.toList n [c] →
    (∀ t ∈ tokens, ¬ (t.start ≤ n ∧ n < t.stop)) → isBlank c = true
  /-- The line and its tokens have the same characters that are not blank, in the same order. -/
  ink : line.toList.filter isInk = tokens.flatMap fun t => t.text.toList.filter isInk
  /-- There are no tokens exactly if there is nothing but blanks. -/
  empty : tokens = [] ↔ trimmed line = ""

/-- Tokens are labelled by their shape and by how they stand in the line. -/
structure Labelled (line : String) (tokens : List Token) : Prop where
  /-- The first token is recognized. -/
  first : ∀ t ∈ tokens.head?, t.lexeme ≠ .unrecognized
  /-- Any other is not recognized exactly if it begins where the one before it ends. -/
  glued : tokens.IsChain fun s t => t.lexeme = .unrecognized ↔ s.stop = t.start
  /-- If it does, the one before it is quoted. -/
  behind : tokens.IsChain fun s t => s.stop = t.start → s.text.toList ∈ Phrase.quoted
  quoted : ∀ t ∈ tokens, t.lexeme = .quoted → t.text.toList ∈ Phrase.quoted
  path : ∀ t ∈ tokens, t.lexeme = .path → t.text.toList ∈ Phrase.path
  word : ∀ t ∈ tokens, t.lexeme = .word → ∀ x ∈ t.text.toList, isBlank x = false
  /-- A quote at the front of a word does not stand anywhere after it in the line. -/
  unclosed : ∀ t ∈ tokens, t.lexeme = .word → ∀ q ∈ t.text.toList.head?, isQuote q = true →
    ∀ n, t.start < n → ¬ Stands 0 line.toList n [q]

theorem parted_scan (line : String) : Parted line (scan line) := by
  have hlayout := layout_scanFrom 0 false line.toList
  refine ⟨fun t ht => ?_, hlayout.pairwise, fun n c hc hout => ?_, hlayout.filter_isInk,
    hlayout.eq_nil_iff.trans trimmed_eq_empty_iff.symm⟩
  · obtain ⟨before, w, rest, hchunk, hcs, htext, hstart, -⟩ := hlayout.exists_chunk ht
    obtain ⟨c, w, rfl, -⟩ := hchunk.exists_cons
    rw [Token.stop, htext, String.toList_ofList]
    refine ⟨?_, before, rest, hcs, hstart⟩
    have hsize := c.utf8Size_pos
    rw [Utf8.width_cons]
    omega
  · rcases hlayout.covers hc with ⟨t, ht, hn⟩ | hblank
    · exact absurd hn (hout t ht)
    · exact hblank

/-- A word is no quoted text, and it was read as a chunk. -/
theorem exists_chunk_of_word (ht : t ∈ scan line) (hword : t.lexeme = .word) :
    ∃ before rest, IsChunk t.text.toList rest ∧ t.text.toList ∉ Phrase.quoted ∧
      line.toList = before ++ (t.text.toList ++ rest) ∧ t.start = width before := by
  obtain ⟨before, w, rest, hchunk, hcs, htext, hstart, hlexeme⟩ :=
    (layout_scanFrom 0 false line.toList).exists_chunk ht
  rw [htext, String.toList_ofList]
  refine ⟨before, rest, hchunk, fun hquoted => ?_, hcs, by simpa using hstart⟩
  rw [hword, ofChunk_eq_quoted_iff.mpr hquoted] at hlexeme
  rcases hlexeme with h | h <;> cases h

theorem labelled_scan (line : String) : Labelled line (scan line) := by
  have hlayout := layout_scanFrom 0 false line.toList
  refine ⟨fun t ht hlexeme => ?_, hlayout.isChain_glued, hlayout.isChain_quoted,
    fun t ht hquoted => ?_, fun t ht hpath => ?_, fun t ht hword => ?_,
    fun t ht hword q hq hquote n hn hstands => ?_⟩
  · exact Bool.false_ne_true ((hlayout.head_unrecognized_iff ht).mp hlexeme).1
  · have hshape := (lexeme_of_mem_scanFrom ht).resolve_left (by simp [hquoted])
    exact ofChunk_eq_quoted_iff.mp (hshape.symm.trans hquoted)
  · have hshape := (lexeme_of_mem_scanFrom ht).resolve_left (by simp [hpath])
    exact ofChunk_eq_path_iff.mp (hshape.symm.trans hpath)
  · obtain ⟨-, rest, hchunk, hbare, -⟩ := exists_chunk_of_word ht hword
    exact hchunk.ink_of_not_mem_quoted hbare
  · obtain ⟨before, rest, hchunk, hbare, hcs, hstart⟩ := exists_chunk_of_word ht hword
    obtain ⟨w, htext⟩ : ∃ w, t.text.toList = q :: w := List.head?_eq_some_iff.mp hq
    rw [htext] at hchunk hbare hcs
    rw [hcs, stands_append_iff, List.cons_append, stands_cons_iff] at hstands
    -- The quote stands before the word, at its front, or behind that.
    rcases hstands with h | ⟨-, h⟩ | h
    · have hbounds := h.bounds
      omega
    · omega
    · exact hchunk.not_mem_of_not_mem_quoted hbare hquote h.mem

/-- Every line is parted into its tokens, with nothing but blanks between them, and every token is
labelled as it stands. -/
theorem scan_partition (line : String) : Parted line (scan line) ∧ Labelled line (scan line) :=
  ⟨parted_scan line, labelled_scan line⟩

-- A quoted text ends at its quote, also where no blank follows; the last quote opens nothing.
example : (scan "'x y'z 'w").map (fun t => (t.lexeme, t.text, t.start)) =
    [(.quoted, "'x y'", 0), (.unrecognized, "z", 5), (.word, "'w", 7)] := by decide +kernel

end TreeConsole
