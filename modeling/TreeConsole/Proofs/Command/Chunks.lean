import Mathlib.Computability.Language
import Mathlib.Data.List.TakeWhile
import TreeConsole.Token

/-!
# Where chunks end

A line falls into chunks by one rule: where a quoted text begins, the chunk is that text, blanks and
all; anywhere else it goes on to the next blank. The rule is stated here of the text alone, with no
word on how it is read, and reading follows it. In particular a quote that is never closed, one in
the middle of a word, and one of the other sort within a quoted text end nothing.

## Main definitions

* `Phrase.gap`, `Phrase.parting`, `Phrase.path`, `Phrase.quoted` — what lines are made of
* `IsChunk` — a text begins with a chunk
* `FirstChunk` — the first chunk of a line

## Main results

* `chunk_of_isChunk`, `isChunk_chunk` — reading cuts off what the rule says
* `scanFrom_of_isChunk`, `gap_or_chunk` — a line is blanks, or it is blanks, a chunk and the rest
-/

namespace TreeConsole

open Text

/-! ### What lines are made of -/

namespace Phrase

/-- Any number of blanks. -/
def gap : Language Char := {cs | ∀ c ∈ cs, isBlank c = true}

/-- One blank or more. -/
def parting : Language Char := {cs | cs ≠ [] ∧ ∀ c ∈ cs, isBlank c = true}

/-- A slash, then anything without a blank. -/
def path : Language Char := {cs | ∃ rest, cs = '/' :: rest ∧ ∀ c ∈ rest, isBlank c = false}

/-- A text between two quotes of one sort that does not have that quote in it. -/
def quoted : Language Char :=
  {cs | ∃ q ∈ ['\'', '"'], ∃ body, q ∉ body ∧ cs = q :: (body ++ [q])}

end Phrase

/-- A text begins with a chunk, and this is the rest of it. -/
inductive IsChunk : List Char → List Char → Prop
  | quoted {w rest : List Char} (h : w ∈ Phrase.quoted) : IsChunk w rest
  | bare {c : Char} {w rest : List Char} (ink : ∀ x ∈ c :: w, isBlank x = false)
    (stops : ∀ x ∈ rest.head?, isBlank x = true)
    (unquoted : ∀ q ∈ Phrase.quoted, ¬ q <+: c :: w ++ rest) : IsChunk (c :: w) rest

/-- The first chunk of a line comes after nothing but blanks. -/
def FirstChunk (cs w : List Char) : Prop :=
  ∃ before ∈ Phrase.gap, ∃ rest, IsChunk w rest ∧ cs = before ++ (w ++ rest)

variable {c q : Char} {cs w before body rest : List Char} {position : Nat} {glued : Bool}

/-! ### Quoted texts -/

theorem isQuote_iff : isQuote q = true ↔ q ∈ ['\'', '"'] := by
  simp [isQuote]

theorem isBlank_of_isQuote (h : isQuote q = true) : isBlank q = false := by
  rcases List.mem_pair.mp (isQuote_iff.mp h) with rfl | rfl <;> decide

/-- A text is closed by the first quote that comes. -/
theorem closing_eq_some_iff :
    closing q cs = some (body, rest) ↔ q ∉ body ∧ cs = body ++ q :: rest := by
  constructor
  · intro h
    refine ⟨fun hq => ?_, closing_eq_some h⟩
    unfold closing at h
    split at h
    · cases h
    · cases h
      simpa using List.mem_takeWhile_imp hq
  · rintro ⟨hq, rfl⟩
    have hne : ∀ x ∈ body, (x != q) = true := fun x hx =>
      bne_iff_ne.mpr fun heq => hq (heq ▸ hx)
    simp [closing, List.dropWhile_append_of_pos hne, List.takeWhile_append_of_pos hne]

theorem mem_quoted_iff : w ∈ Phrase.quoted ↔
    ∃ q body, isQuote q = true ∧ q ∉ body ∧ w = q :: (body ++ [q]) := by
  constructor
  · rintro ⟨q, hq, body, hbody, rfl⟩
    exact ⟨q, body, isQuote_iff.mpr hq, hbody, rfl⟩
  · rintro ⟨q, body, hq, hbody, rfl⟩
    exact ⟨q, isQuote_iff.mp hq, body, hbody, rfl⟩

/-- A text that begins with a quoted text is cut behind it. -/
theorem chunk_of_quoted (hq : isQuote q = true) (hbody : q ∉ body) (rest : List Char) :
    chunk q (body ++ q :: rest) = (q :: (body ++ [q]), rest) := by
  have hclosing : closing q (body ++ q :: rest) = some (body, rest) :=
    closing_eq_some_iff.mpr ⟨hbody, rfl⟩
  simp only [chunk, if_pos hq, hclosing]

/-! ### Reading cuts off chunks -/

/-- What reading cuts off a text is a chunk. -/
theorem isChunk_chunk (hc : isBlank c = false) : IsChunk (chunk c cs).1 (chunk c cs).2 := by
  cases hclosing : (if isQuote c then closing c cs else none) with
  | some r =>
    simp only [chunk, hclosing]
    obtain ⟨hquote, hr⟩ := Option.ite_none_right_eq_some.mp hclosing
    have hbody := (closing_eq_some_iff.mp hr).1
    exact .quoted (mem_quoted_iff.mpr ⟨c, r.1, hquote, hbody, rfl⟩)
  | none =>
    simp only [chunk, hclosing]
    refine .bare (fun x hx => ?_) (fun x hx => ?_) fun w hw hle => ?_
    · rcases List.mem_cons.mp hx with rfl | hx
      · exact hc
      · simpa [isInk] using List.mem_takeWhile_imp hx
    · have hstop := List.head?_dropWhile_not isInk cs
      rw [Option.mem_def.mp hx] at hstop
      simpa [isInk] using hstop
    · -- A quoted text at the front would have been read as one.
      obtain ⟨q, body, hq, hbody, rfl⟩ := mem_quoted_iff.mp hw
      obtain ⟨rest, hrest⟩ := hle
      simp only [List.cons_append, List.takeWhile_append_dropWhile, List.cons.injEq,
        List.append_assoc, List.nil_append] at hrest
      obtain ⟨rfl, rfl⟩ := hrest
      rw [if_pos hq, closing_eq_some_iff.mpr ⟨hbody, rfl⟩] at hclosing
      cases hclosing

/-- A chunk at the front of a text is what reading cuts off. -/
theorem chunk_of_isChunk (h : IsChunk (c :: w) rest) : chunk c (w ++ rest) = (c :: w, rest) := by
  generalize hw : c :: w = w' at h
  cases h with
  | quoted h =>
    obtain ⟨q, body, hq, hbody, rfl⟩ := mem_quoted_iff.mp h
    obtain ⟨rfl, rfl⟩ := List.cons.inj hw
    simpa using chunk_of_quoted hq hbody rest
  | bare ink stops unquoted =>
    obtain ⟨rfl, rfl⟩ := List.cons.inj hw
    have hopen : (if isQuote c then closing c (w ++ rest) else none) = none := by
      rw [Option.eq_none_iff_forall_ne_some]
      intro r hr
      obtain ⟨hquote, hclosing⟩ := Option.ite_none_right_eq_some.mp hr
      obtain ⟨hbody, hrest⟩ := closing_eq_some_iff.mp hclosing
      refine unquoted _ (mem_quoted_iff.mpr ⟨c, r.1, hquote, hbody, rfl⟩) ⟨r.2, ?_⟩
      simp [hrest]
    have hink : ∀ x ∈ w, isInk x = true := fun x hx => by
      simpa [isInk] using ink x (List.mem_cons_of_mem c hx)
    have hstops : rest.takeWhile isInk = [] ∧ rest.dropWhile isInk = rest := by
      cases rest with
      | nil => exact ⟨rfl, rfl⟩
      | cons x rest => simp [isInk, stops x rfl]
    simp [chunk, hopen, List.takeWhile_append_of_pos hink, List.dropWhile_append_of_pos hink,
      hstops.1, hstops.2]

/-- A run of characters that are not blank is a chunk, unless a quote is in front. -/
theorem isChunk_of_ink (hw : w ≠ []) (ink : ∀ x ∈ w, isBlank x = false)
    (hquote : ∀ x ∈ w.head?, isQuote x = false) (stops : ∀ x ∈ rest.head?, isBlank x = true) :
    IsChunk w rest := by
  obtain ⟨c, w, rfl⟩ := List.exists_cons_of_ne_nil hw
  refine .bare ink stops fun q hq hle => ?_
  obtain ⟨quote, body, hopen, -, rfl⟩ := mem_quoted_iff.mp hq
  obtain ⟨rfl, -⟩ := List.cons_prefix_cons.mp hle
  rw [hquote quote rfl] at hopen
  cases hopen

/-- A chunk begins with a character that is not blank. -/
theorem IsChunk.exists_cons (h : IsChunk w rest) : ∃ c w', w = c :: w' ∧ isBlank c = false := by
  cases h with
  | quoted h =>
    obtain ⟨q, body, hq, -, rfl⟩ := mem_quoted_iff.mp h
    exact ⟨q, _, rfl, isBlank_of_isQuote hq⟩
  | bare ink => exact ⟨_, _, rfl, ink _ List.mem_cons_self⟩

/-! ### Lines -/

/-- A line has nothing but blanks, or it has a first chunk. -/
theorem gap_or_chunk (cs : List Char) : cs ∈ Phrase.gap ∨ ∃ w, FirstChunk cs w := by
  induction cs with
  | nil => exact Or.inl fun c hc => absurd hc List.not_mem_nil
  | cons c cs ih =>
    cases hc : isBlank c with
    | true =>
      rcases ih with hgap | ⟨w, before, hbefore, rest, hchunk, rfl⟩
      · exact Or.inl (List.forall_mem_cons.mpr ⟨hc, hgap⟩)
      · exact Or.inr ⟨w, c :: before, List.forall_mem_cons.mpr ⟨hc, hbefore⟩, rest, hchunk, rfl⟩
    | false =>
      have hempty : [] ∈ Phrase.gap := fun x hx => absurd hx List.not_mem_nil
      exact Or.inr ⟨_, [], hempty, _, isChunk_chunk hc, (chunk_append c cs).symm⟩

theorem scanFrom_gap_append (hbefore : before ∈ Phrase.gap) (cs : List Char) :
    scanFrom position glued (before ++ cs) =
      scanFrom (position + Utf8.width before) (glued && before.isEmpty) cs := by
  induction before generalizing position glued with
  | nil => simp [Utf8.width]
  | cons c before ih =>
    obtain ⟨hc, hbefore⟩ := List.forall_mem_cons.mp hbefore
    rw [List.cons_append, scanFrom_cons, if_pos hc, ih hbefore]
    simp [Utf8.width, Nat.add_assoc]

theorem scanFrom_of_gap (h : cs ∈ Phrase.gap) : scanFrom position glued cs = [] := by
  rw [← List.append_nil cs, scanFrom_gap_append h, scanFrom_nil]

/-- A chunk at the front of a line is its first token. -/
theorem scanFrom_of_isChunk (h : IsChunk w rest) :
    scanFrom position glued (w ++ rest) =
      { lexeme := if glued then .unrecognized else .ofChunk w
        text := String.ofList w
        start := position } :: scanFrom (position + Utf8.width w) true rest := by
  obtain ⟨c, w, rfl, hc⟩ := h.exists_cons
  rw [List.cons_append, scanFrom_cons, chunk_of_isChunk h, hc]
  rfl

/-- A line has no more than one first chunk. -/
theorem FirstChunk.unique {w' : List Char} (h : FirstChunk cs w) (h' : FirstChunk cs w') :
    w = w' := by
  obtain ⟨before, hbefore, rest, hchunk, rfl⟩ := h
  obtain ⟨before', hbefore', rest', hchunk', heq⟩ := h'
  have hscan := congrArg (scanFrom 0 false) heq
  rw [scanFrom_gap_append hbefore, scanFrom_of_isChunk hchunk, scanFrom_gap_append hbefore',
    scanFrom_of_isChunk hchunk'] at hscan
  have htext := congrArg Token.text (List.cons.inj hscan).1
  exact String.ofList_injective htext

end TreeConsole
