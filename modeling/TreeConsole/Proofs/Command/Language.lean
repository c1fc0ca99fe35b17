import TreeConsole.Proofs.Command.Chunks
import TreeConsole.Proofs.Command.Line

/-!
# The language of commands

Which texts are commands can be said without reading them: a command word, and behind it, parted by
blanks, the arguments that the command takes. This module gives that language as a set of texts,
command by command, and shows that the lines which are found to be of the right form are exactly
those in it. What becomes of any other line hangs on its first chunk alone.

The work is done once for all lists of argument positions. A text fills a list of positions when
what is in front of the first blank fits the first of them and the rest fills the others; the
language of a command is the one of its positions, put behind its word.

## Main definitions

* `Keyword.phrases` — the texts that are a command
* `Slot.phrases` — the texts that fill argument positions

## Main results

* `fills_scanFrom_iff` — the arguments that are accepted are those of the language
* `validate_language` — which lines are of the right form, and what is said of the others
-/

namespace TreeConsole

open Text (isBlank)
open Phrase

variable {c : Char} {cs w before rest : List Char} {position : Nat} {line : String}

/-! ### Texts of a kind -/

/-- A command word. -/
def Phrase.keyword : Language Char := {cs | ∃ k : Keyword, cs = k.word.toList}

/-- An admin word. -/
def Phrase.adminWord : Language Char := {cs | ∃ word ∈ adminWords, cs = word.toList}

/-- The texts of a kind. -/
def TokenKind.texts : TokenKind → Language Char
  | .command => Phrase.keyword
  | .path => Phrase.path
  | .quotedString => Phrase.quoted
  | .adminWord => Phrase.adminWord

theorem isQuotedShape_iff : isQuotedShape w = true ↔ w ∈ Phrase.quoted := by
  rw [mem_quoted_iff]
  cases w with
  | nil => simp [isQuotedShape]
  | cons q cs =>
    rw [isQuotedShape, Bool.and_eq_true, Option.any_eq_true]
    constructor
    · rintro ⟨hq, ⟨body, rest⟩, hclosing, hrest⟩
      obtain ⟨hbody, rfl⟩ := closing_eq_some_iff.mp hclosing
      have hend : rest = [] := List.isEmpty_iff.mp hrest
      exact ⟨q, body, hq, hbody, by rw [hend]⟩
    · rintro ⟨q, body, hq, hbody, heq⟩
      obtain ⟨rfl, rfl⟩ := List.cons.inj heq
      exact ⟨hq, (body, []), closing_eq_some_iff.mpr ⟨hbody, rfl⟩, rfl⟩

theorem isPathShape_iff : isPathShape w = true ↔ w ∈ Phrase.path := by
  unfold isPathShape
  split
  · rename_i cs
    simp only [List.all_eq_true, Text.isInk, Bool.not_eq_true']
    constructor
    · exact fun h => ⟨cs, rfl, h⟩
    · rintro ⟨_, heq, h⟩
      obtain ⟨-, rfl⟩ := List.cons.inj heq
      exact h
  · rename_i hslash
    refine ⟨fun h => absurd h Bool.false_ne_true, ?_⟩
    rintro ⟨cs, rfl, -⟩
    exact absurd rfl (hslash cs)

theorem ofChunk_eq_quoted_iff : Lexeme.ofChunk w = .quoted ↔ w ∈ Phrase.quoted := by
  rw [← isQuotedShape_iff, Lexeme.ofChunk]
  split_ifs <;> simp_all

theorem ofChunk_eq_path_iff : Lexeme.ofChunk w = .path ↔ w ∈ Phrase.path := by
  have hdisjoint : isPathShape w = true → isQuotedShape w = false := by
    intro h
    obtain ⟨rest, rfl, -⟩ := isPathShape_iff.mp h
    rfl
  rw [← isPathShape_iff, Lexeme.ofChunk]
  split_ifs <;> simp_all

/-- Words are neither quoted nor paths. -/
theorem ofChunk_of_word {s : String} (h : (∃ k : Keyword, s = k.word) ∨ s ∈ adminWords) :
    Lexeme.ofChunk s.toList = .word := by
  rcases h with ⟨k, rfl⟩ | h
  · cases k <;> decide
  · revert s
    decide

theorem word_ink {s : String} (h : (∃ k : Keyword, s = k.word) ∨ s ∈ adminWords) :
    s.toList ≠ [] ∧ (∀ x ∈ s.toList, isBlank x = false) ∧
      ∀ x ∈ s.toList.head?, isQuote x = false := by
  have hink : s.toList ≠ [] ∧ s.toList.all (fun x => !isBlank x) = true ∧
      s.toList.head?.all (fun x => !isQuote x) = true := by
    rcases h with ⟨k, rfl⟩ | h
    · cases k <;> decide
    · revert s
      decide
  simpa [Option.all_eq_true] using hink

/-- A chunk can stand where a kind is asked for when it is a text of that kind. -/
theorem isKind_iff {kind : TokenKind} :
    (Token.mk (.ofChunk w) (String.ofList w) position).isKind kind = true ↔ w ∈ kind.texts := by
  cases kind with
  | path =>
    refine Iff.trans ?_ ofChunk_eq_path_iff
    cases h : Lexeme.ofChunk w <;> simp [Token.isKind]
  | quotedString =>
    refine Iff.trans ?_ ofChunk_eq_quoted_iff
    cases h : Lexeme.ofChunk w <;> simp [Token.isKind]
  | command =>
    constructor
    · intro h
      cases hl : Lexeme.ofChunk w <;> rw [hl] at h <;> try cases h
      obtain ⟨k, hk⟩ := Option.isSome_iff_exists.mp h
      exact ⟨k, by rw [← Keyword.ofWord?_eq_some_iff.mp hk, String.toList_ofList]⟩
    · rintro ⟨k, rfl⟩
      rw [ofChunk_of_word (Or.inl ⟨k, rfl⟩), String.ofList_toList]
      exact Option.isSome_iff_exists.mpr ⟨k, Keyword.ofWord?_word k⟩
  | adminWord =>
    constructor
    · intro h
      cases hl : Lexeme.ofChunk w <;> rw [hl] at h <;> try cases h
      exact ⟨_, List.contains_iff_mem.mp h, String.toList_ofList.symm⟩
    · rintro ⟨word, hword, rfl⟩
      rw [ofChunk_of_word (Or.inr hword), String.ofList_toList]
      exact List.contains_iff_mem.mpr hword

/-- A text of a kind is a chunk where it is followed by a blank or by nothing. -/
theorem isChunk_of_mem_texts {kind : TokenKind} (h : w ∈ kind.texts)
    (stops : ∀ x ∈ rest.head?, isBlank x = true) : IsChunk w rest := by
  cases kind with
  | quotedString => exact .quoted h
  | path =>
    obtain ⟨cs, rfl, hcs⟩ := h
    have ink : ∀ x ∈ '/' :: cs, isBlank x = false := List.forall_mem_cons.mpr ⟨rfl, hcs⟩
    exact isChunk_of_ink (List.cons_ne_nil _ _) ink (fun x hx => by cases hx; rfl) stops
  | command =>
    obtain ⟨k, rfl⟩ := h
    obtain ⟨hne, ink, hquote⟩ := word_ink (Or.inl ⟨k, rfl⟩)
    exact isChunk_of_ink hne ink hquote stops
  | adminWord =>
    obtain ⟨word, hword, rfl⟩ := h
    obtain ⟨hne, ink, hquote⟩ := word_ink (Or.inr hword)
    exact isChunk_of_ink hne ink hquote stops

/-! ### Texts that fill argument positions -/

/-- The texts that fill argument positions, behind a command word. -/
def Slot.phrases : List Slot → Language Char
  | [] => gap
  | slot :: slots =>
    parting * slot.kind.texts * Slot.phrases slots + if slot.optional then Slot.phrases slots else 0

theorem Slot.stops_of_mem_phrases {slots : List Slot} (h : cs ∈ Slot.phrases slots) :
    ∀ x ∈ cs.head?, isBlank x = true := by
  induction slots with
  | nil => exact fun x hx => h x (List.mem_of_mem_head? hx)
  | cons slot slots ih =>
    rcases (Language.mem_add _ _ _).mp h with h | h
    · obtain ⟨_, ⟨before, hbefore, w, -, rfl⟩, rest, -, rfl⟩ := h
      obtain ⟨c, before, rfl⟩ := List.exists_cons_of_ne_nil hbefore.1
      intro x hx
      cases hx
      exact hbefore.2 c List.mem_cons_self
    · split_ifs at h
      · exact ih h
      · exact absurd h (Language.notMem_zero cs)

/-- What is behind a chunk fills argument positions when it is a text that fills them. -/
theorem fills_scanFrom_iff {slots : List Slot} :
    fills slots (scanFrom position true cs) = true ↔ cs ∈ Slot.phrases slots := by
  induction slots generalizing position cs with
  | nil =>
    rw [fills, List.isEmpty_iff]
    refine ⟨fun h => ?_, scanFrom_of_gap⟩
    rcases gap_or_chunk cs with hgap | ⟨w, before, hbefore, rest, hchunk, rfl⟩
    · exact hgap
    · rw [scanFrom_gap_append hbefore, scanFrom_of_isChunk hchunk] at h
      cases h
  | cons slot slots ih =>
    unfold fills
    rw [Bool.or_eq_true, Slot.phrases, Language.mem_add]
    refine or_congr ?_ ?_
    · constructor
      · intro h
        rcases gap_or_chunk cs with hgap | ⟨w, before, hbefore, rest, hchunk, rfl⟩
        · rw [scanFrom_of_gap hgap] at h
          cases h
        · rw [scanFrom_gap_append hbefore, scanFrom_of_isChunk hchunk] at h
          obtain ⟨hkind, hrest⟩ := Bool.and_eq_true_iff.mp h
          -- Without a blank in front the chunk would be glued to the one before it.
          have hparting : before ∈ parting := by
            refine ⟨?_, hbefore⟩
            rintro rfl
            cases hkind
          have hglued : (true && before.isEmpty) = false := by
            simpa using hparting.1
          rw [hglued] at hkind
          rw [← List.append_assoc]
          exact Language.append_mem_mul
            (Language.append_mem_mul hparting (isKind_iff.mp hkind)) (ih.mp hrest)
      · intro h
        obtain ⟨front, hfront, rest, hrest, rfl⟩ := Language.mem_mul.mp h
        obtain ⟨before, hparting, w, hw, rfl⟩ := Language.mem_mul.mp hfront
        have hchunk : IsChunk w rest := isChunk_of_mem_texts hw (Slot.stops_of_mem_phrases hrest)
        have hglued : (true && before.isEmpty) = false := by
          simpa using hparting.1
        rw [List.append_assoc, scanFrom_gap_append hparting.2, scanFrom_of_isChunk hchunk, hglued]
        exact Bool.and_eq_true_iff.mpr ⟨isKind_iff.mpr hw, ih.mpr hrest⟩
    · rw [Bool.and_eq_true]
      cases slot.optional with
      | true => simpa using ih
      | false => simp

/-! ### Commands -/

namespace Keyword

/-- The text of a command word. -/
def spelling (k : Keyword) : Language Char := {k.word.toList}

/-- The texts that are a command. -/
def phrases (k : Keyword) : Language Char :=
  match k with
  | .ls | .get | .stat | .create | .delete | .rmr | .edit => gap * k.spelling * parting * path * gap
  | .set =>
    gap * k.spelling * parting * path * gap + gap * k.spelling * parting * path * parting * quoted * gap
  | .help => gap * k.spelling * gap + gap * k.spelling * parting * keyword * gap
  | .raw => gap * k.spelling * parting * adminWord * gap
  | .quit | .exit | .close | .toggleWrite => gap * k.spelling * gap

/-- The texts of a command are its word with what fills its argument positions. -/
theorem phrases_eq (k : Keyword) : k.phrases = gap * k.spelling * Slot.phrases k.slots := by
  cases k <;>
    simp [phrases, slots, Slot.phrases, Slot.required, Slot.allowed, TokenKind.texts, mul_assoc,
      mul_add, add_comm]

end Keyword

variable {k : Keyword}

/-- The first chunk of a line is its first token. -/
theorem scan_of_isChunk (hbefore : before ∈ gap) (hchunk : IsChunk w rest)
    (hline : line.toList = before ++ (w ++ rest)) :
    ∃ start stop, scan line =
      ⟨.ofChunk w, String.ofList w, start⟩ :: scanFrom stop true rest := by
  rw [scan, hline, scanFrom_gap_append hbefore, scanFrom_of_isChunk hchunk]
  exact ⟨_, _, rfl⟩

theorem keyword?_iff :
    (Token.mk (.ofChunk w) (String.ofList w) position).keyword? = some k ↔ w = k.word.toList := by
  unfold Token.keyword?
  constructor
  · intro h
    have hword := Keyword.ofWord?_eq_some_iff.mp (Option.ite_none_right_eq_some.mp h).2
    rw [← hword, String.toList_ofList]
  · rintro rfl
    have hkind : k.word.toList ∈ TokenKind.command.texts := ⟨k, rfl⟩
    rw [if_pos (isKind_iff.mpr hkind), String.ofList_toList]
    exact Keyword.ofWord?_word k

theorem leading_eq_ok_iff {tokens : List Token} : leading line = .ok (k, tokens) ↔
    ∃ token, scan line = token :: tokens ∧ token.keyword? = some k := by
  unfold leading
  rcases scan line with _ | ⟨token, rest⟩
  · simp
  · cases hk : token.keyword? <;> simp [hk, and_comm]

theorem leading_cases (line : String) :
    leading line = .error (.unknownCommand line) ∨ ∃ k tokens, leading line = .ok (k, tokens) := by
  rcases h : leading line with e | ⟨k, tokens⟩
  · unfold leading at h
    split at h
    · exact Or.inl h.symm
    · split at h
      · cases h
      · exact Or.inl h.symm
  · exact Or.inr ⟨k, tokens, rfl⟩

theorem validate_of_leading {tokens : List Token} (h : leading line = .ok (k, tokens)) :
    validate line = if fills k.slots tokens then .ok k
      else .error (.invalidArguments k (malformed line)) := by
  simp only [validate, h]

/-- A line begins with a command word when that is its first chunk. -/
theorem firstChunk_word_iff :
    FirstChunk line.toList k.word.toList ↔ ∃ tokens, leading line = .ok (k, tokens) := by
  simp only [leading_eq_ok_iff]
  constructor
  · rintro ⟨before, hbefore, rest, hchunk, hline⟩
    obtain ⟨start, stop, hscan⟩ := scan_of_isChunk hbefore hchunk hline
    exact ⟨_, _, hscan, keyword?_iff.mpr rfl⟩
  · rintro ⟨tokens, token, hscan, hk⟩
    rcases gap_or_chunk line.toList with hgap | ⟨w, before, hbefore, rest, hchunk, hline⟩
    · rw [scan, scanFrom_of_gap hgap] at hscan
      cases hscan
    · obtain ⟨start, stop, hscan'⟩ := scan_of_isChunk hbefore hchunk hline
      obtain ⟨rfl, -⟩ := List.cons.inj (hscan'.symm.trans hscan)
      rw [← keyword?_iff.mp hk]
      exact ⟨before, hbefore, rest, hchunk, hline⟩

/-- The lines of the right form are the texts of the language. -/
theorem validate_eq_ok_iff_mem : validate line = .ok k ↔ line.toList ∈ k.phrases := by
  rw [validate_eq_ok_iff, Keyword.phrases_eq]
  constructor
  · rintro ⟨token, tokens, hscan, hk, hfills⟩
    obtain ⟨before, hbefore, rest, hchunk, hline⟩ :=
      firstChunk_word_iff.mpr ⟨tokens, leading_eq_ok_iff.mpr ⟨token, hscan, hk⟩⟩
    obtain ⟨start, stop, hscan'⟩ := scan_of_isChunk hbefore hchunk hline
    obtain ⟨-, rfl⟩ := List.cons.inj (hscan'.symm.trans hscan)
    rw [hline, ← List.append_assoc]
    exact Language.append_mem_mul (Language.append_mem_mul hbefore rfl)
      (fills_scanFrom_iff.mp hfills)
  · intro h
    obtain ⟨front, hfront, rest, hrest, hline⟩ := Language.mem_mul.mp h
    obtain ⟨before, hbefore, w, hw, rfl⟩ := Language.mem_mul.mp hfront
    cases hw
    rw [List.append_assoc] at hline
    have htexts : k.word.toList ∈ TokenKind.command.texts := ⟨k, rfl⟩
    have hchunk := isChunk_of_mem_texts htexts (Slot.stops_of_mem_phrases hrest)
    obtain ⟨start, stop, hscan⟩ := scan_of_isChunk hbefore hchunk hline.symm
    exact ⟨_, _, hscan, keyword?_iff.mpr rfl, fills_scanFrom_iff.mpr hrest⟩

/-- A line is not known when its first chunk is no command word. -/
theorem validate_eq_unknown_iff {text : String} :
    validate line = .error (.unknownCommand text) ↔
      text = line ∧ ¬ ∃ k : Keyword, FirstChunk line.toList k.word.toList := by
  simp only [firstChunk_word_iff]
  rcases leading_cases line with hleading | ⟨k, tokens, hleading⟩
  · simp [validate, hleading, eq_comm]
  · have hknown : ∃ k tokens, leading line = .ok (k, tokens) := ⟨k, tokens, hleading⟩
    rw [validate_of_leading hleading]
    split <;> simp [hknown]

/-- The arguments of a line do not fit when it begins with a command word and is no text of the
language of that command. -/
theorem validate_eq_invalid_iff {reason : String} :
    validate line = .error (.invalidArguments k reason) ↔
      reason = malformed line ∧ FirstChunk line.toList k.word.toList ∧ line.toList ∉ k.phrases := by
  rw [firstChunk_word_iff, ← validate_eq_ok_iff_mem]
  rcases leading_cases line with hleading | ⟨j, tokens, hleading⟩
  · simp [validate, hleading]
  · rw [validate_of_leading hleading]
    constructor
    · intro h
      split at h
      · cases h
      · rename_i hfills
        cases h
        refine ⟨rfl, ⟨tokens, hleading⟩, ?_⟩
        rw [if_neg hfills]
        exact fun h => by cases h
    · rintro ⟨rfl, ⟨tokens', hleading'⟩, hinvalid⟩
      cases hleading.symm.trans hleading'
      split at hinvalid
      · exact absurd rfl hinvalid
      · rename_i hfills
        rw [if_neg hfills]

/-- A line is of the right form for a command exactly when it is a text of its language. A line
whose first chunk is no command word, as when all of it is blank, is not known; any other line that
is not of the right form has arguments that do not fit the command it begins with. -/
theorem validate_language (line : String) :
    (∀ k, validate line = .ok k ↔ line.toList ∈ k.phrases) ∧
      (∀ text, validate line = .error (.unknownCommand text) ↔
        text = line ∧ ¬ ∃ k : Keyword, FirstChunk line.toList k.word.toList) ∧
      (∀ k reason, validate line = .error (.invalidArguments k reason) ↔
        reason = malformed line ∧ FirstChunk line.toList k.word.toList ∧
          line.toList ∉ k.phrases) ∧
      (line.toList ∈ gap → validate line = .error (.unknownCommand line)) := by
  refine ⟨fun k => validate_eq_ok_iff_mem, fun text => validate_eq_unknown_iff,
    fun k reason => validate_eq_invalid_iff, fun hgap => validate_eq_unknown_iff.mpr ⟨rfl, ?_⟩⟩
  rintro ⟨k, hfirst⟩
  obtain ⟨tokens, hleading⟩ := firstChunk_word_iff.mp hfirst
  obtain ⟨token, hscan, -⟩ := leading_eq_ok_iff.mp hleading
  rw [scan, scanFrom_of_gap hgap] at hscan
  cases hscan

/-- A line of blanks that are not those of ASCII is not known, like an empty one. -/
theorem validate_language_blank :
    "\u3000\u00a0\n".toList ∈ gap ∧
      validate "\u3000\u00a0\n" = .error (.unknownCommand "\u3000\u00a0\n") := by
  have hgap : "\u3000\u00a0\n".toList ∈ gap := List.all_eq_true.mp (by decide)
  exact ⟨hgap, (validate_language _).2.2.2 hgap⟩

-- A quote in a path opens nothing, and one of the other sort closes nothing.
example : validate "set\u3000/a'b \"it's\" " = .ok .set := by decide +kernel

example : validate "set /a 'x''y'" =
    .error (.invalidArguments .set "Command 'set /a 'x''y'' is invalid") := by decide +kernel

end TreeConsole
