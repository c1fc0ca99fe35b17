import TreeConsole.Proofs.Command.Language

/-!
# Spelling commands out

A command is written down as its word and its arguments, a space in front of each. If the arguments
are of the kinds that the command asks for, reading the line gives back the command: no argument is
cut, joined to its neighbour, or taken for something else, whatever characters it is made of.

## Main definitions

* `Slot.Filled` — texts that can stand at argument positions
* `Command.spelled` — the line of a command
* `Text.enclosed` — a text between two quotes

## Main results

* `Command.ofLine_spelled` — reading the line of a command gives back the command
* `stripQuotes_enclosed` — what was put between two quotes of one sort comes back
-/

namespace TreeConsole

open Text (isBlank)

variable {slots : List Slot} {args : List String} {position : Nat} {q : Char}

/-- Texts stand at argument positions in order, each of the kind that is asked for. -/
inductive Slot.Filled : List Slot → List String → Prop
  | none : Filled [] []
  | given {slot : Slot} {slots : List Slot} {a : String} {args : List String}
    (h : a.toList ∈ slot.kind.texts) (rest : Filled slots args) : Filled (slot :: slots) (a :: args)
  | leftOut {slot : Slot} {slots : List Slot} {args : List String} (h : slot.optional = true)
    (rest : Filled slots args) : Filled (slot :: slots) args

/-! ### Behind the command word -/

/-- Arguments as they are written behind a command word. -/
def behindWord (args : List String) : List Char := args.flatMap fun a => ' ' :: a.toList

theorem behindWord_cons (a : String) (args : List String) :
    behindWord (a :: args) = [' '] ++ (a.toList ++ behindWord args) := rfl

theorem stops_behindWord (args : List String) :
    ∀ x ∈ (behindWord args).head?, isBlank x = true := by
  cases args with
  | nil => exact fun x hx => by cases hx
  | cons a args =>
    intro x hx
    cases hx
    rfl

theorem space_mem_parting : [' '] ∈ Phrase.parting :=
  ⟨List.cons_ne_nil _ _, fun c hc => by rw [List.mem_singleton.mp hc]; rfl⟩

namespace Slot

/-- Arguments that can stand at some positions fill them when they are written down. -/
theorem Filled.mem_phrases (h : Filled slots args) : behindWord args ∈ Slot.phrases slots := by
  induction h with
  | none => exact fun c hc => absurd hc List.not_mem_nil
  | given h _ ih =>
    rw [behindWord_cons, ← List.append_assoc]
    refine (Language.mem_add _ _ _).mpr (Or.inl ?_)
    exact Language.append_mem_mul (Language.append_mem_mul space_mem_parting h) ih
  | leftOut h _ ih =>
    refine (Language.mem_add _ _ _).mpr (Or.inr ?_)
    rw [if_pos h]
    exact ih

/-- The arguments that are read are those that were written down. -/
theorem Filled.map_text_scanFrom (h : Filled slots args) :
    (scanFrom position true (behindWord args)).map Token.text = args := by
  induction h generalizing position with
  | none => rw [behindWord, List.flatMap_nil, scanFrom_nil, List.map_nil]
  | @given slot slots a args h _ ih =>
    have hchunk : IsChunk a.toList (behindWord args) :=
      isChunk_of_mem_texts h (stops_behindWord args)
    rw [behindWord_cons, scanFrom_gap_append space_mem_parting.2, scanFrom_of_isChunk hchunk,
      List.map_cons, String.ofList_toList, ih]
  | leftOut _ _ ih => exact ih

end Slot

/-! ### Commands -/

namespace Command

/-- The line of a command: its word, and behind it the arguments. -/
def spelled (c : Command) : String := c.args.foldl (fun line a => line ++ " " ++ a) c.keyword.word

theorem toList_spelled (c : Command) :
    c.spelled.toList = c.keyword.word.toList ++ behindWord c.args := by
  have hfold : ∀ (args : List String) (line : String),
      (args.foldl (fun line a => line ++ " " ++ a) line).toList =
        line.toList ++ behindWord args := by
    intro args
    induction args with
    | nil => exact fun line => (List.append_nil _).symm
    | cons a args ih =>
      intro line
      rw [List.foldl_cons, ih, behindWord_cons]
      simp
  exact hfold c.args c.keyword.word

/-- Reading the line of a command gives back the command. -/
theorem ofLine_spelled {c : Command} (h : Slot.Filled c.keyword.slots c.args) :
    ofLine c.spelled = .ok c := by
  have hword : c.keyword.word.toList ∈ TokenKind.command.texts := ⟨c.keyword, rfl⟩
  have hchunk := isChunk_of_mem_texts hword (stops_behindWord c.args)
  have hnogap : [] ∈ Phrase.gap := fun x hx => absurd hx List.not_mem_nil
  obtain ⟨start, stop, hscan⟩ := scan_of_isChunk hnogap hchunk c.toList_spelled
  have hvalid : validate c.spelled = .ok c.keyword :=
    validate_eq_ok_iff.mpr ⟨_, _, hscan, keyword?_iff.mpr rfl, fills_scanFrom_iff.mpr h.mem_phrases⟩
  -- The second reading takes the very tokens that the first one saw.
  obtain ⟨token, rest, hscan', -, hok⟩ := ofLine_of_validate hvalid
  obtain ⟨-, rfl⟩ := List.cons.inj (hscan'.symm.trans hscan)
  rw [hok, h.map_text_scanFrom]

end Command

/-! ### Quoted arguments -/

/-- A text between two quotes. -/
def Text.enclosed (q : Char) (text : String) : String := String.ofList (q :: (text.toList ++ [q]))

theorem enclosed_mem_quoted {text : String} (hq : q ∈ ['\'', '"']) (h : q ∉ text.toList) :
    (Text.enclosed q text).toList ∈ Phrase.quoted := by
  rw [Text.enclosed, String.toList_ofList]
  exact ⟨q, hq, text.toList, h, rfl⟩

/-- What was put between two quotes of one sort comes back, other quotes included. -/
theorem stripQuotes_enclosed (hq : q ∈ ['\'', '"']) (text : String) :
    stripQuotes (Text.enclosed q text) = text := by
  rcases List.mem_pair.mp hq with rfl | rfl
  · rw [Text.enclosed, stripQuotes_quoted, String.ofList_toList]
  · have hother : unquote? '\'' ('"' :: (text.toList ++ ['"'])) = none := by
      simp [unquote?]
    rw [stripQuotes, Text.enclosed, String.toList_ofList, hother, unquote?_quoted]
    exact String.ofList_toList

end TreeConsole
