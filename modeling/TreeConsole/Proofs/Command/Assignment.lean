import Mathlib.Data.List.Forall2
import TreeConsole.Command.Basic

/-!
# Tokens assigned to positions

Tokens fill a list of positions when they can be assigned to them in order: some positions that may
stay empty are passed over, and each of the others takes the next token. Which ones to pass over is
not given, and a token may be of more than one kind, so there can be many ways to try. The search
finds one if there is one, for lists of any length and with positions of both sorts in any order.

## Main definitions

* `Slot.Chosen` — some of the positions, and all that have to be filled

## Main results

* `Slot.chosen_cons_iff` — the first position is chosen, or it may stay empty
* `fills_iff_exists_chosen` — the search decides whether there is an assignment
-/

namespace TreeConsole

open List (Forall₂)
open scoped List

variable {slot : Slot} {slots chosen : List Slot} {token : Token} {tokens : List Token}

namespace Slot

/-- Some of the positions in their order, among them all that have to be filled. -/
def Chosen (chosen slots : List Slot) : Prop :=
  chosen <+ slots ∧ slots.filter (fun slot => !slot.optional) <+ chosen

/-- A token can stand at a position. -/
def Takes (slot : Slot) (token : Token) : Prop := token.isKind slot.kind = true

theorem chosen_nil_iff : Chosen chosen [] ↔ chosen = [] := by
  simp [Chosen]

/-- A position that has to be filled cannot be passed over. -/
theorem not_required_sublist (h : slot.optional = false) :
    ¬ (slot :: slots).filter (fun slot => !slot.optional) <+ slots := by
  intro hsub
  -- Filtered once more, the list on the left would have to fit into its own tail.
  have hfiltered := hsub.filter fun slot => !slot.optional
  rw [List.filter_filter, List.filter_cons_of_pos (by simp [h])] at hfiltered
  have hlength := hfiltered.length_le
  simp only [List.length_cons, Bool.and_self] at hlength
  omega

/-- Of a list of positions the first is chosen, or it may stay empty; the others are chosen from the
rest of the list. -/
theorem chosen_cons_iff : Chosen chosen (slot :: slots) ↔
    (∃ others, chosen = slot :: others ∧ Chosen others slots) ∨
      slot.optional = true ∧ Chosen chosen slots := by
  cases hslot : slot.optional with
  | false =>
    have hfilter : (slot :: slots).filter (fun slot => !slot.optional) =
        slot :: slots.filter fun slot => !slot.optional :=
      List.filter_cons_of_pos (by simp [hslot])
    simp only [Bool.false_eq_true, false_and, or_false]
    constructor
    · rintro ⟨hsub, hall⟩
      rcases List.sublist_cons_iff.mp hsub with hsub | ⟨others, rfl, hothers⟩
      · exact absurd (hall.trans hsub) (not_required_sublist hslot)
      · rw [hfilter, List.cons_sublist_cons] at hall
        exact ⟨others, rfl, hothers, hall⟩
    · rintro ⟨others, rfl, hsub, hall⟩
      refine ⟨hsub.cons_cons slot, ?_⟩
      rw [hfilter]
      exact hall.cons_cons slot
  | true =>
    have hfilter : (slot :: slots).filter (fun slot => !slot.optional) =
        slots.filter fun slot => !slot.optional :=
      List.filter_cons_of_neg (by simp [hslot])
    simp only [true_and]
    constructor
    · rintro ⟨hsub, hall⟩
      rw [hfilter] at hall
      rcases List.sublist_cons_iff.mp hsub with hsub | ⟨others, rfl, hothers⟩
      · exact Or.inr ⟨hsub, hall⟩
      · refine Or.inl ⟨others, rfl, hothers, ?_⟩
        rcases List.sublist_cons_iff.mp hall with hall | ⟨required, heq, -⟩
        · exact hall
        · -- The first position is none of those that have to be filled.
          have hmem : slot ∈ slots.filter fun slot => !slot.optional := by simp [heq]
          simp [hslot] at hmem
    · rintro (⟨others, rfl, hsub, hall⟩ | ⟨hsub, hall⟩)
      · exact ⟨hsub.cons_cons slot, hfilter ▸ hall.cons slot⟩
      · exact ⟨hsub.cons slot, hfilter ▸ hall⟩

end Slot

theorem fills_cons_iff : fills (slot :: slots) tokens = true ↔
    (∃ token rest, tokens = token :: rest ∧ slot.Takes token ∧ fills slots rest = true) ∨
      slot.optional = true ∧ fills slots tokens = true := by
  rw [fills.eq_def, Bool.or_eq_true, Bool.and_eq_true]
  refine or_congr_left ?_
  cases tokens with
  | nil => simp
  | cons token rest => simp [Slot.Takes]

/-- What the search finds is an assignment. -/
theorem exists_chosen_of_fills (h : fills slots tokens = true) :
    ∃ chosen, Slot.Chosen chosen slots ∧ Forall₂ Slot.Takes chosen tokens := by
  induction slots generalizing tokens with
  | nil =>
    rw [List.isEmpty_iff.mp h]
    exact ⟨[], Slot.chosen_nil_iff.mpr rfl, .nil⟩
  | cons slot slots ih =>
    rcases fills_cons_iff.mp h with ⟨token, rest, rfl, htakes, hrest⟩ | ⟨hslot, hrest⟩
    · obtain ⟨others, hchosen, hothers⟩ := ih hrest
      exact ⟨slot :: others, Slot.chosen_cons_iff.mpr (Or.inl ⟨others, rfl, hchosen⟩),
        .cons htakes hothers⟩
    · obtain ⟨chosen, hchosen, htakes⟩ := ih hrest
      exact ⟨chosen, Slot.chosen_cons_iff.mpr (Or.inr ⟨hslot, hchosen⟩), htakes⟩

/-- If there is an assignment the search finds one. -/
theorem fills_of_chosen (hchosen : Slot.Chosen chosen slots)
    (htakes : Forall₂ Slot.Takes chosen tokens) : fills slots tokens = true := by
  induction slots generalizing chosen tokens with
  | nil =>
    rw [Slot.chosen_nil_iff] at hchosen
    subst hchosen
    cases htakes
    rfl
  | cons slot slots ih =>
    rw [fills_cons_iff]
    rcases Slot.chosen_cons_iff.mp hchosen with ⟨others, rfl, hothers⟩ | ⟨hslot, hrest⟩
    · cases htakes with
      | cons htoken hrest => exact Or.inl ⟨_, _, rfl, htoken, ih hothers hrest⟩
    · exact Or.inr ⟨hslot, ih hrest htakes⟩

/-- Tokens fill positions exactly if some of the positions, among them all that have to be filled,
are as many as the tokens, and each takes the token in its place. -/
theorem fills_iff_exists_chosen (slots : List Slot) (tokens : List Token) :
    fills slots tokens = true ↔ ∃ chosen, chosen <+ slots ∧
      slots.filter (fun slot => !slot.optional) <+ chosen ∧
      Forall₂ (fun slot token => token.isKind slot.kind = true) chosen tokens := by
  constructor
  · intro h
    obtain ⟨chosen, ⟨hsub, hall⟩, htakes⟩ := exists_chosen_of_fills h
    exact ⟨chosen, hsub, hall, htakes⟩
  · rintro ⟨chosen, hsub, hall, htakes⟩
    exact fills_of_chosen ⟨hsub, hall⟩ htakes

-- The first position has to be passed over, although it could take the token that is there.
example : fills [.allowed .command, .required .adminWord] [⟨.word, "stat", 0⟩] = true := by decide

end TreeConsole
