import TreeConsole.Outcome
import TreeConsole.Proofs.Json.RoundTrip
import TreeConsole.Proofs.Text.Encoding
import TreeConsole.Tree.Seed

/-!
# Payloads as they are shown

A payload that is the text of an array or an object is shown as the pretty text of the value, and
any other payload as it is. As long as its numbers are integers of 64 bits the value is kept: what
is shown stands for it, and shown once more it stays as it is. So payloads that say the same are
shown alike, among them the compact text that a seed stores.

## Main results

* `renderPayload_faithful` — what is shown of a payload
-/

namespace TreeConsole

open Json

variable {text : String} {v : Json}

/-- An array or an object. -/
def Json.IsContainer : Json → Prop
  | .arr _ | .obj _ => True
  | _ => False

theorem renderPayload_of_container (h : parse? text = some v) (hv : v.IsContainer) :
    renderPayload text = v.pretty := by
  rw [renderPayload, h]
  cases v with
  | arr items => rfl
  | obj fields => rfl
  | _ => exact absurd hv id

theorem renderPayload_of_other (h : ∀ v, parse? text = some v → ¬ v.IsContainer) :
    renderPayload text = text := by
  unfold renderPayload
  split
  · next items hread => exact absurd trivial (h _ hread)
  · next fields hread => exact absurd trivial (h _ hread)
  · rfl

/-- A seed stores the compact text of a container. -/
theorem toText_seedPayload (hv : v.IsContainer) : Utf8.toText (Tree.seedPayload v) = v.compact := by
  have hpayload : Tree.seedPayload v = Utf8.encode v.compactChars := by
    cases v with
    | arr items => rfl
    | obj fields => rfl
    | _ => exact absurd hv id
  rw [hpayload, Utf8.toText, Utf8.decode_encode, compact]

/-- The text of an array or an object with integers only is shown as the pretty text of its value,
from which the value is read back, and which is shown as it is; so all texts of one value are shown
alike, and so is what a seed stores for it. Objects are equal when each key has the same last field.
What is no text of an array or an object, whatever its numbers, is shown as it is. -/
theorem renderPayload_faithful (text : String) :
    (∀ v : Json, SpellsText IsInteger text v → v.IsContainer →
      parse? text = some v ∧ renderPayload text = v.pretty ∧
      parse? (renderPayload text) = parse? text ∧
      renderPayload (renderPayload text) = renderPayload text ∧
      (∀ other, SpellsText IsInteger other v → renderPayload other = renderPayload text) ∧
      renderPayload (Utf8.toText (Tree.seedPayload v)) = renderPayload text) ∧
    (∀ fs gs : List (String × Json),
      ofFields fs = ofFields gs ↔ ∀ k, fs.reverse.lookup k = gs.reverse.lookup k) ∧
    ((∀ v : Json, SpellsText IsNumber text v → ¬ v.IsContainer) → renderPayload text = text) := by
  refine ⟨fun v h hv => ?_, fun fs gs => ofFields_eq_iff, fun h => ?_⟩
  · obtain ⟨hexact, hdepth⟩ := SpellsPadded.isExact h
    have hread : parse? text = some v := h.read admits_isInteger
    have hshown : renderPayload text = v.pretty := renderPayload_of_container hread hv
    have hpretty : parse? v.pretty = some v :=
      (spellsText_pretty hexact hdepth).read admits_isInteger
    have hagain : renderPayload v.pretty = v.pretty := renderPayload_of_container hpretty hv
    have hcompact : renderPayload v.compact = v.pretty :=
      renderPayload_of_container ((spellsText_compact hexact hdepth).read admits_isInteger) hv
    rw [hshown, hread, toText_seedPayload hv]
    exact ⟨rfl, rfl, hpretty, hagain,
      fun other hother => renderPayload_of_container (hother.read admits_isInteger) hv, hcompact⟩
  · exact renderPayload_of_other fun v hread => h v (parse?_eq_some_iff.mp hread)

/-- A key that stands twice, once in an escape, with blanks where there may be some. -/
theorem renderPayload_faithful_doubled :
    renderPayload "\x7b\"b\":0, \"\\u0062\":[ -1]\x7d" =
      "\x7b\n  \"b\": [\n    -1\n  ]\n\x7d" := by
  have hkey : KeyText ['"', 'b', '"'] "b" :=
    .mk areGaps_nil (.mk (.cons (.plain (by decide) (by decide) (by decide)) .nil)) areGaps_nil
  have hescaped : KeyText [' ', '"', '\\', 'u', '0', '0', '6', '2', '"'] "b" :=
    .mk areGaps_space (.mk (.cons (.code (n := 98) (by decide) (by decide) (by decide)) .nil))
      areGaps_nil
  have hzero : Spells IsInteger 126 ['0'] (.num (.int 0)) := .num ⟨0, by decide, by decide, rfl⟩
  have hone : Spells IsInteger 125 ['-', '1'] (.num (.int (-1))) :=
    .num ⟨-1, by decide, by decide, rfl⟩
  have hitems : Spells IsInteger 126 ['[', ' ', '-', '1', ']'] (.arr [.num (.int (-1))]) :=
    .arr (.last (.mk areGaps_space hone areGaps_nil))
  have htext : SpellsText IsInteger "\x7b\"b\":0, \"\\u0062\":[ -1]\x7d"
      (ofFields [("b", .num (.int 0)), ("b", .arr [.num (.int (-1))])]) :=
    .mk areGaps_nil (.obj (.more hkey (.mk areGaps_nil hzero areGaps_nil)
      (.last hescaped (.mk areGaps_nil hitems areGaps_nil)))) areGaps_nil
  exact ((renderPayload_faithful _).1 _ htext trivial).2.1.trans (by decide)

end TreeConsole
