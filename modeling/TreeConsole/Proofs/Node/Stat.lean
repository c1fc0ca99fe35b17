import TreeConsole.Node.Stat
import TreeConsole.Proofs.Calendar.Sentence
import TreeConsole.Proofs.Json.Framing

/-!
# Reading metadata back from its text

The text form of a stat is a line for each entry, and the names of the entries are always the same.
So two stats have one text when each of their entries is written alike. Numbers are, in decimal as
in hexadecimal, when they are equal; only times are rounded, to the second that their sentence
names.

## Main definitions

* `Instant.HasSentence` — the times that are shown as sentences
* `Instant.ShownAlike` — the times that are shown alike

## Main results

* `NodeStat.render_eq_iff` — what the text of a stat tells of it
-/

namespace TreeConsole

open Json (AllShown allShown_append allShown_cons)

/-! ### Numbers in any base -/

theorem digitChar_inj : ∀ m < 16, ∀ n < 16, Nat.digitChar m = Nat.digitChar n → m = n := by
  decide

/-- Where there are digits for a base, a number is known by its digits. -/
theorem toDigits_injective {base : Nat} (h : 1 < base) (h' : base ≤ 16) :
    Function.Injective (Nat.toDigits base) := by
  -- One digit is not more than one.
  have hlonger (k : Nat) {c d : Char} : Nat.toDigits base k ++ [d] ≠ [c] := by
    intro hone
    exact Nat.toDigits_ne_nil (List.append_inj' (hone.trans (List.nil_append [c]).symm) rfl).1
  intro m
  induction m using Nat.strongRecOn with
  | ind m ih =>
    intro n hdigits
    have hmod (k : Nat) : k % base < 16 := Nat.lt_of_lt_of_le (Nat.mod_lt k (by omega)) h'
    by_cases hm : m < base <;> by_cases hn : n < base
    · rw [Nat.toDigits_of_lt_base hm, Nat.toDigits_of_lt_base hn] at hdigits
      exact digitChar_inj m (by omega) n (by omega) (List.cons.inj hdigits).1
    · rw [Nat.toDigits_of_lt_base hm, Nat.toDigits_of_base_le h (Nat.le_of_not_lt hn)] at hdigits
      exact absurd hdigits.symm (hlonger _)
    · rw [Nat.toDigits_of_base_le h (Nat.le_of_not_lt hm), Nat.toDigits_of_lt_base hn] at hdigits
      exact absurd hdigits (hlonger _)
    · rw [Nat.toDigits_of_base_le h (Nat.le_of_not_lt hm),
        Nat.toDigits_of_base_le h (Nat.le_of_not_lt hn)] at hdigits
      obtain ⟨hfront, hlast⟩ := List.append_inj' hdigits rfl
      have hquotient := ih (m / base) (Nat.div_lt_self (by omega) h) hfront
      have hremainder := digitChar_inj _ (hmod m) _ (hmod n) (List.cons.inj hlast).1
      rw [← Nat.div_add_mod m base, hquotient, hremainder, Nat.div_add_mod]

theorem allShown_toDigits_of_le {base : Nat} (h : 1 < base) (h' : base ≤ 16) (n : Nat) :
    AllShown (Nat.toDigits base n) := by
  have hdigit : ∀ k < 16, AllShown [Nat.digitChar k] := by decide
  induction n using Nat.strongRecOn with
  | ind n ih =>
    by_cases hn : n < base
    · rw [Nat.toDigits_of_lt_base hn]
      exact hdigit n (by omega)
    · rw [Nat.toDigits_of_base_le h (Nat.le_of_not_lt hn), allShown_append]
      exact ⟨ih (n / base) (Nat.div_lt_self (by omega) h),
        hdigit _ (Nat.lt_of_lt_of_le (Nat.mod_lt n (by omega)) h')⟩

namespace Instant

/-! ### Times -/

/-- The times that are shown as sentences, in milliseconds. -/
def HasSentence (millis : Int) : Prop := -8334601228800000 ≤ millis ∧ millis ≤ 8210266876799999

/-- The times that are shown alike: those with sentences, in one second, and equal ones. -/
def ShownAlike (m m' : Int) : Prop :=
  (HasSentence m ∧ HasSentence m' ∧ m / 1000 = m' / 1000) ∨ m = m'

theorem hasSentence_iff {millis : Int} : HasSentence millis ↔ isCovered (millis / 1000) := by
  rw [isCovered_iff, HasSentence]
  omega

theorem shownAlike_iff {m m' : Int} : ShownAlike m m' ↔ showMillis m = showMillis m' := by
  rw [showMillis_eq_iff, ShownAlike, hasSentence_iff, hasSentence_iff]

theorem allShown_digits (count n : Nat) : AllShown (digits count n) := fun _ hc =>
  Json.isShown_of_isDigit (isDigit_of_mem_digits hc)

theorem allShown_yearChars (y : Int) : AllShown (yearChars y) := by
  unfold yearChars
  split
  · exact allShown_digits 4 _
  · refine allShown_cons.mpr ⟨?_, allShown_digits 4 _⟩
    split <;> decide

theorem allShown_text (p : Parts) : AllShown p.text := by
  have hweekday : ∀ w < 7, AllShown (weekdayName w).toList := by decide
  have hmonth : ∀ m < 13, AllShown (monthName m).toList := by decide
  have hvalid := (Date.isValid_iff.mp p.valid).1
  simp only [Parts.text, allShown_append, allShown_cons]
  exact ⟨hweekday _ p.week, by decide, hmonth _ (by omega), by decide, allShown_digits 2 _,
    by decide, allShown_digits 2 _, by decide, allShown_digits 2 _, by decide, allShown_digits 2 _,
    by decide, by decide, by decide, by decide, by decide, allShown_yearChars _⟩

theorem allShown_toString (n : Int) : AllShown (toString n).toList := by
  intro c hc
  rcases mem_toString hc with rfl | hdigit
  · decide
  · exact Json.isShown_of_isDigit hdigit

theorem allShown_showMillis (millis : Int) : AllShown (showMillis millis).toList := by
  rw [showMillis]
  split
  · next h =>
    obtain ⟨p, -, htext⟩ := exists_parts h
    rw [htext, String.toList_ofList]
    exact allShown_text p
  · exact allShown_toString millis

/-- The sentence of a time names its second, rounded down, and no other. -/
theorem exists_showMillis {millis : Int} (h : HasSentence millis) :
    ∃ p : Parts, (∀ seconds, p.IsAt seconds ↔ seconds = millis / 1000) ∧
      showMillis millis = String.ofList p.text := by
  rw [hasSentence_iff] at h
  obtain ⟨p, hp, htext⟩ := exists_parts h
  refine ⟨p, fun seconds => ⟨fun hseconds => hseconds.eq hp, ?_⟩, ?_⟩
  · rintro rfl
    exact hp
  · rw [showMillis, if_pos h, htext]

end Instant

namespace NodeStat

open Instant (HasSentence ShownAlike Parts showMillis)

/-! ### Entries -/

theorem hexWord_inj {m n : Int64} : hexWord m = hexWord n ↔ m = n := by
  constructor
  · intro h
    have hnat := toDigits_injective (by decide) (by decide) (String.ofList_injective h)
    exact congrArg Int64.ofUInt64 (UInt64.toNat_inj.mp hnat)
  · rintro rfl
    rfl

theorem decimal_inj {m n : Int32} : decimal m = decimal n ↔ m = n := by
  constructor
  · intro h
    exact Int32.toInt_inj.mp (Int.repr_injective h)
  · rintro rfl
    rfl

theorem map_fst_entries (s : NodeStat) : s.entries.map Prod.fst =
    ["cZxid", "ctime", "mZxid", "mtime", "pZxid", "cversion", "dataVersion", "aclVersion",
      "ephemeralOwner", "dataLength", "numChildren"] := rfl

theorem allShown_values (s : NodeStat) : ∀ text ∈ s.entries.map Prod.snd, AllShown text.toList := by
  have hhex (n : Int64) : AllShown (hexWord n).toList := by
    rw [hexWord, String.toList_ofList]
    exact allShown_toDigits_of_le (by decide) (by decide) _
  have htime (n : Int64) : AllShown (showMillis n.toInt).toList := Instant.allShown_showMillis _
  have hdecimal (n : Int32) : AllShown (decimal n).toList := Instant.allShown_toString _
  simp only [entries, List.map_cons, List.map_nil, List.forall_mem_cons]
  exact ⟨hhex _, htime _, hhex _, htime _, hhex _, hdecimal _, hdecimal _, hdecimal _, hhex _,
    hdecimal _, hdecimal _, List.forall_mem_nil _⟩

/-- No entry breaks out of its line. -/
theorem lineFeed_not_mem_entry (s : NodeStat) {e : String × String} (he : e ∈ s.entries) :
    '\n' ∉ (e.1 ++ " = " ++ e.2).toList := by
  have hnames : ∀ name ∈ s.entries.map Prod.fst, AllShown name.toList := by
    rw [map_fst_entries]
    decide
  have hentry : AllShown (e.1 ++ " = " ++ e.2).toList := by
    rw [String.toList_append, String.toList_append, allShown_append, allShown_append]
    exact ⟨⟨hnames _ (List.mem_map_of_mem he), by decide⟩,
      s.allShown_values _ (List.mem_map_of_mem he)⟩
  exact fun hmem => absurd (hentry '\n' hmem) (by decide)

/-- The lines of a stat are its entries. -/
theorem splitOn_render (s : NodeStat) :
    s.render.toList.splitOn '\n' = s.entries.map fun e => (e.1 ++ " = " ++ e.2).toList := by
  have htext : s.render.toList =
      ['\n'].intercalate (s.entries.map fun e => (e.1 ++ " = " ++ e.2).toList) := by
    rw [render, String.toList_intercalate, List.map_map]
    rfl
  rw [htext]
  refine List.splitOn_intercalate '\n' ?_ (List.cons_ne_nil _ _)
  rw [List.forall_mem_map]
  exact fun e he => s.lineFeed_not_mem_entry he

theorem render_eq_iff_entries (a b : NodeStat) : a.render = b.render ↔ a.entries = b.entries := by
  constructor
  · intro h
    have hlines := congrArg (fun text => text.toList.splitOn '\n') h
    simp only [splitOn_render] at hlines
    simp only [entries, List.map_cons, List.map_nil, List.cons.injEq, String.toList_inj,
      String.append_right_inj] at hlines
    simp only [entries, hlines]
  · intro h
    rw [render, h, render]

/-- The text of a stat tells all of it, except for what the sentence of a time leaves out: two stats
have one text just when they differ in nothing but times of one second. A sentence names its second,
rounded down, by the weekday, the date and the time of the day, and no number is written like it. -/
theorem render_eq_iff (a b : NodeStat) :
    (a.render = b.render ↔
      (a.czxid = b.czxid ∧ a.mzxid = b.mzxid ∧ a.pzxid = b.pzxid ∧ a.version = b.version ∧
        a.cversion = b.cversion ∧ a.aversion = b.aversion ∧
        a.ephemeralOwner = b.ephemeralOwner ∧ a.dataLength = b.dataLength ∧
        a.numChildren = b.numChildren) ∧
      ShownAlike a.ctime.toInt b.ctime.toInt ∧ ShownAlike a.mtime.toInt b.mtime.toInt) ∧
    ∀ millis : Int64,
      (HasSentence millis.toInt →
        ∃ p : Parts, (∀ seconds, p.IsAt seconds ↔ seconds = millis.toInt / 1000) ∧
          showMillis millis.toInt = String.ofList p.text) ∧
      (¬ HasSentence millis.toInt → showMillis millis.toInt = toString millis.toInt) ∧
      ∀ p : Parts, String.ofList p.text ≠ toString millis.toInt := by
  refine ⟨?_, fun millis => ⟨Instant.exists_showMillis, ?_, fun p => p.text_ne_toString _⟩⟩
  · -- Entry by entry; the nine numbers are written by rules of which each is one to one.
    simp only [render_eq_iff_entries, entries, List.cons.injEq, Prod.mk.injEq, true_and, and_true,
      hexWord_inj, decimal_inj, ← Instant.shownAlike_iff]
    constructor
    · rintro ⟨hc, hctime, hm, hmtime, hp, hcv, hv, ha, howner, hlength, hchildren⟩
      exact ⟨⟨hc, hm, hp, hv, hcv, ha, howner, hlength, hchildren⟩, hctime, hmtime⟩
    · rintro ⟨⟨hc, hm, hp, hv, hcv, ha, howner, hlength, hchildren⟩, hctime, hmtime⟩
      exact ⟨hc, hctime, hm, hmtime, hp, hcv, hv, ha, howner, hlength, hchildren⟩
  · intro hno
    rw [Instant.hasSentence_iff] at hno
    rw [showMillis, if_neg hno]

end NodeStat
end TreeConsole
