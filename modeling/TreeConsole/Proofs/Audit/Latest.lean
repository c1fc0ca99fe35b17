import Mathlib.Data.List.Infix
import TreeConsole.Proofs.Telemetry.Files

/-!
# The latest events

A backlog holds the end of its history. An event that is published goes behind the others, and for
as long as there are then more events than places the oldest of them goes. Since it is always the
oldest that goes, what is left is the end of everything that was published, and what has made room
does not come back.

## Main definitions

* `makeRoom` — lets the oldest go, one after the other, until there are places for all
* `Backlog.HoldsLatest` — a backlog holds as much of the end of a history as it has places for
* `Backlog.ofPublished` — the backlog after a history

## Main results

* `Backlog.events_publish` — to publish is to add and then to make room
* `Backlog.HoldsLatest.publish` — one more event leaves the end of the longer history
* `Backlog.ofPublished_keeps_latest` — what a backlog holds and answers after any history
-/

namespace TreeConsole

/-! ### Making room -/

section MakeRoom

variable {α : Type} {places : Nat} {as kept : List α}

/-- Lets the oldest go, one after the other, for as long as there are more than places. -/
def makeRoom (places : Nat) : List α → List α
  | [] => []
  | a :: as => if places < as.length + 1 then makeRoom places as else a :: as

theorem makeRoom_suffix (places : Nat) (as : List α) : makeRoom places as <:+ as := by
  induction as with
  | nil => exact List.suffix_refl []
  | cons a as ih =>
    rw [makeRoom]
    split
    · exact ih.trans (List.suffix_cons a as)
    · exact List.suffix_refl (a :: as)

/-- No more go than have to. -/
theorem length_makeRoom (places : Nat) (as : List α) :
    (makeRoom places as).length = min as.length places := by
  induction as with
  | nil => exact (Nat.zero_min places).symm
  | cons a as ih =>
    rw [makeRoom, List.length_cons]
    split
    · rw [ih]
      omega
    · rw [List.length_cons]
      omega

/-- A list has only one end of a length. -/
theorem eq_drop_of_suffix (h : kept <:+ as) (hlength : kept.length = min as.length places) :
    kept = as.drop (as.length - places) := by
  have hdropped : as.length - kept.length = as.length - places := by omega
  rw [← hdropped]
  exact List.suffix_iff_eq_drop.mp h

theorem makeRoom_eq_drop (places : Nat) (as : List α) :
    makeRoom places as = as.drop (as.length - places) :=
  eq_drop_of_suffix (makeRoom_suffix places as) (length_makeRoom places as)

end MakeRoom

namespace Backlog

variable {b : Backlog} {places : Nat} {es : List AuditEvent}

/-- To publish an event is to add it and then to make room. -/
theorem events_publish (b : Backlog) (e : AuditEvent) :
    (b.publish e).events = makeRoom b.capacity (b.events ++ [e]) := by
  rw [makeRoom_eq_drop, List.length_append, List.length_singleton]
  rfl

/-! ### The end of a history -/

/-- A backlog with so many places holds the last of some events, as many as it has places for. -/
structure HoldsLatest (b : Backlog) (places : Nat) (es : List AuditEvent) : Prop where
  capacity : b.capacity = places
  suffix : b.events <:+ es
  length : b.events.length = min es.length places

theorem holdsLatest_ofCapacity (capacity : Nat) :
    (ofCapacity capacity).HoldsLatest (max capacity 1) [] where
  capacity := rfl
  suffix := List.suffix_refl []
  length := (Nat.zero_min _).symm

/-- One more event leaves the end of the longer history. -/
theorem HoldsLatest.publish (h : b.HoldsLatest places es) (e : AuditEvent) :
    (b.publish e).HoldsLatest places (es ++ [e]) where
  capacity := h.capacity
  suffix := by
    -- Before room is made, nothing has gone that was not gone already.
    obtain ⟨gone, hes⟩ := h.suffix
    have hlonger : b.events ++ [e] <:+ es ++ [e] := ⟨gone, by rw [← List.append_assoc, hes]⟩
    rw [events_publish]
    exact (makeRoom_suffix b.capacity (b.events ++ [e])).trans hlonger
  length := by
    rw [events_publish, length_makeRoom, h.capacity, List.length_append, List.length_append,
      h.length, List.length_singleton]
    omega

/-! ### Whole histories -/

/-- The backlog after some events were published one after the other. -/
def ofPublished (capacity : Nat) (es : List AuditEvent) : Backlog :=
  es.foldl publish (ofCapacity capacity)

theorem holdsLatest_ofPublished (capacity : Nat) (es : List AuditEvent) :
    (ofPublished capacity es).HoldsLatest (max capacity 1) es := by
  -- The event that was published last is the one that the step is about.
  induction es using List.reverseRecOn with
  | nil => exact holdsLatest_ofCapacity capacity
  | append_singleton es e ih =>
    rw [ofPublished, List.foldl_append]
    exact ih.publish e

/-- A journal hands every event on to its backlog and refuses none. -/
theorem inTurn_memoryPublisher (es : List AuditEvent) (j : Journal) :
    inTurn Journal.memoryPublisher.publish es j =
      (es.map fun _ => .ok (), { j with backlog := es.foldl publish j.backlog }) := by
  induction es generalizing j with
  | nil => rfl
  | cons e es ih =>
    rw [inTurn, ih]
    rfl

/-- What is held after more was published is the end of what was held and of what came after it:
an event that has gone stays away, and none goes before the older ones have. -/
theorem events_ofPublished_append_suffix (capacity : Nat) (es later : List AuditEvent) :
    (ofPublished capacity (es ++ later)).events <:+ (ofPublished capacity es).events ++ later := by
  have hall := holdsLatest_ofPublished capacity (es ++ later)
  have hbefore := holdsLatest_ofPublished capacity es
  obtain ⟨gone, hes⟩ := hbefore.suffix
  -- Both are ends of the whole history, so the shorter one is an end of the longer one.
  have hlonger : (ofPublished capacity es).events ++ later <:+ es ++ later :=
    ⟨gone, by rw [← List.append_assoc, hes]⟩
  refine List.suffix_of_suffix_length_le hall.suffix hlonger ?_
  rw [hall.length, List.length_append, List.length_append, hbefore.length]
  omega

/-- Whatever is published through a journal, nothing is refused, and its backlog holds the events
that were published last, the oldest first: as many as were published or as there are places, of
which there is at least one. Asked for a type, it gives those of them that have it, in the same
order. What goes when more is published is the oldest part of what is held, and it goes one event
after the other until the rest has room. -/
theorem ofPublished_keeps_latest (capacity : Nat) (es later : List AuditEvent) :
    (∀ disk, inTurn Journal.memoryPublisher.publish es (.onDisk disk capacity) =
      (es.map fun _ => .ok (), ⟨disk, ofPublished capacity es, 0⟩)) ∧
    (ofPublished capacity es).events <:+ es ∧
    (ofPublished capacity es).events.length = min es.length (max capacity 1) ∧
    (∀ type, (ofPublished capacity es).ofType type =
      (es.drop (es.length - max capacity 1)).filter fun e => e.type = type) ∧
    (ofPublished capacity (es ++ later)).events <:+ (ofPublished capacity es).events ++ later ∧
    ∀ e, ((ofPublished capacity es).publish e).events =
      makeRoom (max capacity 1) ((ofPublished capacity es).events ++ [e]) := by
  have hlatest := holdsLatest_ofPublished capacity es
  refine ⟨?_, hlatest.suffix, hlatest.length, ?_,
    events_ofPublished_append_suffix capacity es later, ?_⟩
  · intro disk
    exact inTurn_memoryPublisher es (.onDisk disk capacity)
  · intro type
    rw [ofType, eq_drop_of_suffix hlatest.suffix hlatest.length]
  · intro e
    rw [events_publish, hlatest.capacity]

/-- No room counts as room for one. -/
example (a b : AuditEvent) : (ofPublished 0 [a, b]).events = [b] := rfl

end Backlog
end TreeConsole
