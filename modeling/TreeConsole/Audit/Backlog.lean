import TreeConsole.Audit.Event

/-!
# Backlogs

The events published last, as many as a backlog has places for and at least one. When a backlog is
full the oldest event makes room.

Main statements: `length_events_publish_le` and `events_publish_of_lt`.
-/

namespace TreeConsole

/-- The events that were published last. -/
structure Backlog where
  /-- The number of places. -/
  capacity : Nat
  /-- The events that are kept, the oldest first. -/
  events : List AuditEvent
  deriving Repr, Inhabited

namespace Backlog

/-- An empty backlog. It has at least one place. -/
def ofCapacity (capacity : Nat) : Backlog := ⟨max capacity 1, []⟩

/-- Takes one event more. -/
def publish (b : Backlog) (e : AuditEvent) : Backlog :=
  { b with events := (b.events ++ [e]).drop (b.events.length + 1 - b.capacity) }

/-- The kept events of a type. -/
def ofType (b : Backlog) (type : String) : List AuditEvent := b.events.filter (·.type = type)

@[simp] theorem capacity_publish (b : Backlog) (e : AuditEvent) :
    (b.publish e).capacity = b.capacity := rfl

/-- A backlog never holds more than it has places for. -/
theorem length_events_publish_le (b : Backlog) (e : AuditEvent) :
    (b.publish e).events.length ≤ b.capacity := by
  simp only [publish, List.length_drop, List.length_append, List.length_singleton]
  omega

/-- While there is a place, nothing makes room. -/
theorem events_publish_of_lt {b : Backlog} (e : AuditEvent) (h : b.events.length < b.capacity) :
    (b.publish e).events = b.events ++ [e] := by
  simp only [publish, show b.events.length + 1 - b.capacity = 0 by omega, List.drop_zero]

end Backlog
end TreeConsole
