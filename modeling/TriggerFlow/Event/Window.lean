import TriggerFlow.Event
/-!
# The window on events

A listener that looks only now and then sees the latest events.  The window holds a power of two of
them, the least one that is not below the configured size, and of a sequence that is longer only the
end is seen: `seen size events` is a final part of `events`, and `lost size events` counts what
comes before it (`length_seen_add_lost`).
-/

namespace TriggerFlow.EventWindow

/-- The sizes that can be configured: a window holds something, and with at most `2 ^ 56` events an
address space of 64 bits has room for it. -/
def isValidSize (size : Nat) : Bool := 0 < size && size ≤ 0x100000000000000

/-- How many events a window of a configured `size` holds: the least power of two that is not below
it. -/
def capacity (size : Nat) : Nat := size.nextPowerOfTwo

/-- How many of the events are no longer in the window: those beyond `capacity size`. -/
def lost (size : Nat) (events : List Event) : Nat := events.length - capacity size

/-- The events in the window: all but the first `lost size events`. -/
def seen (size : Nat) (events : List Event) : List Event := events.drop (lost size events)

theorem length_seen_add_lost (size : Nat) (events : List Event) :
    (seen size events).length + lost size events = events.length := by
  simp only [seen, lost, List.length_drop]
  omega

end TriggerFlow.EventWindow
