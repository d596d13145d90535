import TriggerFlow.Event
import TriggerFlow.Store.Access
/-!
# The world of a run

A `World` is a store in use and the journal of the events that runs have reported, the latest first.
`Effect α` is a piece of work on it that answers with an `α` or is refused by the store;
`World.access` makes one of work on the store.
-/

namespace TriggerFlow

/-- A store in use and the journal of events; see `World.report`. -/
structure World where
  storage : Storage
  /-- The events reported so far, the latest first; `World.events` has them in order. -/
  journal : List Event

/-- Work on a world that the store may refuse with a `StoreError`. -/
abbrev Effect (α : Type) := EStateM StoreError World α

namespace World

/-- A world of the store without events. -/
def ofStorage (storage : Storage) : World := ⟨storage, []⟩

/-- The events in the order of their report: `journal` reversed. -/
def events (w : World) : List Event := w.journal.reverse

/-- The time by the clock of the store. -/
def now (w : World) : Timestamp := w.storage.clock

/-- A run reports a `happening`, which joins the journal with the time `w.now`. -/
def report (w : World) (execution : ExecutionId) (happening : Happening) : World :=
  { w with journal := ⟨execution, happening, w.now⟩ :: w.journal }

/-- Uses the store; the journal stays as it is, whether the store refuses or not. -/
def access {α : Type} (a : Access α) : Effect α := fun w =>
  match a w.storage with
  | .ok v s => .ok v { w with storage := s }
  | .error e s => .error e { w with storage := s }

end World

end TriggerFlow
