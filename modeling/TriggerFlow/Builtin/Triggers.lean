import TriggerFlow.Capability
/-!
# The built-in triggers

There is one trigger for each type of business event (`Builtin.trigger`).  Every one offers the
event type and the organization; those of a booking offer the booking, and some a detail of their
own (`Builtin.ownVariables`).
-/

namespace TriggerFlow.Builtin

/-- What an event is about: a `booking`, or an `event` type. -/
inductive Subject where
  | booking
  | event
deriving DecidableEq

def subject : TriggerType → Subject
  | .bookingCreated | .bookingConfirmed | .bookingCancelled | .bookingReminder => .booking
  | .eventCreated | .eventUpdated | .eventDeleted => .event

def triggerName : TriggerType → String
  | .bookingCreated => "Booking created"
  | .bookingConfirmed => "Booking confirmed"
  | .bookingCancelled => "Booking cancelled"
  | .bookingReminder => "Booking reminder"
  | .eventCreated => "Event created"
  | .eventUpdated => "Event updated"
  | .eventDeleted => "Event deleted"

def triggerDescription : TriggerType → String
  | .bookingCreated => "A guest booked a slot"
  | .bookingConfirmed => "A pending booking was confirmed"
  | .bookingCancelled => "A booking was cancelled by the guest or host"
  | .bookingReminder => "A booking is about to start"
  | .eventCreated => "A bookable event type was created"
  | .eventUpdated => "A bookable event type was changed"
  | .eventDeleted => "A bookable event type was removed"

/-- The variables that every trigger offers, whatever its `Subject`. -/
def commonVariables : List TriggerVariable :=
  [⟨"event.id", "Event type identifier"⟩, ⟨"event.title", "Event type title"⟩,
   ⟨"organization.id", "Owning organization"⟩]

/-- The variables that belong to the `Subject` of an event. -/
def subjectVariables : Subject → List TriggerVariable
  | .booking =>
    [⟨"booking.id", "Booking identifier"⟩,
     ⟨"booking.status", "pending, confirmed or cancelled"⟩,
     ⟨"booking.start_time", "Start of the booked slot (RFC 3339)"⟩,
     ⟨"booking.end_time", "End of the booked slot (RFC 3339)"⟩,
     ⟨"booking.attendee.name", "Guest name"⟩,
     ⟨"booking.attendee.email", "Guest email address"⟩]
  | .event => [⟨"event.duration", "Slot length in minutes"⟩]

/-- The variables that `trigger t` offers for one type of event alone. -/
def ownVariables : TriggerType → List TriggerVariable
  | .bookingCancelled => [⟨"booking.cancellation_reason", "Reason given when cancelling"⟩]
  | .bookingReminder => [⟨"reminder.minutes_before", "Minutes until the booking starts"⟩]
  | _ => []

/-- The trigger for a type of event: its `id` is the word for the type, and it offers
`commonVariables`, `subjectVariables` and `ownVariables`. -/
def trigger (t : TriggerType) : Trigger :=
  { id := Vocabulary.text t
    name := triggerName t
    description := triggerDescription t
    category := match subject t with
      | .booking => "booking"
      | .event => "event"
    offers := commonVariables ++ subjectVariables (subject t) ++ ownVariables t }

/-- The triggers for all types of events, in the order of `Vocabulary.all`. -/
def triggers : List Trigger := (Vocabulary.all : List TriggerType).map trigger

end TriggerFlow.Builtin
