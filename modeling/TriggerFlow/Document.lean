import TriggerFlow.Workflow
/-!
# Documents

A `Document` describes a workflow with its whole graph.  Its nodes have keys of the author's choice,
and its connections name nodes by these keys.  Words are kept as they were written; whether they
mean anything is found out when the document is put into a store (`Document.author`).
-/

namespace TriggerFlow

/-- The workflow of a document, with its words as they were written. -/
structure WorkflowEntry where
  name : String
  description : Option String
  triggerType : String
  triggerConfig : Option Config
  status : Option String

/-- A node of a document under its `key`. -/
structure NodeEntry where
  key : String
  nodeType : String
  actionType : Option String
  name : Option String
  config : Config

namespace NodeEntry

/-- The name of the node, `key` where none is given. -/
def title (n : NodeEntry) : String := n.name.getD n.key

end NodeEntry

/-- A connection of a document between the nodes of the keys `source` and `target`; `source = none`
stands for the trigger. -/
structure ConnectionEntry where
  source : Option String
  target : String
  conditionType : Option String
  priority : Int32

/-- A workflow with its graph. -/
structure Document where
  workflow : WorkflowEntry
  nodes : List NodeEntry
  connections : List ConnectionEntry

namespace Document

/-- The first document that the command `init` writes: it tags confirmed bookings and logs the
others. -/
def sample : Document where
  workflow :=
    { name := "Booking confirmation"
      description := some "Tag confirmed bookings, log the rest"
      triggerType := "booking.confirmed"
      triggerConfig := none
      status := some "active" }
  nodes :=
    [{ key := "is_confirmed", nodeType := "condition", actionType := none, name := none
       config :=
         [("field", .string "booking.status"), ("operator", .string "equals"),
          ("value", .string "confirmed")] },
     { key := "tag", nodeType := "action", actionType := some "set_variables", name := none
       config :=
         [("values",
           .object [("confirmed_ref", .string "B-\x7b\x7b booking.id \x7d\x7d")])] },
     { key := "log_pending", nodeType := "action", actionType := some "log", name := none
       config :=
         [("message",
           .string ("Booking \x7b\x7b booking.id \x7d\x7d is "
             ++ "\x7b\x7b booking.status \x7d\x7d"))] }]
  connections :=
    [{ source := none, target := "is_confirmed", conditionType := none, priority := 0 },
     { source := some "is_confirmed", target := "tag", conditionType := some "true",
       priority := 0 },
     { source := some "is_confirmed", target := "log_pending", conditionType := some "false",
       priority := 0 }]

end Document

end TriggerFlow
