import TriggerFlow.Capability
/-!
# The catalogue of capabilities

A catalogue holds triggers and actions by their identifiers, each kind for itself.  Registering an
identifier again replaces the earlier entry of that kind (`Catalogue.register`).  Listings of a kind
are in ascending order of the identifier, compared character by character (`Catalogue.sorted`).
-/

namespace TriggerFlow

/-- The triggers and actions that are known, each list in the order of first registration. -/
structure Catalogue where
  triggers : List Trigger
  actions : List Action

namespace Catalogue

def empty : Catalogue := ⟨[], []⟩

/-- Puts `entry` in the place of the first one with the same `key`, or at the end. -/
def putBy {α : Type} (key : α → String) (entry : α) : List α → List α
  | [] => [entry]
  | a :: as => if key a = key entry then entry :: as else a :: putBy key entry as

/-- Adds a capability, or replaces the one of its kind that has the same `id`: `putBy`. -/
def register (c : Catalogue) : Capability → Catalogue
  | .trigger t => { c with triggers := putBy Trigger.id t c.triggers }
  | .action a => { c with actions := putBy Action.id a c.actions }

/-- Adds capabilities one after the other: a fold of `register`. -/
def registerAll (c : Catalogue) (capabilities : List Capability) : Catalogue :=
  capabilities.foldl register c

/-! ### Queries -/

/-- The trigger with the identifier `id`, if one is registered. -/
def trigger? (c : Catalogue) (id : String) : Option Trigger := c.triggers.find? fun t => t.id == id

/-- The action with the identifier `id`, if one is registered. -/
def action? (c : Catalogue) (id : String) : Option Action := c.actions.find? fun a => a.id == id

/-- The capability with the identifier `id`; if it is that of an action and of a trigger, the action
is meant. -/
def lookup (c : Catalogue) (id : String) : Option Capability :=
  match c.action? id with
  | some a => some (.action a)
  | none => (c.trigger? id).map .trigger

def size (c : Catalogue) : Nat := c.triggers.length + c.actions.length

/-- Entries in ascending order of their `id`, only those of one `category` if one is given. -/
def sorted (infos : List CapabilityInfo) (category : Option String) : List CapabilityInfo :=
  (infos.filter fun i => category.all fun wanted => i.category == wanted).mergeSort
    fun a b => decide (a.id ≤ b.id)

def listTriggers (c : Catalogue) (category : Option String) : List CapabilityInfo :=
  sorted (c.triggers.map Trigger.info) category

def listActions (c : Catalogue) (category : Option String) : List CapabilityInfo :=
  sorted (c.actions.map Action.info) category

/-- The triggers, and then the actions, each kind `sorted` for itself. -/
def list (c : Catalogue) (category : Option String) : List CapabilityInfo :=
  c.listTriggers category ++ c.listActions category

/-- The categories in use, each once, in ascending order. -/
def categories (c : Catalogue) : List String :=
  ((c.triggers.map Trigger.category ++ c.actions.map Action.category).mergeSort
    fun a b => decide (a ≤ b)).eraseDups

end Catalogue

end TriggerFlow
