import TriggerFlow.Authoring
import TriggerFlow.Builtin.Actions
import TriggerFlow.CommandLine.Report
import TriggerFlow.Dispatch
import TriggerFlow.Document.Authored
import TriggerFlow.Document.Codec
import TriggerFlow.Engine
import TriggerFlow.Event.Window
import TriggerFlow.Inspection
import TriggerFlow.Main
import TriggerFlow.Proofs.Outcome
import TriggerFlow.Proofs.Engine.Walks
import TriggerFlow.Proofs.Store.Access
import TriggerFlow.Proofs.Engine.Journal
import TriggerFlow.Proofs.Graph.DepthFirst
import TriggerFlow.Proofs.Graph.Depths
import TriggerFlow.Proofs.Graph.Priority
import TriggerFlow.Proofs.Engine.Order
import TriggerFlow.Proofs.Graph.Paths
import TriggerFlow.Proofs.Engine.PathStack
import TriggerFlow.Proofs.Authoring.History
import TriggerFlow.Proofs.Authoring.Effects
import TriggerFlow.Proofs.Store.Rows
import TriggerFlow.Proofs.Authoring.Integrity
import TriggerFlow.Proofs.Graph.Closure
import TriggerFlow.Proofs.Engine.Row
import TriggerFlow.Proofs.Engine.Causes
import TriggerFlow.Proofs.Engine.Foresight
import TriggerFlow.Proofs.Engine.Success
import TriggerFlow.Proofs.Builtin.Actions
import TriggerFlow.Proofs.Authoring.Calm
import TriggerFlow.Proofs.Inspection
import TriggerFlow.Proofs.Document.Depiction
import TriggerFlow.Proofs.Document.Runnable
import TriggerFlow.Proofs.CommandLine.Validation
import TriggerFlow.Proofs.Authoring.Reference
import TriggerFlow.Proofs.Store.Finality
import TriggerFlow.Proofs.Uuid
import TriggerFlow.Proofs.Context.Results
import TriggerFlow.Proofs.Engine.Deeds
import TriggerFlow.Proofs.Engine.Contexts
import TriggerFlow.Proofs.Engine.Settlement
import TriggerFlow.Proofs.Store.Callers
import TriggerFlow.Proofs.Engine.Lockstep
import TriggerFlow.Proofs.Engine.Isolation
import TriggerFlow.Proofs.Engine.Checkpoints
import TriggerFlow.Proofs.Dispatch
import TriggerFlow.Proofs.Store.Tombstones
import TriggerFlow.Proofs.Uses
import TriggerFlow.Proofs.Tombstones
import TriggerFlow.Proofs.Deletion
import TriggerFlow.Proofs.Refusals
import TriggerFlow.Proofs.Authoring.Separation
import TriggerFlow.Proofs.Document.Faithful
import TriggerFlow.Proofs.CommandLine.Verdict
import TriggerFlow.Proofs.Authoring.Patches
import TriggerFlow.Proofs.Authoring.Names
import TriggerFlow.Proofs.Engine.Reaping
import TriggerFlow.Proofs.Calendar
import TriggerFlow.Proofs.Timestamp
import TriggerFlow.Proofs.ReadBack
import TriggerFlow.Proofs.Graph.Ways
import TriggerFlow.Proofs.Engine.Steady
import TriggerFlow.Proofs.Engine.Completion
import TriggerFlow.Proofs.Graph.Alike
import TriggerFlow.Proofs.Engine.Advisory
import TriggerFlow.Proofs.Authoring.Snapshots
import TriggerFlow.Proofs.Engine.Deeper
import TriggerFlow.Proofs.Graph.Links
import TriggerFlow.Proofs.Engine.Unreached
import TriggerFlow.Proofs.Graph.Components
import TriggerFlow.Proofs.Template
import TriggerFlow.Proofs.Json.Strings
import TriggerFlow.Proofs.Template.Values
import TriggerFlow.Proofs.Json.Equality
import TriggerFlow.Proofs.Comparison
import TriggerFlow.Proofs.Context.Sight
import TriggerFlow.Proofs.Engine.Sight
import TriggerFlow.Proofs.Context.Routes
import TriggerFlow.Proofs.Graph.Arrangement
import TriggerFlow.Proofs.Engine.Overdue
import TriggerFlow.Proofs.Authoring.Decisions
import TriggerFlow.Proofs.Keys
import TriggerFlow.Proofs.Builtin.Checks
import TriggerFlow.Proofs.Catalogue.Entries
import TriggerFlow.Proofs.Catalogue.Listings
import TriggerFlow.Proofs.CommandLine.Printing
import TriggerFlow.Proofs.Engine.Origins
import TriggerFlow.Proofs.CommandLine.Results
import TriggerFlow.Proofs.Store.Identifiers
import TriggerFlow.Proofs.Store.Order
import TriggerFlow.Proofs.Finality
