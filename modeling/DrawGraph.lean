import DrawGraph.Attempt
import DrawGraph.Binary32.Basic
import DrawGraph.Binary32.Decimal
import DrawGraph.Binary32.Shortest
import DrawGraph.Bus
import DrawGraph.Config.Basic
import DrawGraph.Config.Identifier
import DrawGraph.Config.Number
import DrawGraph.Config.Printer
import DrawGraph.Config.Quoted
import DrawGraph.Config.Reader
import DrawGraph.Config.Rules
import DrawGraph.Config.Scan
import DrawGraph.Config.Skip
import DrawGraph.Document.Basic
import DrawGraph.Editor.Assign
import DrawGraph.Editor.Basic
import DrawGraph.Editor.Document
import DrawGraph.Editor.Error
import DrawGraph.Editor.Frame
import DrawGraph.Editor.Link
import DrawGraph.Evaluation.Error
import DrawGraph.Evaluation.Machine
import DrawGraph.Evaluation.Order
import DrawGraph.Evaluation.Run
import DrawGraph.Graph.Basic
import DrawGraph.Graph.Edge
import DrawGraph.Graph.Search
import DrawGraph.Host.Basic
import DrawGraph.Host.Demo
import DrawGraph.Main
import DrawGraph.Node
import DrawGraph.Proofs.Attempt
import DrawGraph.Proofs.Binary32.Arithmetic
import DrawGraph.Proofs.Binary32.Packing
import DrawGraph.Proofs.Binary32.Rounding
import DrawGraph.Proofs.Binary32.Shortest
import DrawGraph.Proofs.Binary32.Text
import DrawGraph.Proofs.Document
import DrawGraph.Proofs.Document.Damage
import DrawGraph.Proofs.Document.Followed
import DrawGraph.Proofs.Document.Lines
import DrawGraph.Proofs.Document.Passing
import DrawGraph.Proofs.Document.Recounting
import DrawGraph.Proofs.Document.Rewriting
import DrawGraph.Proofs.Document.RoundTrip
import DrawGraph.Proofs.Document.Rounds
import DrawGraph.Proofs.Editor.Balance
import DrawGraph.Proofs.Editor.Boxing
import DrawGraph.Proofs.Editor.Casting
import DrawGraph.Proofs.Editor.Delivery
import DrawGraph.Proofs.Editor.Draining
import DrawGraph.Proofs.Editor.DrawCalls
import DrawGraph.Proofs.Editor.Evaluate
import DrawGraph.Proofs.Editor.Footprint
import DrawGraph.Proofs.Editor.Giving
import DrawGraph.Proofs.Editor.Hearing
import DrawGraph.Proofs.Editor.Joining
import DrawGraph.Proofs.Editor.Lasting
import DrawGraph.Proofs.Editor.Laying
import DrawGraph.Proofs.Editor.Leftover
import DrawGraph.Proofs.Editor.Linking
import DrawGraph.Proofs.Editor.Midway
import DrawGraph.Proofs.Editor.Mismatch
import DrawGraph.Proofs.Editor.Opened
import DrawGraph.Proofs.Editor.Operation
import DrawGraph.Proofs.Editor.Reflection
import DrawGraph.Proofs.Editor.Refusal
import DrawGraph.Proofs.Editor.Removal
import DrawGraph.Proofs.Editor.Rendering
import DrawGraph.Proofs.Editor.Reopening
import DrawGraph.Proofs.Editor.Rerooting
import DrawGraph.Proofs.Editor.Resuming
import DrawGraph.Proofs.Editor.Rewiring
import DrawGraph.Proofs.Editor.Room
import DrawGraph.Proofs.Editor.Root
import DrawGraph.Proofs.Editor.Settled
import DrawGraph.Proofs.Editor.Sharing
import DrawGraph.Proofs.Editor.Sketch
import DrawGraph.Proofs.Editor.Staging
import DrawGraph.Proofs.Editor.Supply
import DrawGraph.Proofs.Editor.Survival
import DrawGraph.Proofs.Editor.Timekeeping
import DrawGraph.Proofs.Editor.Undoing
import DrawGraph.Proofs.Editor.Unlinked
import DrawGraph.Proofs.Editor.Untouched
import DrawGraph.Proofs.Editor.Updating
import DrawGraph.Proofs.Editor.Upkeep
import DrawGraph.Proofs.Editor.Walk
import DrawGraph.Proofs.Editor.WellFormed
import DrawGraph.Proofs.Editor.Wiring
import DrawGraph.Proofs.Evaluation.Machine
import DrawGraph.Proofs.Evaluation.Postorder
import DrawGraph.Proofs.Evaluation.Unfolding
import DrawGraph.Proofs.Graph.Change
import DrawGraph.Proofs.Graph.Consistency
import DrawGraph.Proofs.Graph.Cutting
import DrawGraph.Proofs.Graph.Cycle
import DrawGraph.Proofs.Graph.Edit
import DrawGraph.Proofs.Graph.InPlace
import DrawGraph.Proofs.Graph.Issue
import DrawGraph.Proofs.Graph.Ledger
import DrawGraph.Proofs.Graph.Order
import DrawGraph.Proofs.Graph.Path
import DrawGraph.Proofs.Graph.Restore
import DrawGraph.Proofs.Host.Demo
import DrawGraph.Proofs.Host.Feeding
import DrawGraph.Proofs.Host.Services
import DrawGraph.Proofs.Host.Showing
import DrawGraph.Proofs.Record.Field
import DrawGraph.Proofs.Record.Inline
import DrawGraph.Proofs.Record.Reader
import DrawGraph.Proofs.Record.RoundTrip
import DrawGraph.Proofs.Record.Worded
import DrawGraph.Proofs.Service.Indices
import DrawGraph.Proofs.Table.FiniteMap
import DrawGraph.Proofs.Text.Escape
import DrawGraph.Proofs.Text.Integer
import DrawGraph.Proofs.Text.Words
import DrawGraph.Proofs.UiNode.Base
import DrawGraph.Proofs.UiNode.Budding
import DrawGraph.Proofs.UiNode.Conduct
import DrawGraph.Proofs.UiNode.Create
import DrawGraph.Proofs.UiNode.Cutting
import DrawGraph.Proofs.UiNode.Effect
import DrawGraph.Proofs.UiNode.Follow
import DrawGraph.Proofs.UiNode.Growth
import DrawGraph.Proofs.UiNode.Load
import DrawGraph.Proofs.UiNode.Move
import DrawGraph.Proofs.UiNode.Pins
import DrawGraph.Proofs.UiNode.Placing
import DrawGraph.Proofs.UiNode.React
import DrawGraph.Proofs.UiNode.Record
import DrawGraph.Proofs.UiNode.Reduce
import DrawGraph.Proofs.UiNode.Renewal
import DrawGraph.Proofs.UiNode.Sprout
import DrawGraph.Proofs.UiNode.Trim
import DrawGraph.Proofs.UiNode.Turn
import DrawGraph.Proofs.Value
import DrawGraph.Record.Field
import DrawGraph.Record.Reader
import DrawGraph.Service.Asset
import DrawGraph.Service.DrawCall
import DrawGraph.Service.Shader
import DrawGraph.Table
import DrawGraph.Table.View
import DrawGraph.Text.Blank
import DrawGraph.Text.CharSet
import DrawGraph.Text.Escape
import DrawGraph.Text.IdentifierChar
import DrawGraph.Text.Integer
import DrawGraph.Text.PlainChar
import DrawGraph.UiNode.Basic
import DrawGraph.UiNode.Create
import DrawGraph.UiNode.React
import DrawGraph.UiNode.Record
import DrawGraph.UiNode.Reduce
import DrawGraph.UiNode.Scene
import DrawGraph.Value.Arithmetic
import DrawGraph.Value.Basic
import DrawGraph.Value.Kind
import DrawGraph.Value.Matrix
import DrawGraph.Value.Store
