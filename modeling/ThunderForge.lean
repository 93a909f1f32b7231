import ThunderForge.Basic
import ThunderForge.Lib.Run
import ThunderForge.Lib.BigEndian
import ThunderForge.Lib.Fifo
import ThunderForge.Lib.Json
import ThunderForge.Lib.SortBy
import ThunderForge.Lib.Transaction
import ThunderForge.Lib.RateWindow
import ThunderForge.Lib.EvenSplit
import ThunderForge.Lib.Latest
import ThunderForge.Peer.AdjudicationMessage
import ThunderForge.Peer.Adjudication
import ThunderForge.Peer.AdjudicationSafety
import ThunderForge.Peer.AdjudicationNetwork
import ThunderForge.Peer.AdjudicationAgreement
import ThunderForge.Peer.Channel
import ThunderForge.Library.Deltas
import ThunderForge.Library.Accounting
import ThunderForge.Library.Locality
import ThunderForge.Library.Shelf
import ThunderForge.Library.Collections
import ThunderForge.Library.SyncBack
import ThunderForge.Library.SyncBackKeeps
import ThunderForge.Library.History
import ThunderForge.Library.Write
import ThunderForge.Library.Keys
import ThunderForge.Library.Difference
import ThunderForge.Library.Additions
import ThunderForge.Lib.Precedence
import ThunderForge.Reconcile.Conflict
import ThunderForge.Reconcile.Server
import ThunderForge.Reconcile.Replay
import ThunderForge.Reconcile.Gates
import ThunderForge.Reconcile.Refinement
import ThunderForge.Reconcile.WorldBoundary
import ThunderForge.Reconcile.OwnEdits
import ThunderForge.Reconcile.Race
import ThunderForge.Auth.Throttle
import ThunderForge.Moderation.Log
import ThunderForge.Moderation.Visibility
import ThunderForge.Moderation.Reach
import ThunderForge.Moderation.Strikes
import ThunderForge.Moderation.Standing
import ThunderForge.Genie.Resources
import ThunderForge.Genie.Outcome
import ThunderForge.Genie.Payout
import ThunderForge.Genie.Rewards
import ThunderForge.Lore.Tree
import ThunderForge.Lore.Cycle
import ThunderForge.Lore.Revisions
import ThunderForge.Actors.Access
import ThunderForge.Transfer.Delivery
import ThunderForge.Cache.Delta
import ThunderForge.Mirror.Stability
import ThunderForge.Invites.Uses
import ThunderForge.Rolls.Facets
import ThunderForge.Downloads.InOrder
import ThunderForge.SheetImport.Accounting
import ThunderForge.Dice.Asked
import ThunderForge.Dice.Ast
import ThunderForge.Dice.Eval
import ThunderForge.Dice.IdentityReplay
import ThunderForge.Lib.JsonRewrite
import ThunderForge.Lib.JsonTree
import ThunderForge.SheetImport.Rollback
import ThunderForge.SheetImport.Faithful
import ThunderForge.SheetImport.Write
import ThunderForge.SheetImport.Reimport
import ThunderForge.Dice.Breakdown
import ThunderForge.Canvas.Grid
import ThunderForge.Canvas.Movement
import ThunderForge.Canvas.Snapping
import ThunderForge.Combat.Order
import ThunderForge.Combat.Turns
import ThunderForge.Combat.Tables
import ThunderForge.Combat.Handover
import ThunderForge.Combat.Update
import ThunderForge.Combat.HitPoints
import ThunderForge.Canvas.Hex
import ThunderForge.Canvas.Pathfinding
import ThunderForge.Canvas.Route
import ThunderForge.Canvas.Waypoints
import ThunderForge.Mirror.Document
import ThunderForge.Mirror.Incoming
import ThunderForge.Mirror.Proposals
import ThunderForge.Dice.Printing
import ThunderForge.Dice.Lexing
import ThunderForge.Dice.Printed
import ThunderForge.Dice.Reading
import ThunderForge.Dice.Parsed
import ThunderForge.Dice.Rewrite
import ThunderForge.Dice.Canonical
import ThunderForge.Cache.Budget
import ThunderForge.Lib.Lamport
import ThunderForge.Peer.NonceOrder
import ThunderForge.Transfer.Server
import ThunderForge.Dice.Terms
import ThunderForge.Dice.Chains
import ThunderForge.Dice.Marks
import ThunderForge.Dice.ReplayKeeps
import ThunderForge.Dice.ReplayTable
import ThunderForge.Dice.Sums
import ThunderForge.Dice.InRange
import ThunderForge.Mirror.Review
import ThunderForge.Mirror.Replacements
import ThunderForge.Cache.Scene
import ThunderForge.Mirror.Links
import ThunderForge.Mirror.Rendering
import ThunderForge.Dice.KeepDrop
import ThunderForge.Dice.GoingOn
import ThunderForge.Mirror.Shape
import ThunderForge.Mirror.Components
import ThunderForge.Mirror.Depths
import ThunderForge.Mirror.Places
import ThunderForge.Mirror.Orders
import ThunderForge.Mirror.Legality
import ThunderForge.Mirror.Exporting
import ThunderForge.Mirror.InlineLinks
import ThunderForge.Mirror.KeptLinks
import ThunderForge.Mirror.PathText
import ThunderForge.Mirror.Untouched
import ThunderForge.Delivery.Backplane
import ThunderForge.Delivery.Once
import ThunderForge.Delivery.Lost
import ThunderForge.Delivery.Draining
import ThunderForge.Delivery.Timing
import ThunderForge.Lib.Broadcast
import ThunderForge.Delivery.Router
import ThunderForge.Delivery.Server
import ThunderForge.Lib.FileTree
import ThunderForge.Lib.HexText
import ThunderForge.Mirror.Applied
import ThunderForge.Reconcile.Descent
import ThunderForge.Reconcile.Offline
import ThunderForge.Reconcile.OfflineKept
import ThunderForge.Reconcile.OfflineOnce
import ThunderForge.Reconcile.OfflineOrder
import ThunderForge.Attendance.Registry
import ThunderForge.Inventory.Pickup
import ThunderForge.Inventory.Taken
import ThunderForge.Delivery.CatchUp
