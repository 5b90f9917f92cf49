import AnchorStateMachine.Library.Outcome
import AnchorStateMachine.Library.SortedVec
import AnchorStateMachine.Library.Lines
import AnchorStateMachine.Library.Keyed
import AnchorStateMachine.Library.Effect
import AnchorStateMachine.Library.MerkleTree
import AnchorStateMachine.Library.Ancestry
import AnchorStateMachine.Library.Journal
import AnchorStateMachine.Library.OrderedTree
import AnchorStateMachine.Library.Rounds
import AnchorStateMachine.Library.Loop
import AnchorStateMachine.Common.Primitives
import AnchorStateMachine.Bridge.Types
import AnchorStateMachine.Common.Panic
import AnchorStateMachine.Bridge.Bitmap
import AnchorStateMachine.Bridge.OperatorTable
import AnchorStateMachine.Bridge.Membership
import AnchorStateMachine.Bridge.OperatorInvariant
import AnchorStateMachine.Bridge.Txs
import AnchorStateMachine.Bridge.State
import AnchorStateMachine.Common.Messages
import AnchorStateMachine.Common.AuxInput
import AnchorStateMachine.Bridge.Subprotocol
import AnchorStateMachine.Bridge.Assignment
import AnchorStateMachine.Bridge.Transitions
import AnchorStateMachine.Bridge.Run
import AnchorStateMachine.Bridge.Invariant
import AnchorStateMachine.Bridge.PanicFreedom
import AnchorStateMachine.Bridge.Conservation
import AnchorStateMachine.Bridge.Window
import AnchorStateMachine.Checkpoint.State
import AnchorStateMachine.Checkpoint.Subprotocol
import AnchorStateMachine.Admin.Subprotocol
import AnchorStateMachine.Btc.Body
import AnchorStateMachine.Btc.Merkle
import AnchorStateMachine.Btc.Inclusion
import AnchorStateMachine.Btc.Binding
import AnchorStateMachine.Btc.Header
import AnchorStateMachine.Btc.HeaderChain
import AnchorStateMachine.Stf.State
import AnchorStateMachine.Stf.Transition
import AnchorStateMachine.Moho.State
import AnchorStateMachine.Worker.Registry
import AnchorStateMachine.Worker.State
import AnchorStateMachine.Worker.Sync
import AnchorStateMachine.Checkpoint.Transitions
import AnchorStateMachine.Stf.Block
import AnchorStateMachine.Stf.Run
import AnchorStateMachine.Checkpoint.Queue
import AnchorStateMachine.Admin.Transitions
import AnchorStateMachine.Admin.Delay
import AnchorStateMachine.Admin.Message
import AnchorStateMachine.Admin.Threshold
import AnchorStateMachine.Admin.Run
import AnchorStateMachine.Admin.Handover
import AnchorStateMachine.Admin.Enactment
import AnchorStateMachine.Admin.Replay
import AnchorStateMachine.Admin.CancelBinding
import AnchorStateMachine.Stf.Reach
import AnchorStateMachine.Worker.Authority
import AnchorStateMachine.Worker.History
import AnchorStateMachine.Worker.Mirror
import AnchorStateMachine.Worker.Execution
import AnchorStateMachine.Stf.Predicates
import AnchorStateMachine.Checkpoint.Governance
import AnchorStateMachine.Checkpoint.Tiling
import AnchorStateMachine.Common.AuxSound
import AnchorStateMachine.Stf.Tiling
import AnchorStateMachine.Checkpoint.Pool
import AnchorStateMachine.Stf.Pool
import AnchorStateMachine.Checkpoint.Requests
import AnchorStateMachine.Bridge.Requests
import AnchorStateMachine.Stf.Requests
import AnchorStateMachine.Stf.Independence
import AnchorStateMachine.Moho.ExportEntries
import AnchorStateMachine.Moho.Containers
import AnchorStateMachine.Moho.ExportRefinement
import AnchorStateMachine.Moho.HashIndex
import AnchorStateMachine.Moho.Worker
import AnchorStateMachine.Moho.CrashReplay
import AnchorStateMachine.Moho.ExportProof
import AnchorStateMachine.Moho.ExportMirror
import AnchorStateMachine.Worker.CrashSafety
import AnchorStateMachine.Admin.Wire
import AnchorStateMachine.Bridge.StoredState
import AnchorStateMachine.Bridge.Persistence
import AnchorStateMachine.Stf.Capacity
import AnchorStateMachine.Admin.Frame
import AnchorStateMachine.Checkpoint.Handler
import AnchorStateMachine.Bridge.StakeConnector
import AnchorStateMachine.Bridge.Fairness
import AnchorStateMachine.Worker.AnchorCheck
import AnchorStateMachine.Worker.Planning
import AnchorStateMachine.Prover.Types
import AnchorStateMachine.Prover.Schedule
import AnchorStateMachine.Prover.Store
import AnchorStateMachine.Prover.Context
import AnchorStateMachine.Prover.Input
import AnchorStateMachine.Prover.Service
import AnchorStateMachine.Prover.Soundness
import AnchorStateMachine.Prover.Submitter
import AnchorStateMachine.Prover.Cascade
import AnchorStateMachine.Prover.Obligations
import AnchorStateMachine.Library.Relay
import AnchorStateMachine.Library.History
import AnchorStateMachine.Worker.Replay
import AnchorStateMachine.Runner.Context
import AnchorStateMachine.Runner.Pipeline
import AnchorStateMachine.Runner.Recovery
import AnchorStateMachine.Runner.Delivery
import AnchorStateMachine.Runner.Reexecution
import AnchorStateMachine.Governance.Provenance
import AnchorStateMachine.Prover.UpgradeWatch
import AnchorStateMachine.Governance.Control
import AnchorStateMachine.Stf.Sections
