import NanoVllm.Library.Buckets
import NanoVllm.Library.Call
import NanoVllm.Library.CausalCache
import NanoVllm.Library.ChainDigest
import NanoVllm.Library.FairQueue
import NanoVllm.Library.FiniteMap
import NanoVllm.Library.Nucleus
import NanoVllm.Library.Paging
import NanoVllm.Library.References
import NanoVllm.Library.Segments
import NanoVllm.Library.Steps
import NanoVllm.Library.Tensor
import NanoVllm.Library.Unroll
import NanoVllm.Engine.Sequence
import NanoVllm.Engine.SpeculativePlan
import NanoVllm.Engine.State
import NanoVllm.Engine.BlockManager
import NanoVllm.Engine.TpTransport
import NanoVllm.Engine.ModelInputs
import NanoVllm.Engine.SpeculativeMemory
import NanoVllm.Engine.SpeculativeRoutes
import NanoVllm.Engine.GraphReplay
import NanoVllm.Engine.TemporaryReservation
import NanoVllm.Engine.Scheduler
import NanoVllm.Engine.SpeculativeStep
import NanoVllm.Engine.SpeculativeExecution
import NanoVllm.Engine.LlmEngine
import NanoVllm.Engine.ModelRunner
import NanoVllm.Engine.SpeculativePolicy
import NanoVllm.Layers.Linear
import NanoVllm.Layers.EmbedHead
import NanoVllm.Layers.Sampler
import NanoVllm.Layers.RejectionSampler
import NanoVllm.Layers.Attention
import NanoVllm.Engine.TargetCall
import NanoVllm.Utils.Loader
import NanoVllm.Utils.StreamingDetokenizer
import NanoVllm.Ownership.Own
import NanoVllm.Ownership.Effects
import NanoVllm.Ownership.Allocation
import NanoVllm.Ownership.Ledger
import NanoVllm.Ownership.Lease
import NanoVllm.Ownership.Reservation
import NanoVllm.Ownership.Retention
import NanoVllm.Ownership.AllocatorOps
import NanoVllm.Ownership.Core
import NanoVllm.Ownership.IncrementalAllocation
import NanoVllm.Ownership.LeaseAlgebra
import NanoVllm.Scheduling.DecodeMoves
import NanoVllm.Scheduling.FillMoves
import NanoVllm.Scheduling.Schedule
import NanoVllm.Scheduling.Staged
import NanoVllm.Scheduling.Batches
import NanoVllm.Scheduling.Postprocess
import NanoVllm.Scheduling.Cancel
import NanoVllm.Scheduling.Events
import NanoVllm.Scheduling.Replay
import NanoVllm.Speculation.Lending
import NanoVllm.Speculation.Undo
import NanoVllm.Speculation.Planning
import NanoVllm.Speculation.Commit
import NanoVllm.Speculation.CommitCall
import NanoVllm.Speculation.Transaction
import NanoVllm.Speculation.Protocol
import NanoVllm.Scheduling.Rest
import NanoVllm.Speculation.UndoSchedule
import NanoVllm.Speculation.Recovery
import NanoVllm.Speculation.Cycle
import NanoVllm.Routing.Catchup
import NanoVllm.Routing.Workspace
import NanoVllm.Routing.EffectiveK
import NanoVllm.Routing.Registry
import NanoVllm.Routing.Policy
import NanoVllm.Inputs.Slots
import NanoVllm.Inputs.Ragged
import NanoVllm.Inputs.Draft
import NanoVllm.Inputs.Replay
import NanoVllm.Inputs.Capture
import NanoVllm.Inputs.Queries
import NanoVllm.Inputs.Aligned
import NanoVllm.Inputs.Attention
import NanoVllm.Sampling.Rows
import NanoVllm.Sampling.Filters
import NanoVllm.Sampling.Metadata
import NanoVllm.Sampling.Tokens
import NanoVllm.Sampling.Emission
import NanoVllm.Sampling.Support
import NanoVllm.Sampling.TrustedPaths
import NanoVllm.Sharding.Loading
import NanoVllm.Sharding.Tiling
import NanoVllm.Sharding.Outputs
import NanoVllm.Sharding.Columns
import NanoVllm.Sharding.Reduced
import NanoVllm.Sharding.Vocabulary
import NanoVllm.Sharding.Layers
import NanoVllm.Checkpoint.Mapping
import NanoVllm.Checkpoint.Coverage
import NanoVllm.Checkpoint.Loop
import NanoVllm.Checkpoint.Initialization
import NanoVllm.Transport.Mailbox
import NanoVllm.Streaming.Updates
import NanoVllm.Streaming.Liveness
import NanoVllm.Runs.Turns
import NanoVllm.Speculation.StepEnd
import NanoVllm.Runs.Invariants
import NanoVllm.Runs.Flags
import NanoVllm.Runs.Emission
import NanoVllm.Runs.EmissionRows
import NanoVllm.Runs.Fifo
import NanoVllm.Runs.BetweenSteps
import NanoVllm.Runs.Undo
import NanoVllm.Content.Carried
import NanoVllm.Content.Moves
import NanoVllm.Content.Lasting
import NanoVllm.Content.Calls
import NanoVllm.Content.Hashes
import NanoVllm.Content.Bursts
import NanoVllm.Runs.Ownership
import NanoVllm.Content.Cache
import NanoVllm.Content.Passes
import NanoVllm.Content.TargetCalls
import NanoVllm.Content.StepCache
import NanoVllm.Runs.Cached
import NanoVllm.Runs.Tagged
import NanoVllm.Runs.Successful
import NanoVllm.Reference.Texts
import NanoVllm.Reference.Course
import NanoVllm.Reference.Events
import NanoVllm.Content.Replies
import NanoVllm.Runs.Reference
import NanoVllm.Runs.Addresses
import NanoVllm.Runs.Commits
import NanoVllm.Runs.Retry
import NanoVllm.Runs.Greedy
import NanoVllm.Runs.Unrolled
import NanoVllm.Cancellation.Attached
import NanoVllm.Cancellation.Abort
import NanoVllm.Cancellation.Before
import NanoVllm.Cancellation.Removal
import NanoVllm.Cancellation.Exact
