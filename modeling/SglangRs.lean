import SglangRs.Engine.Isolation
import SglangRs.Router.HashTreeInvariant
import SglangRs.Scheduler.Atomicity
import SglangRs.Scheduler.Lengths
import SglangRs.Scheduler.PageTables
import SglangRs.Scheduler.Safety
import SglangRs.Scheduler.Tokens
import SglangRs.Router.BlockSets
import SglangRs.Router.Eviction
import SglangRs.Collections.SortedMap
import SglangRs.Collections.FallibleMap
import SglangRs.Distributed.AllToAll
import SglangRs.Distributed.Topology
import SglangRs.Model.MoeRouting
import SglangRs.Weights.Int4
import SglangRs.Weights.TensorPartition
import SglangRs.Recurrent.StatePayload
import SglangRs.Recurrent.StateSlots
import SglangRs.Distributed.DpContainment
import SglangRs.Distributed.DpOrigins
import SglangRs.Distributed.DpOwnership
import SglangRs.Distributed.WeightReload
import SglangRs.Ledger.Custody
import SglangRs.Router.CircuitBreaker
import SglangRs.Router.EventWire
import SglangRs.Router.LoadAccounting
import SglangRs.Router.Parity
import SglangRs.Router.Publisher
import SglangRs.Router.Subscriptions
import SglangRs.Transfer.AbortProtocol
import SglangRs.Transfer.Delivery
import SglangRs.Transfer.Destinations
import SglangRs.Transfer.Plan
import SglangRs.Transfer.Positions
import SglangRs.Transfer.RequestGeometry
import SglangRs.Transfer.Readiness
import SglangRs.Runner.Lowering
import SglangRs.Runner.PaddingSlots
import SglangRs.Router.ForwardRecords
import SglangRs.Router.DecodeAffinity
import SglangRs.Transfer.PrefillRoutes
import SglangRs.Runner.BlockTables
import SglangRs.Transfer.PlanPositions
import SglangRs.Engine.StreamResponses
import SglangRs.Wire.IncrementalText
import SglangRs.Engine.StreamText
import SglangRs.Transfer.TcpSafety
import SglangRs.Distributed.WorkerGroupProgress
import SglangRs.Distributed.DpOutputs
import SglangRs.Distributed.DpCoordinator
import SglangRs.Distributed.DpDelivery
import SglangRs.Distributed.DpAborts
import SglangRs.Cache.AllocatorRuns
import SglangRs.Cache.RadixRuns
import SglangRs.Cache.BlockPrefixIndex
import SglangRs.Paging.Tiling
import SglangRs.Cache.KvCacheLayout
import SglangRs.Scheduler.PendingInserts
import SglangRs.Scheduler.Places
import SglangRs.Scheduler.PromptOrder
import SglangRs.Scheduler.RunningLimit
import SglangRs.Distributed.DpFlush
import SglangRs.Transfer.PlanAlignment
import SglangRs.Transfer.ChunkAlignment
import SglangRs.Causal.Network
import SglangRs.Kernel.Cpu
import SglangRs.Paging.Buffer
import SglangRs.Cache.CpuKvCache
import SglangRs.Model.DenseDecoder
import SglangRs.Model.SequenceForward
import SglangRs.Runner.BatchRows
import SglangRs.Model.BatchForward
import SglangRs.Serving.Requests
import SglangRs.Scheduler.WorkerStates
import SglangRs.Scheduler.BatchSlots
import SglangRs.Serving.Batches
import SglangRs.Serving.Execution
import SglangRs.Runner.ModelRunner
import SglangRs.Causal.Generation
import SglangRs.Serving.Generation
import SglangRs.Ledger.Records
import SglangRs.Scheduler.Generations
import SglangRs.Runner.Sampler
import SglangRs.Cache.KvCacheModel
import SglangRs.Serving.Runs
import SglangRs.Router.CacheAware
