import SglangRs.Cache.Allocator
import SglangRs.Cache.Radix

/-!
# Scheduled requests, batches and the worker interface

The data the scheduler of `sglang-srt` moves between its queues: a request with its prompt, its
generated tokens and its KV cache slots (`scheduler.rs`, lines 16–247), the batches built from
requests, and the `WorkerExecutor` trait through which a batch is executed (`worker.rs`). The
methods of a request that change several fields at once are the ones the scheduler's error paths
rely on: `clear_forward_cache_allocation` undoes the allocation of the chunk being forwarded,
`clear_forward_chunk_tracking` only forgets it.

A worker is a state machine: each method of the trait takes the worker's state and returns the
next one beside its answer. `decode_request_state` takes `&self` in the source; it threads the
state as well, because implementations answer from state behind a lock.

## Main definitions

* `ScheduledRequest` and its updates, `ScheduleBatch`.
* `WorkerExecutor`: the worker interface, with the errors and answers it exchanges.
* `ScheduledOutput`: a generated token handed back to the caller.
-/

namespace SglangRs

/-- The largest `usize`, used as "no limit". -/
def usizeMax : ℕ := 2 ^ 64 - 1

structure RequestId where
  asStr : String
deriving DecidableEq, Repr

/-- The sampling parameters the scheduler reads. -/
structure SamplingParams where
  maxNewTokens : ℕ
deriving DecidableEq, Repr

def fakeBootstrapHost : String := "2.2.2.2"

structure DisaggregatedParams where
  bootstrapHost : String
  bootstrapPort : UInt16
  bootstrapRoom : UInt64
deriving DecidableEq, Repr

inductive RequestStage where
  | prefillWaiting
  | prefillForward
  | decodeWaiting
  | decodeForward
  | finished
deriving DecidableEq, Repr

inductive ForwardMode where
  | prefill
  | decode
  | mixed
deriving DecidableEq, Repr

inductive PrefixCachePolicy where
  | enabled
  | disabled
deriving DecidableEq, Repr

/-- A request known to the scheduler. -/
structure ScheduledRequest where
  requestId : RequestId
  inputIds : List UInt32
  outputIds : List UInt32
  allocatedCachePages : List ℕ
  forwardCachePages : List ℕ
  sequenceCachePages : List ℕ
  cacheHitTokenCount : ℕ
  sampling : SamplingParams
  disaggregatedParams : Option DisaggregatedParams
  dataParallelRank : ℤ
  prefixMatch : PrefixMatch
  stage : RequestStage
  promptTokensProcessed : ℕ
  currentChunkLen : ℕ
deriving DecidableEq, Repr

namespace ScheduledRequest

/-- A request as a caller submits it. -/
def new (requestId : RequestId) (inputIds : List UInt32) (sampling : SamplingParams)
    (disaggregatedParams : Option DisaggregatedParams := none) (dataParallelRank : ℤ := 0) :
    ScheduledRequest where
  requestId := requestId
  inputIds := inputIds
  outputIds := []
  allocatedCachePages := []
  forwardCachePages := []
  sequenceCachePages := []
  cacheHitTokenCount := 0
  sampling := sampling
  disaggregatedParams := disaggregatedParams
  dataParallelRank := dataParallelRank
  prefixMatch := ⟨0, [], inputIds⟩
  stage := .prefillWaiting
  promptTokensProcessed := 0
  currentChunkLen := 0

variable (r : ScheduledRequest)

def skipsRadixCacheInsert : Bool :=
  match r.disaggregatedParams with
  | none => false
  | some params => params.bootstrapHost = fakeBootstrapHost

def uncachedInputIds : List UInt32 := r.prefixMatch.remainingInputIds

def prefixCachePages : List ℕ := r.prefixMatch.cachePages

def setStage (stage : RequestStage) : ScheduledRequest := { r with stage }

def isPrefillComplete : Bool := r.promptTokensProcessed ≥ r.inputIds.length

def remainingPromptTokens : ℕ := r.inputIds.length - r.promptTokensProcessed

def advancePromptTokens (count : ℕ) : ScheduledRequest :=
  { r with promptTokensProcessed := min (r.promptTokensProcessed + count) r.inputIds.length }

def clearForwardChunkTracking : ScheduledRequest :=
  { r with allocatedCachePages := [], forwardCachePages := [], currentChunkLen := 0 }

def clearForwardCacheAllocation : ScheduledRequest :=
  { r with
    sequenceCachePages :=
      if r.allocatedCachePages.length > 0 then
        r.sequenceCachePages.take (r.sequenceCachePages.length - r.allocatedCachePages.length)
      else r.sequenceCachePages
    allocatedCachePages := []
    forwardCachePages := []
    currentChunkLen := 0 }

def appendOutputIds (outputIds : List UInt32) : ScheduledRequest :=
  { r with outputIds := r.outputIds ++ outputIds }

def reachedMaxNewTokens : Bool := r.outputIds.length ≥ r.sampling.maxNewTokens

/-- Record the slots allocated for the next forward pass. -/
def recordAllocation (slots : List ℕ) : ScheduledRequest :=
  { r with
    forwardCachePages := slots
    allocatedCachePages := slots
    sequenceCachePages := r.sequenceCachePages ++ slots }

end ScheduledRequest

/-- A generated token handed back to the caller. -/
structure ScheduledOutput where
  requestId : RequestId
  tokenIds : List UInt32
  cachedTokens : ℕ
  finished : Bool
deriving DecidableEq, Repr

/-- A batch for one forward pass. -/
structure ScheduleBatch where
  forwardMode : ForwardMode
  requests : List ScheduledRequest
deriving DecidableEq, Repr

namespace ScheduleBatch

def prefill (requests : List ScheduledRequest) : ScheduleBatch := ⟨.prefill, requests⟩

def decode (requests : List ScheduledRequest) : ScheduleBatch := ⟨.decode, requests⟩

def mixed (requests : List ScheduledRequest) : ScheduleBatch := ⟨.mixed, requests⟩

/-- Every request is at a stage that agrees with the forward mode. -/
def Staged (batch : ScheduleBatch) : Prop :=
  ∀ r ∈ batch.requests,
    (r.stage = .prefillForward ∧ batch.forwardMode ≠ .decode) ∨
      (r.stage = .decodeForward ∧ batch.forwardMode ≠ .prefill)

end ScheduleBatch

/-! ### The worker -/

/-- The tokens a worker generated for one request. -/
structure GeneratedToken where
  tokenIds : List UInt32
  finished : Bool
deriving DecidableEq, Repr

/-- The tokens a worker generated for a batch, one entry for each request if the worker behaves. -/
structure BatchGeneratedTokens where
  tokens : List GeneratedToken
deriving DecidableEq, Repr

inductive WorkerOutputError where
  | batchSizeMismatch (requestCount outputCount : ℕ)
deriving DecidableEq, Repr

inductive WorkerExecutionError where
  | output (error : WorkerOutputError)
  | runtime (message : String)
deriving DecidableEq, Repr

/-- The text of a worker error. -/
def WorkerExecutionError.display : WorkerExecutionError → String
  | .output (.batchSizeMismatch requestCount outputCount) =>
      s!"worker output error: batch output count ({outputCount}) must match "
        ++ s!"request count ({requestCount})"
  | .runtime message => s!"worker runtime error: {message}"

inductive DecodeRequestState where
  | ready
  | pending
  | failed (message : String)
deriving DecidableEq, Repr

inductive DecodeBootstrapRegistryError where
  | duplicateBootstrapRoom (room : UInt64)
  | missingBootstrapRoom (room : UInt64)
deriving DecidableEq, Repr

inductive KvCacheTransferError where
  | registry (error : DecodeBootstrapRegistryError)
  | runtime (message : String)
deriving DecidableEq, Repr

structure KvTransferPollSummary where
  completedBatches : ℕ := 0
  failedBatches : ℕ := 0
  pendingBatches : ℕ := 0
  completedDescriptorChecksums : List String := []
  failedDescriptorChecksums : List String := []
  pendingDescriptorChecksums : List String := []
deriving DecidableEq, Repr

inductive SchedulerError where
  | emptyQueue
  | runningRequestLimitReached (maxRunningRequests : ℕ)
  | decodeNotReady (requestId : RequestId)
  | cacheAllocation (error : CacheAllocationError)
  | worker (error : WorkerExecutionError)
deriving DecidableEq, Repr

/-- The part of the `WorkerExecutor` trait the scheduler uses, over the worker's state `W`. -/
class WorkerExecutor (W : Type) where
  executeBatch : W → ScheduleBatch → W × Except WorkerExecutionError BatchGeneratedTokens
  decodeRequestState : W → ScheduledRequest → W × Except WorkerExecutionError DecodeRequestState
  pollTransfers : W → W × Except KvCacheTransferError KvTransferPollSummary
  completeRequest : W → ScheduledRequest → W
  finishRequest : W → ScheduledRequest → W × Except WorkerExecutionError Unit
  failRequest : W → ScheduledRequest → W
  shutdown : W → W × Except WorkerExecutionError Unit

end SglangRs
