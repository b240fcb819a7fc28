import SglangRs.Cache.Allocator
import SglangRs.Cache.Radix
import SglangRs.Scheduler.Request
import SglangRs.Transition.Run

/-!
# The data-parallel scheduler

One scheduler feeds several workers, the data-parallel ranks (`sglang-srt/src/distributed`,
`dp_scheduler.rs` and `dp_worker_pool.rs`). The ranks share the queues and the prefix cache; every
rank has an allocator of its own. A rank executes one batch at a time, in a thread, and reports its
completion through a channel that the scheduler polls.

A thread is modelled by the batches it has been sent and not executed; the environment decides when
it executes the next one and with which result. A thread that panics never executes it. A call that
blocks leaves the state as it is and returns nothing. The counter of sequence numbers, 64 bits wide,
is not modelled to wrap around, and the optional publisher of cache events is left out: nothing that
it is told comes back.

Slots carry no rank. To speak about where they come from, every request has a list `origins`, and
the cache a second trie `cacheOrigins`, with the rank whose allocator handed out each slot;
`releases` records to which allocator slots with which origins are released. These fields are
auxiliary: they are written and copied along with the slots, and never read otherwise.

## Main definitions

* `DpWorkerPool`, `DpWorkerEvent`: the ranks as the scheduler sees them.
* `DpRequest`, `DpBatch`, `DpScheduler`: the state of the scheduler.
* `DpScheduler.handleBatchCompletion`, `DpScheduler.formBatchForRank`: the two halves of a step.
* `DpScheduler.step`, `DpScheduler.stepBlocking`, `DpScheduler.abortRequest`,
  `DpScheduler.abortAllRequests`, `DpScheduler.flushCache`: the operations.
* `DpOperation`, `DpScheduler.apply`, `DpScheduler.run`: runs.
-/

namespace SglangRs

/-! ### The worker pool -/

inductive DpWorkerPoolError where
  | zeroSize
  | alreadyShutdown
  | invalidRank (rank dpSize : ℕ)
  | rankBusy (rank : ℕ)
  | eventReceiverClosed
deriving DecidableEq, Repr

inductive DpWorkerEvent where
  | batchCompleted (sequence rank : ℕ) (result : Except WorkerExecutionError BatchGeneratedTokens)
  | weightsUpdated (rank : ℕ) (result : Except WorkerExecutionError Unit)
  | fatalError (rank : ℕ) (error : String)

def DpWorkerEvent.rank : DpWorkerEvent → ℕ
  | .batchCompleted _ rank _ => rank
  | .weightsUpdated rank _ => rank
  | .fatalError rank _ => rank

/-- The scheduler's view of a worker thread, with the sequence numbers of the batches that the
thread has been sent and not executed. -/
structure DpRankHandle where
  commands : List ℕ
  isIdle : Bool
deriving DecidableEq, Repr

/-- The pool, with the events that wait in its channel. -/
structure DpWorkerPool where
  ranks : List DpRankHandle
  events : List DpWorkerEvent
  nextSequence : ℕ
  isShutdown : Bool

namespace DpWorkerPool

/-- Source: `dp_worker_pool.rs`, lines 67–119. -/
def launch (dpSize : ℕ) : Except DpWorkerPoolError DpWorkerPool :=
  if dpSize = 0 then .error .zeroSize
  else
    .ok { ranks := List.replicate dpSize ⟨[], true⟩
          events := []
          nextSequence := 1
          isShutdown := false }

variable (pool : DpWorkerPool)

def dpSize : ℕ := pool.ranks.length

/-- Source: `dp_worker_pool.rs`, lines 129–136. -/
def idleRanks : List ℕ :=
  (List.range pool.ranks.length).filter fun rank =>
    match pool.ranks[rank]? with
    | none => false
    | some handle => handle.isIdle

/-- Source: `dp_worker_pool.rs`, lines 138–170. The thread of an idle rank is there until the pool
is shut down, so the command is always received. -/
def submitBatch (rank : ℕ) : Except DpWorkerPoolError (DpWorkerPool × ℕ) :=
  if pool.isShutdown then .error .alreadyShutdown
  else
    match pool.ranks[rank]? with
    | none => .error (.invalidRank rank pool.ranks.length)
    | some handle =>
        if handle.isIdle then
          .ok ({ pool with
                  ranks := pool.ranks.set rank
                    ⟨handle.commands ++ [pool.nextSequence], false⟩
                  nextSequence := pool.nextSequence + 1 },
            pool.nextSequence)
        else .error (.rankBusy rank)

/-- An event of a rank makes it idle. -/
def markIdle (event : DpWorkerEvent) : DpWorkerPool :=
  { pool with ranks := pool.ranks.modify event.rank fun handle => { handle with isIdle := true } }

/-- Source: `dp_worker_pool.rs`, lines 198–216. -/
def pollEvents : DpWorkerPool × List DpWorkerEvent :=
  ({ pool.events.foldl markIdle pool with events := [] }, pool.events)

/-- Nothing is returned while the call blocks. The channel is closed once all threads are joined.

Source: `dp_worker_pool.rs`, lines 218–235. -/
def waitForEvent : DpWorkerPool × Option (Except DpWorkerPoolError DpWorkerEvent) :=
  match pool.events with
  | [] => (pool, if pool.isShutdown then some (.error .eventReceiverClosed) else none)
  | event :: events => ({ pool.markIdle event with events }, some (.ok event))

/-- The threads are joined once they have executed what they have been sent.

Source: `dp_worker_pool.rs`, lines 237–254. -/
def shutdown : DpWorkerPool :=
  if pool.ranks.all (·.commands.isEmpty) then { pool with isShutdown := true } else pool

/-- The thread of a rank executes its next batch with some result.

Source: `dp_worker_pool.rs`, lines 256–280. -/
def complete (rank : ℕ) (result : Except WorkerExecutionError BatchGeneratedTokens) :
    DpWorkerPool :=
  match pool.ranks[rank]? with
  | none => pool
  | some handle =>
      match handle.commands with
      | [] => pool
      | sequence :: commands =>
          { pool with
            ranks := pool.ranks.set rank { handle with commands }
            events := pool.events ++ [.batchCompleted sequence rank result] }

end DpWorkerPool

/-! ### The scheduler -/

inductive DpSchedulerError where
  | zeroBatchSize
  | zeroPageSize
  | allocatorCountMismatch (dpSize allocators : ℕ)
  | invalidRank (rank : ℕ)
  | unknownSequence (sequence rank : ℕ)
  | rankFatal (rank : ℕ) (error : String)
  | worker (error : WorkerExecutionError)
  | workerPool (error : DpWorkerPoolError)
deriving DecidableEq, Repr

/-- A request, with the origins of the slots of its sequence. -/
structure DpRequest where
  request : ScheduledRequest
  origins : List ℕ
deriving DecidableEq, Repr

/-- A batch. -/
structure DpBatch where
  forwardMode : ForwardMode
  requests : List DpRequest
deriving DecidableEq, Repr

/-- A batch that has been submitted to a rank. -/
structure RunningBatch where
  sequence : ℕ
  rank : ℕ
  batch : DpBatch
deriving DecidableEq, Repr

/-- The state of the scheduler. The running batches are ordered by their sequence numbers, the keys
of the map in the source. -/
structure DpScheduler where
  waitingQueue : List DpRequest
  decodeQueue : List DpRequest
  prefixCache : RadixCache
  cacheOrigins : RadixCache
  allocators : List CachePageAllocator
  workerPool : DpWorkerPool
  runningBatches : List RunningBatch
  finishedOutputs : List ScheduledOutput
  stepOutputs : List ScheduledOutput
  maxBatchSize : ℕ
  pageSize : ℕ
  chunkedPrefillSize : Option ℕ
  releases : List (ℕ × List ℕ)

namespace DpRequest

variable (q : DpRequest)

/-- The slots of the sequence that were not matched in the cache. -/
def ownSlots : List ℕ := q.request.sequenceCachePages.drop q.request.cacheHitTokenCount

/-- The slots past the prompt. -/
def decodeSlots : List ℕ := q.request.sequenceCachePages.drop q.request.inputIds.length

/-- Match the prompt of a request that has not been started.

Source: `dp_scheduler.rs`, lines 410–420. -/
def matched (prefixCache cacheOrigins : RadixCache) (pageSize : ℕ) : DpRequest :=
  if q.request.promptTokensProcessed = 0 then
    let prefixMatch := prefixCache.matchPrefixPageAligned q.request.inputIds pageSize
    { request :=
        { q.request with
          cacheHitTokenCount := prefixMatch.matchedTokenCount
          promptTokensProcessed := prefixMatch.matchedTokenCount
          sequenceCachePages := prefixMatch.cachePages
          prefixMatch }
      origins := (cacheOrigins.matchPrefixPageAligned q.request.inputIds pageSize).cachePages }
  else q

/-- The request in a batch of a rank, to generate a token. -/
def forwardDecode (rank : ℕ) (slots : List ℕ) : DpRequest where
  request := (q.request.recordAllocation slots).setStage .decodeForward
  origins := q.origins ++ List.replicate slots.length rank

/-- The request in a batch of a rank, to process a chunk of its prompt. -/
def forwardPrefill (rank : ℕ) (slots : List ℕ) (chunkLen : ℕ) : DpRequest where
  request :=
    { (q.request.recordAllocation slots).setStage .prefillForward with
      currentChunkLen := chunkLen
      dataParallelRank := rank }
  origins := q.origins ++ List.replicate slots.length rank

end DpRequest

namespace DpScheduler

/-- The constructor, with the chunk size set afterwards.

Source: `dp_scheduler.rs`, lines 35–74. -/
def new (workerPool : DpWorkerPool) (allocators : List CachePageAllocator)
    (maxBatchSize pageSize : ℕ) (chunkedPrefillSize : Option ℕ) :
    Except DpSchedulerError DpScheduler :=
  if workerPool.dpSize ≠ allocators.length then
    .error (.allocatorCountMismatch workerPool.dpSize allocators.length)
  else if maxBatchSize = 0 then .error .zeroBatchSize
  else if pageSize = 0 then .error .zeroPageSize
  else
    .ok { waitingQueue := [], decodeQueue := [], prefixCache := {}, cacheOrigins := {}
          allocators, workerPool, runningBatches := [], finishedOutputs := [], stepOutputs := []
          maxBatchSize, pageSize, chunkedPrefillSize, releases := [] }

/-- A scheduler as it is constructed: over a new pool, and new allocators of its page size.

Source: `server.rs`, lines 1055–1095. -/
def IsNew (s : DpScheduler) : Prop :=
  ∃ dpSize workerPool allocators maxBatchSize pageSize chunkedPrefillSize,
    DpWorkerPool.launch dpSize = .ok workerPool ∧
    (∀ allocator ∈ allocators, ∃ slotCapacity,
      CachePageAllocator.withPageSize slotCapacity pageSize = .ok allocator) ∧
    new workerPool allocators maxBatchSize pageSize chunkedPrefillSize = .ok s

variable (s : DpScheduler)

/-- Give slots back to the allocator of a rank, if there is one. -/
def release (rank : ℕ) (slots origins : List ℕ) : DpScheduler :=
  match s.allocators[rank]? with
  | none => s
  | some allocator =>
      { s with
        allocators := s.allocators.set rank (allocator.release slots)
        releases := s.releases ++ [(rank, origins)] }

/-- Give the slots of a request from a position on back to the allocator of a rank. -/
def releaseFrom (rank : ℕ) (q : DpRequest) (start : ℕ) : DpScheduler :=
  s.release rank (q.request.sequenceCachePages.drop start) (q.origins.drop start)

/-! ### Completions -/

/-- Source: `dp_scheduler.rs`, lines 308–314. -/
def publish (q : DpRequest) : DpScheduler :=
  let processed := q.request.promptTokensProcessed
  if q.request.skipsRadixCacheInsert = false ∧ 0 < processed then
    let stop := min processed q.request.sequenceCachePages.length
    { s with
      prefixCache :=
        match s.prefixCache.insert (q.request.inputIds.take stop)
            (q.request.sequenceCachePages.take stop) with
        | .ok cache => cache
        | .error _ => s.prefixCache
      cacheOrigins :=
        match s.cacheOrigins.insert (q.request.inputIds.take stop) (q.origins.take stop) with
        | .ok cache => cache
        | .error _ => s.cacheOrigins }
  else s

/-- Source: `dp_scheduler.rs`, lines 336–363. -/
def deliver (rank : ℕ) (q : DpRequest) (token : GeneratedToken) : DpScheduler :=
  let request := q.request.appendOutputIds token.tokenIds
  let finished := token.finished || request.reachedMaxNewTokens
  let s : DpScheduler :=
    { s with
      stepOutputs := s.stepOutputs ++
        [⟨request.requestId, token.tokenIds, request.cacheHitTokenCount, finished⟩] }
  if finished then
    let s := s.releaseFrom rank ⟨request, q.origins⟩ request.cacheHitTokenCount
    { s with
      finishedOutputs := s.finishedOutputs ++
        [⟨request.requestId, request.outputIds, request.cacheHitTokenCount, true⟩] }
  else
    let request : ScheduledRequest :=
      { request.clearForwardChunkTracking.setStage .decodeWaiting with dataParallelRank := rank }
    { s with decodeQueue := s.decodeQueue ++ [⟨request, q.origins⟩] }

/-- The prompt of the request was processed in this batch. -/
def IsPrefillForward (forwardMode : ForwardMode) (q : DpRequest) : Prop :=
  q.request.stage = .prefillForward ∨ (forwardMode = .prefill ∧ q.request.outputIds = [])

instance (forwardMode : ForwardMode) (q : DpRequest) : Decidable (IsPrefillForward forwardMode q) :=
  inferInstanceAs (Decidable (_ ∨ _))

/-- The request after its chunk.

Source: `dp_scheduler.rs`, lines 298–306. -/
def advanced (q : DpRequest) : DpRequest :=
  let chunkLen :=
    if 0 < q.request.currentChunkLen then q.request.currentChunkLen
    else q.request.uncachedInputIds.length
  { q with request := q.request.advancePromptTokens chunkLen }

/-- The body of the loop of `handle_batch_completion`.

Source: `dp_scheduler.rs`, lines 285–366. -/
def completeRequest (rank : ℕ) (forwardMode : ForwardMode) (q : DpRequest)
    (token : GeneratedToken) : DpScheduler :=
  if IsPrefillForward forwardMode q then
    let q := advanced q
    let s := s.publish q
    if q.request.isPrefillComplete then s.deliver rank q token
    else
      let request := q.request.clearForwardChunkTracking.setStage .prefillWaiting
      { s with waitingQueue := ⟨request, q.origins⟩ :: s.waitingQueue }
  else s.deliver rank q token

/-- The loop of `handle_batch_completion`. -/
def completeRequests (rank : ℕ) (forwardMode : ForwardMode) :
    DpScheduler → List DpRequest → List GeneratedToken → DpScheduler
  | s, q :: requests, token :: tokens =>
      completeRequests rank forwardMode (s.completeRequest rank forwardMode q token) requests tokens
  | s, _, _ => s

/-- Source: `dp_scheduler.rs`, lines 277–366. -/
def handleBatchCompletion (rank : ℕ) (batch : DpBatch) (generated : BatchGeneratedTokens) :
    DpScheduler :=
  completeRequests rank batch.forwardMode s batch.requests generated.tokens

/-- The running batch with a sequence number. -/
def runningBatch (sequence : ℕ) : Option RunningBatch :=
  s.runningBatches.find? (·.sequence = sequence)

/-- Remove the running batch with a sequence number. -/
def removeBatch (sequence : ℕ) : DpScheduler :=
  { s with runningBatches := s.runningBatches.eraseP (·.sequence = sequence) }

/-- The body of the loop of `step` over the events.

Source: `dp_scheduler.rs`, lines 167–187. -/
def handleEvent : DpWorkerEvent → DpScheduler × Option DpSchedulerError
  | .batchCompleted sequence rank result =>
      match s.runningBatch sequence with
      | none => (s, some (.unknownSequence sequence rank))
      | some running =>
          let s := s.removeBatch sequence
          match result with
          | .error error => (s, some (.worker error))
          | .ok generated => (s.handleBatchCompletion rank running.batch generated, none)
  | .fatalError rank error => (s, some (.rankFatal rank error))
  | .weightsUpdated _ _ => (s, none)

/-- The loop of `step` over the events, left at the first error. -/
def handleEvents : DpScheduler → List DpWorkerEvent → DpScheduler × Option DpSchedulerError
  | s, [] => (s, none)
  | s, event :: events =>
      match s.handleEvent event with
      | (s, some error) => (s, some error)
      | (s, none) => handleEvents s events

/-! ### Batches -/

/-- The loop of `form_batch_for_rank` over the decode queue. An allocation only ever fails because
the slots run out.

Source: `dp_scheduler.rs`, lines 377–401. -/
def takeDecode (rank maxBatchSize : ℕ) : List DpRequest → CachePageAllocator → List DpRequest →
    List DpRequest × CachePageAllocator × List DpRequest
  | [], allocator, batch => ([], allocator, batch)
  | q :: queue, allocator, batch =>
      if batch.length < maxBatchSize then
        if q.request.dataParallelRank = rank then
          match allocator.allocateForSequence q.request.sequenceCachePages 1 with
          | .ok (allocator, slots) =>
              takeDecode rank maxBatchSize queue allocator (batch ++ [q.forwardDecode rank slots])
          | .error _ => (q :: queue, allocator, batch)
        else
          let (queue, allocator, batch) := takeDecode rank maxBatchSize queue allocator batch
          (q :: queue, allocator, batch)
      else (q :: queue, allocator, batch)

/-- The largest number of prompt tokens that a batch processes for a request. -/
def chunkBudget : ℕ := s.chunkedPrefillSize.getD usizeMax

/-- The number of prompt tokens that the next batch processes for a request. -/
def chunkLen (q : DpRequest) : ℕ :=
  min (q.matched s.prefixCache s.cacheOrigins s.pageSize).request.remainingPromptTokens
    s.chunkBudget

/-- The loop of `form_batch_for_rank` over the waiting queue.

Source: `dp_scheduler.rs`, lines 403–447. -/
def takePrefill (rank : ℕ) : List DpRequest → CachePageAllocator → List DpRequest →
    List DpRequest × CachePageAllocator × List DpRequest
  | [], allocator, batch => ([], allocator, batch)
  | q :: queue, allocator, batch =>
      if batch.length < s.maxBatchSize then
        let matched := q.matched s.prefixCache s.cacheOrigins s.pageSize
        let chunkLen := s.chunkLen q
        if chunkLen = 0 then (matched :: queue, allocator, batch)
        else
          match allocator.allocateForSequence matched.request.sequenceCachePages chunkLen with
          | .ok (allocator, slots) =>
              takePrefill rank queue allocator (batch ++ [matched.forwardPrefill rank slots chunkLen])
          | .error _ => (matched :: queue, allocator, batch)
      else (q :: queue, allocator, batch)

/-- Source: `dp_scheduler.rs`, lines 453–466. -/
def batchOf (requests : List DpRequest) : DpBatch :=
  let hasPrefill := requests.any (·.request.stage = .prefillForward)
  let hasDecode := requests.any (·.request.stage = .decodeForward)
  ⟨if hasPrefill && hasDecode then .mixed else if hasPrefill then .prefill else .decode, requests⟩

/-- Source: `dp_scheduler.rs`, lines 368–469. -/
def formBatchForRank (rank : ℕ) : Except DpSchedulerError (DpScheduler × Option DpBatch) :=
  match s.allocators[rank]? with
  | none => .error (.invalidRank rank)
  | some allocator =>
      let (decodeQueue, allocator, batch) :=
        takeDecode rank s.maxBatchSize s.decodeQueue allocator []
      let (waitingQueue, allocator, batch) := s.takePrefill rank s.waitingQueue allocator batch
      .ok ({ s with waitingQueue, decodeQueue, allocators := s.allocators.set rank allocator },
        if batch = [] then none else some (batchOf batch))

/-- The body of the loop of `step` over the idle ranks.

Source: `dp_scheduler.rs`, lines 190–195. -/
def dispatchRank (rank : ℕ) : DpScheduler × Option DpSchedulerError :=
  match s.formBatchForRank rank with
  | .error error => (s, some error)
  | .ok (s, none) => (s, none)
  | .ok (s, some batch) =>
      match s.workerPool.submitBatch rank with
      | .error error => (s, some (.workerPool error))
      | .ok (workerPool, sequence) =>
          ({ s with workerPool, runningBatches := s.runningBatches ++ [⟨sequence, rank, batch⟩] },
            none)

/-- The loop of `step` over the idle ranks. -/
def dispatchRanks : DpScheduler → List ℕ → DpScheduler × Option DpSchedulerError
  | s, [] => (s, none)
  | s, rank :: ranks =>
      match s.dispatchRank rank with
      | (s, some error) => (s, some error)
      | (s, none) => dispatchRanks s ranks

def dispatch : DpScheduler × Option DpSchedulerError := s.dispatchRanks s.workerPool.idleRanks

/-! ### Operations -/

/-- Source: `dp_scheduler.rs`, lines 163–198. -/
def step : DpScheduler × Except DpSchedulerError ℕ :=
  let (workerPool, events) := s.workerPool.pollEvents
  match { s with workerPool }.handleEvents events with
  | (s, some error) => (s, .error error)
  | (s, none) =>
      match s.dispatch with
      | (s, some error) => (s, .error error)
      | (s, none) => (s, .ok events.length)

/-- Source: `dp_scheduler.rs`, lines 200–230. -/
def stepBlocking : DpScheduler × Option (Except DpSchedulerError Unit) :=
  match s.workerPool.waitForEvent with
  | (_, none) => (s, none)
  | (workerPool, some (.error error)) => ({ s with workerPool }, some (.error (.workerPool error)))
  | (workerPool, some (.ok event)) =>
      match { s with workerPool }.handleEvent event with
      | (s, some error) => (s, some (.error error))
      | (s, none) =>
          match s.dispatch with
          | (s, some error) => (s, some (.error error))
          | (s, none) => (s, some (.ok ()))

/-- Source: `dp_scheduler.rs`, lines 104–106. -/
def enqueue (request : ScheduledRequest) : DpScheduler :=
  { s with waitingQueue := s.waitingQueue ++ [⟨request, []⟩] }

def isIdle : Bool :=
  s.waitingQueue.isEmpty && s.decodeQueue.isEmpty && s.runningBatches.isEmpty

/-- Give the slots past the prompt back to the allocator of the rank that the request is pinned to.
A rank that is out of bounds, or negative, has no allocator. -/
def releaseDecode (q : DpRequest) : DpScheduler :=
  if 0 ≤ q.request.dataParallelRank then
    s.releaseFrom q.request.dataParallelRank.toNat q q.request.inputIds.length
  else s

/-- Source: `dp_scheduler.rs`, lines 118–144. -/
def abortRequest (requestId : RequestId) : DpScheduler × Bool :=
  let aborted := s.decodeQueue.filter (·.request.requestId = requestId)
  let s' :=
    { s with
      waitingQueue := s.waitingQueue.filter (·.request.requestId ≠ requestId)
      decodeQueue := s.decodeQueue.filter (·.request.requestId ≠ requestId) }
  (aborted.foldl releaseDecode s',
    decide (s'.waitingQueue.length < s.waitingQueue.length) || !aborted.isEmpty)

/-- Source: `dp_scheduler.rs`, lines 146–151. -/
def flushCache : DpScheduler :=
  { s with
    prefixCache := {}
    cacheOrigins := {}
    allocators := s.allocators.map CachePageAllocator.reset }

/-- Give the slots of the last allocation of a waiting request back. -/
def releaseWaiting (q : DpRequest) : DpScheduler :=
  if 0 ≤ q.request.dataParallelRank then
    s.release q.request.dataParallelRank.toNat q.request.allocatedCachePages
      (q.origins.drop (q.origins.length - q.request.allocatedCachePages.length))
  else s

/-- Source: `dp_scheduler.rs`, lines 247–275. -/
def abortAllRequests : DpScheduler × ℕ :=
  let s' := { s with waitingQueue := [], decodeQueue := [] }
  (s.decodeQueue.foldl releaseDecode (s.waitingQueue.foldl releaseWaiting s'),
    s.waitingQueue.length + s.decodeQueue.length)

end DpScheduler

/-- The calls of the scheduler, and the executions of batches. A request is enqueued as it is
constructed. -/
inductive DpOperation where
  | enqueue (requestId : RequestId) (inputIds : List UInt32) (sampling : SamplingParams)
      (disaggregatedParams : Option DisaggregatedParams) (dataParallelRank : ℤ)
  | step
  | stepBlocking
  | abortRequest (requestId : RequestId)
  | abortAllRequests
  | flushCache
  | drainFinishedOutputs
  | drainStepOutputs
  | shutdown
  | complete (rank : ℕ) (result : Except WorkerExecutionError BatchGeneratedTokens)

namespace DpScheduler

variable (s : DpScheduler)

/-- The state after a call. -/
def apply : DpOperation → DpScheduler
  | .enqueue requestId inputIds sampling disaggregatedParams dataParallelRank =>
      s.enqueue (.new requestId inputIds sampling disaggregatedParams dataParallelRank)
  | .step => s.step.1
  | .stepBlocking => s.stepBlocking.1
  | .abortRequest requestId => (s.abortRequest requestId).1
  | .abortAllRequests => s.abortAllRequests.1
  | .flushCache => s.flushCache
  | .drainFinishedOutputs => { s with finishedOutputs := [] }
  | .drainStepOutputs => { s with stepOutputs := [] }
  | .shutdown => { s with workerPool := s.workerPool.shutdown }
  | .complete rank result => { s with workerPool := s.workerPool.complete rank result }

/-- The state after a sequence of calls. -/
def run (ops : List DpOperation) : DpScheduler := ops.foldl apply s

end DpScheduler

end SglangRs
