import SglangRs.Scheduler.Request

/-!
# Forming batches

The scheduler keeps a queue of requests waiting for their prompt to be forwarded and a queue of
requests waiting for their next token. This file models how it forms a batch from them
(`scheduler.rs`, lines 329–1017): a prefill batch under a token budget, a decode batch of ready
requests, and a mixed batch.

Each former pops requests one at a time, looks up cached prefixes and allocates slots, and stops at
the first obstacle. The loops are modelled by the `scan` functions, which consume the queue and
report how they stopped; what the source does at that point, rolling back included, follows in the
function of the source's name.

## Main definitions

* `Scheduler`: the state of the scheduler over a worker.
* `Scheduler.preparePrefillRequestChunk`, `Scheduler.prepareDecodeRequest`: one request.
* `Scheduler.nextPrefillBatchWithTokenBudget`, `Scheduler.nextDecodeBatchWithReadyCheck`,
  `Scheduler.nextDecodeBatchWithWorkerReadyCheck`, `Scheduler.nextMixedBatch`: the formers.
-/

namespace SglangRs

/-- The scheduler. The event publisher, which only receives notifications, is left out. -/
structure Scheduler (W : Type) where
  waitingQueue : List ScheduledRequest
  decodeQueue : List ScheduledRequest
  prefixCache : RadixCache
  prefixCachePolicy : PrefixCachePolicy
  pendingPrefixCacheInserts : List ScheduledRequest
  cachePageAllocator : Option CachePageAllocator
  maxRunningRequests : Option ℕ
  chunkedPrefillSize : Option ℕ
  worker : W

/-- The state in which a loop over a queue stopped, the requests it put in the batch, and why it
stopped. -/
structure Scan (W E : Type) where
  scheduler : Scheduler W
  requests : List ScheduledRequest
  exit : E

/-- Why the loop of `next_prefill_batch_with_token_budget` stopped: the batch is full or the queue
empty; the last request prepared exceeds the token budget; it could not be prepared. -/
inductive PrefillExit where
  | done
  | overBudget (request : ScheduledRequest)
  | failed (request : ScheduledRequest) (error : SchedulerError)

/-- The answer to the question whether the request at the head of the decode queue can run. -/
inductive ProbeAnswer where
  | ready
  | notReady
  | failed (error : SchedulerError)

/-- Why a decode loop stopped: the batch is full or the queue empty; the request at the head is not
ready; asking about it failed; no slot could be allocated for the request taken. -/
inductive DecodeExit where
  | done
  | notReady (request : ScheduledRequest)
  | probeFailed (error : SchedulerError)
  | failed (request : ScheduledRequest) (error : SchedulerError)

/-- Why the loop of `next_mixed_batch` over the waiting queue stopped. -/
inductive PiggybackExit where
  | done
  | failed (request : ScheduledRequest) (error : SchedulerError)

namespace Scheduler

variable {W : Type}

/-- A scheduler with an empty prefix cache over the given allocator, as the server builds it.

Source: `scheduler.rs`, lines 408–448. -/
def withCacheResourcesAndPolicy (worker : W) (cachePageAllocator : CachePageAllocator)
    (prefixCachePolicy : PrefixCachePolicy) (chunkedPrefillSize maxRunningRequests : Option ℕ) :
    Scheduler W where
  waitingQueue := []
  decodeQueue := []
  prefixCache := {}
  prefixCachePolicy := prefixCachePolicy
  pendingPrefixCacheInserts := []
  cachePageAllocator := some cachePageAllocator
  maxRunningRequests := maxRunningRequests
  chunkedPrefillSize := chunkedPrefillSize
  worker := worker

variable (s : Scheduler W)

def enqueue (request : ScheduledRequest) : Scheduler W :=
  { s with waitingQueue := s.waitingQueue ++ [request] }

/-- The page size of the allocator, `1` without one. -/
def pageSize : ℕ :=
  match s.cachePageAllocator with
  | none => 1
  | some allocator => allocator.pageSize

/-- Allocate slots that continue a sequence; without an allocator there are none to record. -/
def allocateForSequence (sequenceSlots : List ℕ) (slotCount : ℕ) :
    Except CacheAllocationError (Scheduler W × List ℕ) :=
  match s.cachePageAllocator with
  | none => .ok (s, [])
  | some allocator =>
      match allocator.allocateForSequence sequenceSlots slotCount with
      | .error error => .error error
      | .ok (allocator', slots) => .ok ({ s with cachePageAllocator := some allocator' }, slots)

/-- Release slots to the allocator, if there is one. -/
def release (slots : List ℕ) : Scheduler W :=
  { s with cachePageAllocator := s.cachePageAllocator.map fun allocator => allocator.release slots }

/-- Source: `scheduler.rs`, lines 610–623. -/
def remainingRunningRequestCapacity : Except SchedulerError ℕ :=
  match s.maxRunningRequests with
  | none => .ok usizeMax
  | some maxRunningRequests =>
      let remaining := maxRunningRequests - s.decodeQueue.length
      if remaining = 0 then .error (.runningRequestLimitReached maxRunningRequests)
      else .ok remaining

/-! ### Preparing one request -/

/-- The cached prefix of a prompt, in whole pages; nothing if the prefix cache is disabled. -/
def lookupPrefix (inputIds : List UInt32) : PrefixMatch :=
  match s.prefixCachePolicy with
  | .enabled => s.prefixCache.matchPrefixPageAligned inputIds s.pageSize
  | .disabled => ⟨0, [], inputIds⟩

/-- Attach the cached prefix to a request none of whose prompt has been processed. A plain request
whose whole prompt is cached replays its last token in the slot cached for it; the flag says so.

Source: `scheduler.rs`, lines 636–681. -/
def attachPrefixMatch (request : ScheduledRequest) : ScheduledRequest × Bool :=
  let prefixMatch := s.lookupPrefix request.inputIds
  if request.disaggregatedParams = none ∧ request.inputIds ≠ [] ∧
      prefixMatch.remainingInputIds = [] then
    -- both `expect`s of the source hold: a fully matched non-empty prompt has a last slot
    let replayCachePage := prefixMatch.cachePages.getLast?.getD 0
    let shortened : PrefixMatch :=
      { matchedTokenCount := prefixMatch.matchedTokenCount - 1
        cachePages := prefixMatch.cachePages.dropLast
        remainingInputIds := prefixMatch.remainingInputIds ++ request.inputIds.getLast?.toList }
    ({ request with
        forwardCachePages := [replayCachePage]
        cacheHitTokenCount := prefixMatch.matchedTokenCount
        promptTokensProcessed := shortened.matchedTokenCount
        prefixMatch := shortened
        sequenceCachePages := shortened.cachePages ++ [replayCachePage] }, true)
  else
    ({ request with
        cacheHitTokenCount := prefixMatch.matchedTokenCount
        promptTokensProcessed := prefixMatch.matchedTokenCount
        prefixMatch := prefixMatch
        sequenceCachePages := prefixMatch.cachePages }, false)

/-- Prepare the next chunk of a prompt, at most `maxChunkTokens` long. On an error the request keeps
the prefix attached to it.

Source: `scheduler.rs`, lines 625–698. -/
def preparePrefillRequestChunk (request : ScheduledRequest) (maxChunkTokens : ℕ) :
    Scheduler W × ScheduledRequest × Except SchedulerError Unit :=
  let (request, replayed) :=
    if request.promptTokensProcessed = 0 then s.attachPrefixMatch request else (request, false)
  if replayed then
    (s, { request with currentChunkLen := 1, stage := .prefillForward }, .ok ())
  else
    let chunkLen := min request.remainingPromptTokens maxChunkTokens
    match s.allocateForSequence request.sequenceCachePages chunkLen with
    | .error error => (s, request, .error (.cacheAllocation error))
    | .ok (s, slots) =>
        (s, { request.recordAllocation slots with
                currentChunkLen := chunkLen, stage := .prefillForward }, .ok ())

/-- Allocate the slot of the next token of a request.

Source: `scheduler.rs`, lines 772–788. -/
def prepareDecodeRequest (request : ScheduledRequest) :
    Scheduler W × ScheduledRequest × Except SchedulerError Unit :=
  match s.allocateForSequence request.sequenceCachePages 1 with
  | .error error => (s, request, .error (.cacheAllocation error))
  | .ok (s, slots) => (s, request.recordAllocation slots, .ok ())

/-- A prepared request put back at the head of the waiting queue, its slots released. -/
def undoPrefill (request : ScheduledRequest) : Scheduler W :=
  let s := s.release request.allocatedCachePages
  { s with
    waitingQueue :=
      request.clearForwardCacheAllocation.setStage .prefillWaiting :: s.waitingQueue }

/-- Put back the requests of a prefill batch that could not be completed.

Source: `scheduler.rs`, lines 700–720. -/
def restoreFailedPrefillAttempt (preparedRequests : List ScheduledRequest)
    (failedRequest : ScheduledRequest) : Scheduler W :=
  let s := s.release failedRequest.allocatedCachePages
  let s := preparedRequests.foldl (fun s request => s.release request.allocatedCachePages) s
  { s with
    waitingQueue :=
      preparedRequests.map (fun request =>
        request.clearForwardCacheAllocation.setStage .prefillWaiting) ++
      failedRequest.clearForwardCacheAllocation.setStage .prefillWaiting :: s.waitingQueue }

/-- Put back the requests of a decode batch that could not be completed.

Source: `scheduler.rs`, lines 790–807. -/
def restoreFailedDecodeAttempt (preparedRequests : List ScheduledRequest)
    (failedRequest : ScheduledRequest) : Scheduler W :=
  let s := preparedRequests.foldl (fun s request => s.release request.allocatedCachePages) s
  { s with
    decodeQueue :=
      preparedRequests.map (fun request =>
        request.clearForwardCacheAllocation.setStage .decodeWaiting) ++
      failedRequest :: s.decodeQueue }

/-! ### Prefill batches -/

/-- The loop of `next_prefill_batch_with_token_budget` over the waiting queue, which is `queue`
throughout. -/
def scanPrefill (maxBatchSize maxUncachedTokens chunkBudget : ℕ) :
    (queue : List ScheduledRequest) → (s : Scheduler W) → (requests : List ScheduledRequest) →
      (uncachedTokenCount : ℕ) → Scan W PrefillExit
  | [], s, requests, _ => ⟨s, requests, .done⟩
  | request :: queue, s, requests, uncachedTokenCount =>
      if requests.length < maxBatchSize then
        match { s with waitingQueue := queue }.preparePrefillRequestChunk request chunkBudget with
        | (s, request, .error error) => ⟨s, requests, .failed request error⟩
        | (s, request, .ok ()) =>
            if requests ≠ [] ∧
                uncachedTokenCount + request.currentChunkLen > maxUncachedTokens then
              ⟨s, requests, .overBudget request⟩
            else
              scanPrefill maxBatchSize maxUncachedTokens chunkBudget queue s
                (requests ++ [request]) (uncachedTokenCount + request.currentChunkLen)
      else ⟨s, requests, .done⟩

/-- The end of `next_prefill_batch_with_token_budget`: one request is forwarded in any case. -/
def closePrefillBatch (requests : List ScheduledRequest) (chunkBudget : ℕ) :
    Scheduler W × Except SchedulerError ScheduleBatch :=
  if requests.isEmpty then
    match s.waitingQueue with
    | [] => (s, .error .emptyQueue)
    | request :: queue =>
        match { s with waitingQueue := queue }.preparePrefillRequestChunk request chunkBudget with
        | (s, request, .error error) =>
            ({ s with waitingQueue := request :: s.waitingQueue }, .error error)
        | (s, request, .ok ()) => (s, .ok (.prefill [request]))
  else (s, .ok (.prefill requests))

/-- Source: `scheduler.rs`, lines 554–608. -/
def nextPrefillBatchWithTokenBudget (maxBatchSize maxUncachedTokens : ℕ) :
    Scheduler W × Except SchedulerError ScheduleBatch :=
  if s.waitingQueue.isEmpty ∨ maxBatchSize = 0 then (s, .error .emptyQueue)
  else
    match s.remainingRunningRequestCapacity with
    | .error error => (s, .error error)
    | .ok remaining =>
        let chunkBudget := s.chunkedPrefillSize.getD usizeMax
        let scan := scanPrefill (min maxBatchSize remaining) maxUncachedTokens chunkBudget
          s.waitingQueue s [] 0
        match scan.exit with
        | .failed request error =>
            (scan.scheduler.restoreFailedPrefillAttempt scan.requests request, .error error)
        | .overBudget request =>
            (scan.scheduler.undoPrefill request).closePrefillBatch scan.requests chunkBudget
        | .done => scan.scheduler.closePrefillBatch scan.requests chunkBudget

/-! ### Decode batches -/

/-- The loops over the decode queue, which is `queue` throughout: take up to `limit` requests as
long as the one at the head is ready. The probe is told how many questions were asked before. -/
def scanDecode (probe : W → ℕ → ScheduledRequest → W × ProbeAnswer) (limit : ℕ) :
    (queue : List ScheduledRequest) → (s : Scheduler W) → (requests : List ScheduledRequest) →
      Scan W DecodeExit
  | [], s, requests => ⟨s, requests, .done⟩
  | request :: queue, s, requests =>
      if requests.length < limit then
        match probe s.worker requests.length request with
        | (worker, .failed error) => ⟨{ s with worker }, requests, .probeFailed error⟩
        | (worker, .notReady) => ⟨{ s with worker }, requests, .notReady request⟩
        | (worker, .ready) =>
            match { s with worker, decodeQueue := queue }.prepareDecodeRequest request with
            | (s, request, .error error) => ⟨s, requests, .failed request error⟩
            | (s, request, .ok ()) =>
                scanDecode probe limit queue s (requests ++ [request.setStage .decodeForward])
      else ⟨s, requests, .done⟩

/-- The decode formers, which differ in the probe only. A failed probe returns at once: the
requests already taken are dropped. -/
def nextDecodeBatchWith (probe : W → ℕ → ScheduledRequest → W × ProbeAnswer) (maxBatchSize : ℕ) :
    Scheduler W × Except SchedulerError ScheduleBatch :=
  if s.decodeQueue.isEmpty ∨ maxBatchSize = 0 then (s, .error .emptyQueue)
  else
    let scan := scanDecode probe (min maxBatchSize s.decodeQueue.length) s.decodeQueue s []
    match scan.exit with
    | .done => (scan.scheduler, .ok (.decode scan.requests))
    | .notReady request =>
        if scan.requests.isEmpty then (scan.scheduler, .error (.decodeNotReady request.requestId))
        else (scan.scheduler, .ok (.decode scan.requests))
    | .probeFailed error => (scan.scheduler, .error error)
    | .failed request error =>
        (scan.scheduler.restoreFailedDecodeAttempt scan.requests request, .error error)

/-- The probe of a caller's closure, which may depend on how often it was called. -/
def closureProbe (isReady : ℕ → ScheduledRequest → Bool) (worker : W) (calls : ℕ)
    (request : ScheduledRequest) : W × ProbeAnswer :=
  (worker, if isReady calls request then .ready else .notReady)

/-- Source: `scheduler.rs`, lines 729–770. -/
def nextDecodeBatchWithReadyCheck (maxBatchSize : ℕ) (isReady : ℕ → ScheduledRequest → Bool) :
    Scheduler W × Except SchedulerError ScheduleBatch :=
  s.nextDecodeBatchWith (closureProbe isReady) maxBatchSize

variable [WorkerExecutor W]

/-- The probe that asks the worker. -/
def workerProbe (worker : W) (_ : ℕ) (request : ScheduledRequest) : W × ProbeAnswer :=
  match WorkerExecutor.decodeRequestState worker request with
  | (worker, .error error) => (worker, .failed (.worker error))
  | (worker, .ok .ready) => (worker, .ready)
  | (worker, .ok .pending) => (worker, .notReady)
  | (worker, .ok (.failed message)) => (worker, .failed (.worker (.runtime message)))

/-- Source: `scheduler.rs`, lines 866–912. -/
def nextDecodeBatchWithWorkerReadyCheck (maxBatchSize : ℕ) :
    Scheduler W × Except SchedulerError ScheduleBatch :=
  s.nextDecodeBatchWith workerProbe maxBatchSize

/-! ### Mixed batches -/

/-- The loop of `next_mixed_batch` that adds prompt chunks to a batch, over the waiting queue
`queue`. A request for which there are no slots goes back to the queue and ends the loop. -/
def scanPiggyback (maxBatchSize tokenBudget chunkBudget : ℕ) :
    (queue : List ScheduledRequest) → (s : Scheduler W) → (requests : List ScheduledRequest) →
      (tokensUsed : ℕ) → Scan W PiggybackExit
  | [], s, requests, _ => ⟨s, requests, .done⟩
  | request :: queue, s, requests, tokensUsed =>
      if requests.length < maxBatchSize ∧ tokensUsed < tokenBudget ∧
          min chunkBudget (tokenBudget - tokensUsed) ≠ 0 then
        match { s with waitingQueue := queue }.preparePrefillRequestChunk request
            (min chunkBudget (tokenBudget - tokensUsed)) with
        | (s, request, .error (.cacheAllocation (.outOfSlots _ _))) =>
            ⟨{ s with waitingQueue := request :: s.waitingQueue }, requests, .done⟩
        | (s, request, .error error) => ⟨s, requests, .failed request error⟩
        | (s, request, .ok ()) =>
            if request.currentChunkLen = 0 then ⟨s, requests ++ [request], .done⟩
            else
              scanPiggyback maxBatchSize tokenBudget chunkBudget queue s (requests ++ [request])
                (tokensUsed + request.currentChunkLen)
      else ⟨s, requests, .done⟩

/-- The forward mode of a batch, read off the stages of its requests. -/
def mixedBatch (requests : List ScheduledRequest) : ScheduleBatch :=
  let hasPrefill := requests.any fun r => r.stage = .prefillForward
  let hasDecode := requests.any fun r => r.stage = .decodeForward
  if hasPrefill && hasDecode then .mixed requests
  else if hasPrefill then .prefill requests
  else .decode requests

/-- The prefill half of `next_mixed_batch`, after `requests` decode requests were taken. -/
def addPrefillChunks (requests : List ScheduledRequest) (maxBatchSize tokenBudget : ℕ) :
    Scheduler W × Except SchedulerError ScheduleBatch :=
  let scan := scanPiggyback maxBatchSize tokenBudget (s.chunkedPrefillSize.getD usizeMax)
    s.waitingQueue s requests requests.length
  match scan.exit with
  | .failed request error =>
      (scan.scheduler.restoreFailedPrefillAttempt scan.requests request, .error error)
  | .done =>
      if scan.requests.isEmpty then (scan.scheduler, .error .emptyQueue)
      else (scan.scheduler, .ok (mixedBatch scan.requests))

/-- Runnable decode requests first, one token each, then prompt chunks.

Source: `scheduler.rs`, lines 914–1017. -/
def nextMixedBatch (maxBatchSize tokenBudget : ℕ) :
    Scheduler W × Except SchedulerError ScheduleBatch :=
  if (s.decodeQueue.isEmpty ∧ s.waitingQueue.isEmpty) ∨ maxBatchSize = 0 then
    (s, .error .emptyQueue)
  else
    let scan := scanDecode workerProbe (min maxBatchSize tokenBudget) s.decodeQueue s []
    match scan.exit with
    | .probeFailed error => (scan.scheduler, .error error)
    | .failed request error =>
        (scan.scheduler.restoreFailedDecodeAttempt scan.requests request, .error error)
    | .done | .notReady _ =>
        scan.scheduler.addPrefillChunks scan.requests maxBatchSize tokenBudget

end Scheduler

end SglangRs
