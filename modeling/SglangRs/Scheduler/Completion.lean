import SglangRs.Scheduler.Forming

/-!
# Dispatching batches and retiring requests

A formed batch is executed by the worker and its requests are completed one by one: prompt chunks
are published to the prefix cache, tokens are appended and handed back, finished requests release
their slots (`scheduler.rs`, lines 1041–1300). The other ways a request leaves the scheduler, by an
abort, a failed batch or a failed KV transfer, are modelled here as well (lines 477–543).

## Main definitions

* `Scheduler.completeRequest`, `Scheduler.completeBatch`, `Scheduler.dispatchBatch`.
* `Scheduler.stagePrefillChunkCachePages`, `Scheduler.publishPrefillChunkCachePages`.
* `Scheduler.releaseFailedBatchCachePages`, `Scheduler.releaseRequestCachePages`.
* `Scheduler.abortRequest`, `Scheduler.abortAllRequests`, `Scheduler.flushCache`,
  `Scheduler.pollTransfers`.
-/

namespace SglangRs

/-- The prefix cache after the processed part of a prompt was offered to it. -/
def RadixCache.published (c : RadixCache) (request : ScheduledRequest) (chunkEnd : ℕ) :
    RadixCache :=
  let stop := min chunkEnd request.sequenceCachePages.length
  if stop > 0 then
    match c.insert (request.inputIds.take stop) (request.sequenceCachePages.take stop) with
    | .ok c => c
    | .error _ => c
  else c

/-- **Publishing a prompt.** The prefixes of its first `k` tokens get the slots of the request. -/
theorem RadixCache.slotAt_published_eq {c : RadixCache} {request : ScheduledRequest} {k : ℕ}
    (hseq : k ≤ request.sequenceCachePages.length) (hinput : k ≤ request.inputIds.length)
    (w : List UInt32) :
    (c.published request k).slotAt w =
      if w ≠ [] ∧ w <+: request.inputIds.take k then request.sequenceCachePages[w.length - 1]?
      else c.slotAt w := by
  have hlen : (request.inputIds.take k).length = (request.sequenceCachePages.take k).length := by
    simp [hseq, hinput]
  unfold published
  rw [Nat.min_eq_left hseq]
  dsimp only
  split_ifs with hpos hw hw
  · obtain ⟨c', hc'⟩ := insert_eq_ok (c := c) hlen
    have hle : w.length ≤ k := hw.2.length_le.trans (List.length_take_le _ _)
    have hne : 0 < w.length := List.length_pos_iff.mpr hw.1
    simp only [hc']
    rw [slotAt_insert hc', if_pos hw, List.getElem?_take_of_lt (by omega)]
  · obtain ⟨c', hc'⟩ := insert_eq_ok (c := c) hlen
    simp only [hc']
    rw [slotAt_insert hc', if_neg hw]
  · obtain rfl : k = 0 := Nat.eq_zero_of_not_pos hpos
    exact absurd (List.prefix_nil.mp hw.2) hw.1
  · rfl

namespace Scheduler

variable {W : Type} (s : Scheduler W)

/-- Remove the first request with the given id from a queue. -/
def removeRequestFromQueue (requestId : RequestId) :
    List ScheduledRequest → Option (ScheduledRequest × List ScheduledRequest)
  | [] => none
  | request :: queue =>
      if request.requestId = requestId then some (request, queue)
      else (removeRequestFromQueue requestId queue).map fun (found, rest) =>
        (found, request :: rest)

/-- Insert the processed part of a prompt into the prefix cache. The source publishes an event to
its listeners here too.

Source: `scheduler.rs`, lines 1181–1208. -/
def publishPrefillChunkCachePages (request : ScheduledRequest) (chunkEnd : ℕ) : Scheduler W :=
  let stop := min chunkEnd request.sequenceCachePages.length
  if stop > 0 then
    match s.prefixCache.insert (request.inputIds.take stop)
        (request.sequenceCachePages.take stop) with
    | .ok prefixCache => { s with prefixCache }
    | .error _ => s
  else s

/-- Release the slots of the chunk a request carries.

Source: `scheduler.rs`, lines 1282–1286. -/
def releaseUnpublishedCachePages (request : ScheduledRequest) : Scheduler W :=
  s.release request.allocatedCachePages

/-- Release what a request owns when it leaves: everything if the prefix cache is disabled, the
slots past the prompt if it is enabled.

Source: `scheduler.rs`, lines 1288–1300. -/
def releaseRequestCachePages (request : ScheduledRequest) : Scheduler W :=
  match s.prefixCachePolicy with
  | .disabled => s.release request.sequenceCachePages
  | .enabled => s.release (request.sequenceCachePages.drop request.inputIds.length)

/-- The slots a request owns when it leaves. -/
def ownedSlots (request : ScheduledRequest) : List ℕ :=
  match s.prefixCachePolicy with
  | .disabled => request.sequenceCachePages
  | .enabled => request.sequenceCachePages.drop request.inputIds.length

theorem releaseRequestCachePages_eq (request : ScheduledRequest) :
    s.releaseRequestCachePages request = s.release (s.ownedSlots request) := by
  unfold releaseRequestCachePages ownedSlots
  cases s.prefixCachePolicy <;> rfl

/-- Publishing a prompt changes nothing but the prefix cache. -/
theorem publishPrefillChunkCachePages_eq (request : ScheduledRequest) (chunkEnd : ℕ) :
    s.publishPrefillChunkCachePages request chunkEnd =
      { s with prefixCache := s.prefixCache.published request chunkEnd } := by
  unfold RadixCache.published publishPrefillChunkCachePages
  dsimp only
  split_ifs
  · cases s.prefixCache.insert (request.inputIds.take (min chunkEnd
      request.sequenceCachePages.length)) (request.sequenceCachePages.take (min chunkEnd
      request.sequenceCachePages.length)) <;> rfl
  · rfl

/-- Source: `scheduler.rs`, lines 1267–1280. -/
def releasePendingPrefixCacheInsert (requestId : RequestId) : Scheduler W :=
  match removeRequestFromQueue requestId s.pendingPrefixCacheInserts with
  | none => s
  | some (request, pending) =>
      { s with pendingPrefixCacheInserts := pending }.releaseUnpublishedCachePages request

/-- Forget the prefix cache and free every page, if no request is queued.

Source: `scheduler.rs`, lines 533–545. -/
def flushCache : Scheduler W × Bool :=
  if ¬s.waitingQueue.isEmpty ∨ ¬s.decodeQueue.isEmpty then (s, false)
  else
    ({ s with
        prefixCache := s.prefixCache.clear
        pendingPrefixCacheInserts := []
        cachePageAllocator := s.cachePageAllocator.map CachePageAllocator.reset }, true)

variable [WorkerExecutor W]

/-! ### Completing a batch -/

/-- Offer a completed prompt chunk to the prefix cache. The slots of a disaggregated request are
published once their transfer is done.

Source: `scheduler.rs`, lines 1149–1179. -/
def stagePrefillChunkCachePages (request : ScheduledRequest) (chunkEnd : ℕ) :
    Scheduler W × Except SchedulerError Unit :=
  if s.prefixCachePolicy = .disabled ∨ request.skipsRadixCacheInsert then (s, .ok ())
  else if request.disaggregatedParams.isSome then
    match WorkerExecutor.decodeRequestState s.worker request with
    | (worker, .error error) => ({ s with worker }, .error (.worker error))
    | (worker, .ok .ready) =>
        ({ s with worker }.publishPrefillChunkCachePages request chunkEnd, .ok ())
    | (worker, .ok .pending) =>
        ({ s with
            worker
            pendingPrefixCacheInserts := s.pendingPrefixCacheInserts ++ [request] }, .ok ())
    | (worker, .ok (.failed message)) =>
        ({ s with worker }, .error (.worker (.runtime message)))
  else (s.publishPrefillChunkCachePages request chunkEnd, .ok ())

def scheduledOutput (request : ScheduledRequest) (generated : GeneratedToken) (finished : Bool) :
    ScheduledOutput where
  requestId := request.requestId
  tokenIds := generated.tokenIds
  cachedTokens := request.cacheHitTokenCount
  finished := finished

/-- The progress of the loop of `complete_batch`. -/
structure Completion (W : Type) where
  scheduler : Scheduler W
  outputs : List ScheduledOutput
  completionError : Option SchedulerError

/-- Append the generated token to a request whose prompt is processed, and retire the request or
queue it for its next token. -/
def recordGeneratedToken (c : Completion W) (request : ScheduledRequest)
    (generated : GeneratedToken) : Completion W :=
  let s := c.scheduler
  let request := request.appendOutputIds generated.tokenIds
  let finished := generated.finished || request.reachedMaxNewTokens
  if finished then
    let request := request.setStage .finished
    match WorkerExecutor.finishRequest s.worker request with
    | (worker, .error error) =>
        { c with
          scheduler := { s with worker, decodeQueue := s.decodeQueue ++ [request] }
          completionError := some (.worker error) }
    | (worker, .ok ()) =>
        { c with
          scheduler := { s with worker }.releaseRequestCachePages request
          outputs := c.outputs ++ [scheduledOutput request generated finished] }
  else
    let request := request.clearForwardChunkTracking.setStage .decodeWaiting
    { c with
      scheduler := { s with decodeQueue := s.decodeQueue ++ [request] }
      outputs := c.outputs ++ [scheduledOutput request generated finished] }

/-- Whether `complete_batch` treats a request as a prompt chunk. -/
def isPrefillForward (forwardMode : ForwardMode) (request : ScheduledRequest) : Bool :=
  request.stage = .prefillForward || (forwardMode = .prefill && request.outputIds.isEmpty)

/-- The length of the chunk a request was forwarded with. -/
def forwardedChunkLen (request : ScheduledRequest) : ℕ :=
  if request.currentChunkLen > 0 then request.currentChunkLen else request.uncachedInputIds.length

/-- The body of the loop of `complete_batch`.

Source: `scheduler.rs`, lines 1064–1111. -/
def completeRequest (forwardMode : ForwardMode) (c : Completion W)
    (item : ScheduledRequest × GeneratedToken) : Completion W :=
  let (request, generated) := item
  if isPrefillForward forwardMode request then
    let request := request.advancePromptTokens (forwardedChunkLen request)
    match c.scheduler.stagePrefillChunkCachePages request request.promptTokensProcessed with
    | (s, .error error) =>
        { c with
          scheduler := { s with decodeQueue := s.decodeQueue ++ [request] }
          completionError := some error }
    | (s, .ok ()) =>
        if ¬request.isPrefillComplete then
          let request := request.clearForwardChunkTracking.setStage .prefillWaiting
          { c with scheduler := { s with waitingQueue := request :: s.waitingQueue } }
        else recordGeneratedToken { c with scheduler := s } request generated
  else recordGeneratedToken c request generated

/-- Retire an executed batch. A completion error replaces the outputs of the whole batch.

Source: `scheduler.rs`, lines 1041–1114. -/
def completeBatch (batch : ScheduleBatch) (generated : BatchGeneratedTokens) :
    Scheduler W × Except SchedulerError (List ScheduledOutput) :=
  if batch.requests.length ≠ generated.tokens.length then
    ({ s with decodeQueue := s.decodeQueue ++ batch.requests },
      .error (.worker (.output
        (.batchSizeMismatch batch.requests.length generated.tokens.length))))
  else
    let c := (batch.requests.zip generated.tokens).foldl (completeRequest batch.forwardMode)
      ⟨s, [], none⟩
    (c.scheduler,
      match c.completionError with
      | none => .ok c.outputs
      | some error => .error error)

/-- The body of the loop of `release_failed_batch_cache_pages`. -/
def releaseFailedRequest (state : Scheduler W × Option WorkerExecutionError)
    (request : ScheduledRequest) : Scheduler W × Option WorkerExecutionError :=
  let (s, cleanupError) := state
  match WorkerExecutor.finishRequest s.worker request with
  | (worker, .error error) =>
      ({ s with worker, decodeQueue := s.decodeQueue ++ [request] }, some error)
  | (worker, .ok ()) =>
      let s := { s with worker }.release request.allocatedCachePages
      ({ s with worker := WorkerExecutor.failRequest s.worker request }, cleanupError)

/-- Clean up after a batch the worker could not execute.

Source: `scheduler.rs`, lines 1130–1147. -/
def releaseFailedBatchCachePages (batch : ScheduleBatch) :
    Scheduler W × Except SchedulerError Unit :=
  let (s, cleanupError) := batch.requests.foldl releaseFailedRequest (s, none)
  (s,
    match cleanupError with
    | none => .ok ()
    | some error => .error (.worker error))

/-- Source: `scheduler.rs`, lines 1116–1128. -/
def dispatchBatch (batch : ScheduleBatch) :
    Scheduler W × Except SchedulerError (List ScheduledOutput) :=
  match WorkerExecutor.executeBatch s.worker batch with
  | (worker, .ok generated) => { s with worker }.completeBatch batch generated
  | (worker, .error error) =>
      match { s with worker }.releaseFailedBatchCachePages batch with
      | (s, .error cleanup) => (s, .error cleanup)
      | (s, .ok ()) => (s, .error (.worker error))

/-- Form a batch and dispatch it. -/
def dispatchFormed (formed : Scheduler W × Except SchedulerError ScheduleBatch) :
    Scheduler W × Except SchedulerError (List ScheduledOutput) :=
  match formed with
  | (s, .error error) => (s, .error error)
  | (s, .ok batch) => s.dispatchBatch batch

def dispatchPrefillBatchWithTokenBudget (maxBatchSize maxUncachedTokens : ℕ) :
    Scheduler W × Except SchedulerError (List ScheduledOutput) :=
  dispatchFormed (s.nextPrefillBatchWithTokenBudget maxBatchSize maxUncachedTokens)

def dispatchPrefillBatch (maxBatchSize : ℕ) :
    Scheduler W × Except SchedulerError (List ScheduledOutput) :=
  s.dispatchPrefillBatchWithTokenBudget maxBatchSize usizeMax

def dispatchDecodeBatch (maxBatchSize : ℕ) :
    Scheduler W × Except SchedulerError (List ScheduledOutput) :=
  dispatchFormed (s.nextDecodeBatchWithWorkerReadyCheck maxBatchSize)

def dispatchDecodeBatchWithReadyCheck (maxBatchSize : ℕ)
    (isReady : ℕ → ScheduledRequest → Bool) :
    Scheduler W × Except SchedulerError (List ScheduledOutput) :=
  dispatchFormed (s.nextDecodeBatchWithReadyCheck maxBatchSize isReady)

def dispatchMixedBatch (maxBatchSize tokenBudget : ℕ) :
    Scheduler W × Except SchedulerError (List ScheduledOutput) :=
  dispatchFormed (s.nextMixedBatch maxBatchSize tokenBudget)

/-! ### Aborts -/

/-- Abort one request. A request whose cleanup fails goes to the head of its queue.

Source: `scheduler.rs`, lines 477–500. -/
def abortRequest (requestId : RequestId) : Scheduler W × Bool :=
  match removeRequestFromQueue requestId s.waitingQueue with
  | some (request, waitingQueue) =>
      match WorkerExecutor.finishRequest s.worker request with
      | (worker, .error _) => ({ s with worker, waitingQueue := request :: waitingQueue }, false)
      | (worker, .ok ()) => ({ s with worker, waitingQueue }.releaseRequestCachePages request, true)
  | none =>
      match removeRequestFromQueue requestId s.decodeQueue with
      | some (request, decodeQueue) =>
          match WorkerExecutor.finishRequest s.worker request with
          | (worker, .error _) => ({ s with worker, decodeQueue := request :: decodeQueue }, false)
          | (worker, .ok ()) =>
              let s := { s with worker, decodeQueue }
              ((s.releasePendingPrefixCacheInsert requestId).releaseRequestCachePages request, true)
      | none => (s, false)

/-- Abort the requests with the given ids, counting those aborted. -/
def abortRequests (state : Scheduler W × ℕ) (requestId : RequestId) : Scheduler W × ℕ :=
  match state.1.abortRequest requestId with
  | (s, aborted) => (s, if aborted then state.2 + 1 else state.2)

/-- The loop of `abort_all_requests` over the pending inserts. -/
def abortPendingInsert (state : Scheduler W × ℕ) (request : ScheduledRequest) : Scheduler W × ℕ :=
  let (s, aborted) := state
  match WorkerExecutor.finishRequest s.worker request with
  | (worker, .error _) =>
      ({ s with
          worker
          pendingPrefixCacheInserts := s.pendingPrefixCacheInserts ++ [request] }, aborted)
  | (worker, .ok ()) => ({ s with worker }.releaseUnpublishedCachePages request, aborted + 1)

/-- Source: `scheduler.rs`, lines 502–523. -/
def abortAllRequests : Scheduler W × ℕ :=
  let ids := (s.waitingQueue ++ s.decodeQueue).map ScheduledRequest.requestId
  let (s, aborted) := ids.foldl abortRequests (s, 0)
  s.pendingPrefixCacheInserts.foldl abortPendingInsert
    ({ s with pendingPrefixCacheInserts := [] }, aborted)

/-- Source: `scheduler.rs`, lines 814–829. -/
def shutdown : Scheduler W × Except WorkerExecutionError ℕ :=
  let (s, abortedRequests) := s.abortAllRequests
  if ¬s.waitingQueue.isEmpty ∨ ¬s.decodeQueue.isEmpty ∨ ¬s.pendingPrefixCacheInserts.isEmpty then
    (s, .error (.runtime
      "cannot release KV memory: request transfer cancellation has not drained"))
  else
    match WorkerExecutor.shutdown s.worker with
    | (worker, .error error) => ({ s with worker }, .error error)
    | (worker, .ok ()) => ({ s with worker }, .ok abortedRequests)

/-! ### Transfers -/

/-- Drop a pending insert whose transfer failed, and its request if it waits for a token.

Source: `scheduler.rs`, lines 1255–1265. -/
def releaseFailedPendingPrefixCache (request : ScheduledRequest) : Scheduler W :=
  match WorkerExecutor.finishRequest s.worker request with
  | (worker, .error _) =>
      { s with
        worker
        pendingPrefixCacheInserts := s.pendingPrefixCacheInserts ++ [request] }
  | (worker, .ok ()) =>
      let s := { s with worker }.releaseUnpublishedCachePages request
      match removeRequestFromQueue request.requestId s.decodeQueue with
      | none => { s with worker := WorkerExecutor.completeRequest s.worker request }
      | some (request, decodeQueue) =>
          { s with decodeQueue, worker := WorkerExecutor.completeRequest s.worker request }

/-- The loop of `reconcile_pending_prefix_cache_inserts`. An error of the worker returns at once and
drops the inserts not yet looked at. -/
def reconcilePending : (pending : List ScheduledRequest) → (s : Scheduler W) →
    Scheduler W × Except KvCacheTransferError Unit
  | [], s => (s, .ok ())
  | request :: pending, s =>
      match WorkerExecutor.decodeRequestState s.worker request with
      | (worker, .error error) => ({ s with worker }, .error (.runtime error.display))
      | (worker, .ok .ready) =>
          reconcilePending pending
            ({ s with worker }.publishPrefillChunkCachePages request
              request.promptTokensProcessed)
      | (worker, .ok .pending) =>
          reconcilePending pending
            { s with
              worker
              pendingPrefixCacheInserts := s.pendingPrefixCacheInserts ++ [request] }
      | (worker, .ok (.failed _)) =>
          reconcilePending pending ({ s with worker }.releaseFailedPendingPrefixCache request)

/-- Source: `scheduler.rs`, lines 1235–1253. -/
def reconcilePendingPrefixCacheInserts : Scheduler W × Except KvCacheTransferError Unit :=
  reconcilePending s.pendingPrefixCacheInserts { s with pendingPrefixCacheInserts := [] }

/-- Source: `scheduler.rs`, lines 1222–1233. -/
def pollTransfers : Scheduler W × Except KvCacheTransferError KvTransferPollSummary :=
  match WorkerExecutor.pollTransfers s.worker with
  | (worker, result) =>
      match { s with worker }.reconcilePendingPrefixCacheInserts with
      | (s, .error error) => (s, .error error)
      | (s, .ok ()) => (s, result)

end Scheduler

end SglangRs
