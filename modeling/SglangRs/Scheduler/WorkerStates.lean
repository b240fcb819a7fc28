import SglangRs.Scheduler.Atomicity

/-!
# What the scheduler asks of its worker

The scheduler asks its worker about requests, tells it which are finished, and has it execute
batches. A property of the worker's state that answering a question and cleaning up after a request
keep is kept by every operation but the execution of a batch.

## Main definitions

* `WorkerExecutor.Keeps`: a property that every method keeps that executes nothing.
* `WorkerExecutor.Finishes`: the clean-up after a request never fails.

## Main results

* `Keeps.form`, `Keeps.step`: forming a batch and the operations that dispatch none keep it.
* `Keeps.completeBatch`, `Keeps.releaseFailedBatch`: so does what follows the execution of a batch.
* `Finishes.recordGeneratedToken`, `Finishes.releaseFailedBatch`: what that leaves of the queues.
* `Finishes.exists_completeBatch_eq`: a batch of plain requests is completed without an error.
-/

namespace SglangRs

open Scheduler

variable {W : Type} [WorkerExecutor W]

/-- A property of worker states that every method keeps that executes nothing. -/
structure WorkerExecutor.Keeps (K : W → Prop) : Prop where
  decodeRequestState : ∀ worker request, K worker →
    K (WorkerExecutor.decodeRequestState worker request).1
  pollTransfers : ∀ worker, K worker → K (WorkerExecutor.pollTransfers worker).1
  completeRequest : ∀ worker request, K worker → K (WorkerExecutor.completeRequest worker request)
  finishRequest : ∀ worker request, K worker → K (WorkerExecutor.finishRequest worker request).1
  failRequest : ∀ worker request, K worker → K (WorkerExecutor.failRequest worker request)

/-! ### Forming a batch -/

section Worker

variable {s s' : Scheduler W} {r r' : ScheduledRequest}

omit [WorkerExecutor W] in
theorem worker_of_preparePrefillRequestChunk {k : ℕ} {result : Except SchedulerError Unit}
    (h : s.preparePrefillRequestChunk r k = (s', r', result)) : s'.worker = s.worker := by
  obtain ⟨allocator, rfl⟩ := eq_with_allocator_of_preparePrefillRequestChunk h
  rfl

omit [WorkerExecutor W] in
theorem worker_of_prepareDecodeRequest {result : Except SchedulerError Unit}
    (h : s.prepareDecodeRequest r = (s', r', result)) : s'.worker = s.worker := by
  obtain ⟨allocator, rfl⟩ := eq_with_allocator_of_prepareDecodeRequest h
  rfl

omit [WorkerExecutor W] in
theorem worker_scanPrefill (m u k : ℕ) (queue : List ScheduledRequest) (s : Scheduler W)
    (requests : List ScheduledRequest) (n : ℕ) :
    (scanPrefill m u k queue s requests n).scheduler.worker = s.worker := by
  induction queue generalizing s requests n with
  | nil => rfl
  | cons r queue ih =>
    unfold scanPrefill
    split
    case isFalse => rfl
    case isTrue =>
      split
      case h_1 s' r' error hp => exact (worker_of_preparePrefillRequestChunk hp).trans rfl
      case h_2 s' r' hp =>
        have hworker := (worker_of_preparePrefillRequestChunk hp).trans
          (rfl : _ = s.worker)
        split_ifs
        · exact hworker
        · exact (ih _ _ _).trans hworker

omit [WorkerExecutor W] in
theorem worker_scanPiggyback (m b k : ℕ) (queue : List ScheduledRequest) (s : Scheduler W)
    (requests : List ScheduledRequest) (n : ℕ) :
    (scanPiggyback m b k queue s requests n).scheduler.worker = s.worker := by
  induction queue generalizing s requests n with
  | nil => rfl
  | cons r queue ih =>
    unfold scanPiggyback
    split
    case isFalse => rfl
    case isTrue =>
      split
      case h_1 s' r' _ _ hp => exact (worker_of_preparePrefillRequestChunk hp).trans rfl
      case h_2 s' r' error _ hp => exact (worker_of_preparePrefillRequestChunk hp).trans rfl
      case h_3 s' r' hp =>
        have hworker := (worker_of_preparePrefillRequestChunk hp).trans
          (rfl : _ = s.worker)
        split_ifs
        · exact hworker
        · exact (ih _ _ _).trans hworker

omit [WorkerExecutor W] in
theorem ClosesPrefill.worker_eq {requests : List ScheduledRequest} {k : ℕ}
    {result : Except SchedulerError ScheduleBatch} (h : s.ClosesPrefill k requests s' result) :
    s'.worker = s.worker := by
  cases h with
  | batch _ => rfl
  | empty _ => rfl
  | failed hq hp => exact (worker_of_preparePrefillRequestChunk hp).trans rfl
  | single hq hp => exact (worker_of_preparePrefillRequestChunk hp).trans rfl

omit [WorkerExecutor W] in
theorem FormsPrefill.worker_eq {m u : ℕ} {result : Except SchedulerError ScheduleBatch}
    (h : s.FormsPrefill m u s' result) : s'.worker = s.worker := by
  have hscan (remaining : ℕ) : (s.prefillScan m u remaining).scheduler.worker = s.worker :=
    worker_scanPrefill _ _ _ _ _ _ _
  cases h with
  | idle _ => rfl
  | full _ => rfl
  | failed _ _ _ =>
    rw [restoreFailedPrefillAttempt_eq]
    exact hscan _
  | cut _ _ _ _ => exact hscan _
  | closed _ _ _ hclose => exact (ClosesPrefill.worker_eq hclose).trans (hscan _)

end Worker

namespace WorkerExecutor.Keeps

variable {K : W → Prop} (hK : WorkerExecutor.Keeps K) {s s' : Scheduler W}

include hK

theorem workerProbe (worker : W) (calls : ℕ) (r : ScheduledRequest) (h : K worker) :
    K (Scheduler.workerProbe worker calls r).1 := by
  have hstate := hK.decodeRequestState worker r h
  unfold Scheduler.workerProbe
  rcases hans : WorkerExecutor.decodeRequestState worker r with ⟨worker', error | (_ | _ | _)⟩
  all_goals
    rw [hans] at hstate
    exact hstate

omit hK [WorkerExecutor W] in
theorem scanDecode {probe : W → ℕ → ScheduledRequest → W × ProbeAnswer}
    (hprobe : ∀ worker calls r, K worker → K (probe worker calls r).1) (limit : ℕ)
    (queue : List ScheduledRequest) (s : Scheduler W) (requests : List ScheduledRequest)
    (h : K s.worker) : K (Scheduler.scanDecode probe limit queue s requests).scheduler.worker := by
  induction queue generalizing s requests with
  | nil => exact h
  | cons r queue ih =>
    have hworker := hprobe s.worker requests.length r h
    unfold Scheduler.scanDecode
    split
    case isFalse => exact h
    case isTrue =>
      split
      case h_1 worker error hans =>
        rw [hans] at hworker
        exact hworker
      case h_2 worker hans =>
        rw [hans] at hworker
        exact hworker
      case h_3 worker hans =>
        rw [hans] at hworker
        split
        case h_1 s' r' error hp => exact (worker_of_prepareDecodeRequest hp) ▸ hworker
        case h_2 s' r' hp => exact ih _ _ ((worker_of_prepareDecodeRequest hp) ▸ hworker)

omit hK [WorkerExecutor W] in
theorem of_formsDecode {probe : W → ℕ → ScheduledRequest → W × ProbeAnswer}
    (hprobe : ∀ worker calls r, K worker → K (probe worker calls r).1) {m : ℕ}
    {result : Except SchedulerError ScheduleBatch} (hforms : s.FormsDecode probe m s' result)
    (h : K s.worker) : K s'.worker := by
  have hscan (limit : ℕ) : K (s.decodeScan probe limit).scheduler.worker :=
    scanDecode hprobe limit _ _ _ h
  cases hforms with
  | idle _ => exact h
  | formed _ _ _ => exact hscan _
  | notReady _ _ _ => exact hscan _
  | probeFailed _ _ => exact hscan _
  | failed _ _ =>
    rw [restoreFailedDecodeAttempt_eq]
    exact hscan _

omit hK [WorkerExecutor W] in
theorem worker_addPrefillChunks (requests : List ScheduledRequest) (m b : ℕ) :
    (s.addPrefillChunks requests m b).1.worker = s.worker := by
  rw [addPrefillChunks_eq]
  exact worker_scanPiggyback _ _ _ _ _ _ _

/-- **Forming a batch** keeps the property. -/
theorem form {former : Former} {result : Except SchedulerError ScheduleBatch}
    (hform : former.form s = (s', result)) (h : K s.worker) : K s'.worker := by
  cases former with
  | prefill m u => exact (FormsPrefill.worker_eq (formsPrefill hform)) ▸ h
  | decode m => exact of_formsDecode hK.workerProbe (formsDecode hform) h
  | decodeWhenReady m isReady => exact of_formsDecode (fun _ _ _ h => h) (formsDecode hform) h
  | mixed m b =>
    have hscan (limit : ℕ) : K (s.decodeScan Scheduler.workerProbe limit).scheduler.worker :=
      scanDecode hK.workerProbe limit _ _ _ h
    cases formsMixed hform with
    | idle _ => exact h
    | probeFailed _ => exact hscan _
    | failed _ =>
      rw [restoreFailedDecodeAttempt_eq]
      exact hscan _
    | extended _ _ hadd =>
      have hworker := worker_addPrefillChunks (s := (s.decodeScan Scheduler.workerProbe
        (min m b)).scheduler) (s.decodeScan Scheduler.workerProbe (min m b)).requests m b
      rw [hadd] at hworker
      exact hworker ▸ hscan _

/-! ### Completing a batch -/

theorem stage {r : ScheduledRequest} (n : ℕ) (h : K s.worker) :
    K (s.stagePrefillChunkCachePages r n).1.worker := by
  have hstate := hK.decodeRequestState s.worker r h
  unfold stagePrefillChunkCachePages
  split_ifs
  · exact h
  · rcases hans : WorkerExecutor.decodeRequestState s.worker r with ⟨worker, error | (_ | _ | _)⟩
    all_goals
      rw [hans] at hstate
    case ok.ready =>
      simp only [publishPrefillChunkCachePages_eq]
      exact hstate
    all_goals exact hstate
  · rw [publishPrefillChunkCachePages_eq]
    exact h

theorem recordGeneratedToken {c : Completion W} {r : ScheduledRequest} {generated : GeneratedToken}
    (h : K c.scheduler.worker) :
    K (Scheduler.recordGeneratedToken c r generated).scheduler.worker := by
  unfold Scheduler.recordGeneratedToken
  dsimp only
  split_ifs
  · have hfinish := hK.finishRequest c.scheduler.worker
      ((r.appendOutputIds generated.tokenIds).setStage .finished) h
    rcases hans : WorkerExecutor.finishRequest c.scheduler.worker
        ((r.appendOutputIds generated.tokenIds).setStage .finished) with ⟨worker, error | ⟨⟩⟩
    all_goals rw [hans] at hfinish
    · exact hfinish
    · simp only [releaseRequestCachePages_eq]
      exact hfinish
  · exact h

theorem completeOne {forwardMode : ForwardMode} {c : Completion W}
    {item : ScheduledRequest × GeneratedToken} (h : K c.scheduler.worker) :
    K (Scheduler.completeRequest forwardMode c item).scheduler.worker := by
  obtain ⟨r, generated⟩ := item
  by_cases hprefill : isPrefillForward forwardMode r = true
  · have hstage := hK.stage (r := r.advanceChunk) r.advanceChunk.promptTokensProcessed h
    rw [completeRequest_of_prefill c generated hprefill]
    rcases hres : c.scheduler.stagePrefillChunkCachePages r.advanceChunk
        r.advanceChunk.promptTokensProcessed with ⟨s, error | ⟨⟩⟩
    all_goals rw [hres] at hstage
    · exact hstage
    · dsimp only
      split_ifs
      · exact hK.recordGeneratedToken hstage
      · exact hstage
  · rw [completeRequest_of_decode c generated hprefill]
    exact hK.recordGeneratedToken h

/-- **Completing a batch** keeps the property. -/
theorem completeBatch {batch : ScheduleBatch} {generated : BatchGeneratedTokens}
    (h : K s.worker) : K (s.completeBatch batch generated).1.worker := by
  unfold Scheduler.completeBatch
  split_ifs
  · exact h
  · exact List.foldlRecOn (motive := fun c : Completion W => K c.scheduler.worker) _ _ h
      fun c hc item _ => hK.completeOne hc

/-- **Cleaning up after a batch that failed** keeps the property. -/
theorem releaseFailedBatch {batch : ScheduleBatch} (h : K s.worker) :
    K (s.releaseFailedBatchCachePages batch).1.worker := by
  unfold releaseFailedBatchCachePages
  refine List.foldlRecOn (motive := fun state : Scheduler W × Option WorkerExecutionError =>
    K state.1.worker) batch.requests _ h ?_
  rintro ⟨s, cleanupError⟩ hs r -
  have hfinish := hK.finishRequest s.worker r hs
  unfold releaseFailedRequest
  rcases hans : WorkerExecutor.finishRequest s.worker r with ⟨worker, error | ⟨⟩⟩
  all_goals
    rw [hans] at hfinish
    simp only [hans]
  · exact hfinish
  · exact hK.failRequest _ _ hfinish

/-! ### The other operations -/

theorem abortRequest {id : RequestId} (h : K s.worker) : K (s.abortRequest id).1.worker := by
  unfold Scheduler.abortRequest
  split
  case h_1 r queue _ =>
    have hfinish := hK.finishRequest s.worker r h
    rcases hans : WorkerExecutor.finishRequest s.worker r with ⟨worker, error | ⟨⟩⟩
    all_goals rw [hans] at hfinish
    · exact hfinish
    · simp only [releaseRequestCachePages_eq]
      exact hfinish
  case h_2 =>
    split
    case h_1 r queue _ =>
      have hfinish := hK.finishRequest s.worker r h
      rcases hans : WorkerExecutor.finishRequest s.worker r with ⟨worker, error | ⟨⟩⟩
      all_goals rw [hans] at hfinish
      · exact hfinish
      · simp only [releaseRequestCachePages_eq, releasePendingPrefixCacheInsert]
        split <;> exact hfinish
    case h_2 => exact h

theorem abortAllRequests (h : K s.worker) : K s.abortAllRequests.1.worker := by
  unfold Scheduler.abortAllRequests
  refine List.foldlRecOn (motive := fun state : Scheduler W × ℕ => K state.1.worker) _ _ ?_ ?_
  · refine List.foldlRecOn (motive := fun state : Scheduler W × ℕ => K state.1.worker) _ _ h ?_
    rintro ⟨s, aborted⟩ hs id -
    exact hK.abortRequest hs
  · rintro ⟨s, aborted⟩ hs r -
    have hfinish := hK.finishRequest s.worker r hs
    unfold abortPendingInsert
    rcases hans : WorkerExecutor.finishRequest s.worker r with ⟨worker, error | ⟨⟩⟩
    all_goals
      rw [hans] at hfinish
      simp only [hans]
      exact hfinish

theorem releaseFailedPendingPrefixCache {r : ScheduledRequest} (h : K s.worker) :
    K (s.releaseFailedPendingPrefixCache r).worker := by
  have hfinish := hK.finishRequest s.worker r h
  unfold Scheduler.releaseFailedPendingPrefixCache
  rcases hans : WorkerExecutor.finishRequest s.worker r with ⟨worker, error | ⟨⟩⟩
  all_goals rw [hans] at hfinish
  · exact hfinish
  · dsimp only
    split <;> exact hK.completeRequest _ _ hfinish

theorem reconcilePending (pending : List ScheduledRequest) (h : K s.worker) :
    K (Scheduler.reconcilePending pending s).1.worker := by
  induction pending generalizing s with
  | nil => exact h
  | cons r pending ih =>
    have hstate := hK.decodeRequestState s.worker r h
    unfold Scheduler.reconcilePending
    rcases hans : WorkerExecutor.decodeRequestState s.worker r with ⟨worker, error | (_ | _ | _)⟩
    all_goals
      rw [hans] at hstate
    · exact hstate
    · refine ih ?_
      rw [publishPrefillChunkCachePages_eq]
      exact hstate
    · exact ih hstate
    · exact ih (hK.releaseFailedPendingPrefixCache hstate)

/-- **Every operation that executes nothing** keeps the property. -/
theorem step {op : Operation W} (hdispatch : ∀ former, op ≠ .dispatch former)
    (hupdate : ∀ worker, op ≠ .updateWorker worker) (h : K s.worker) : K (s.step op).worker := by
  cases op with
  | enqueue request => exact h
  | dispatch former => exact absurd rfl (hdispatch former)
  | abortRequest id => exact hK.abortRequest h
  | abortAllRequests => exact hK.abortAllRequests h
  | pollTransfers =>
    have hpoll := hK.pollTransfers s.worker h
    change K s.pollTransfers.1.worker
    unfold Scheduler.pollTransfers
    rcases hans : WorkerExecutor.pollTransfers s.worker with ⟨worker, result⟩
    rw [hans] at hpoll
    have hrest := hK.reconcilePending (s := { s with worker, pendingPrefixCacheInserts := [] })
      s.pendingPrefixCacheInserts hpoll
    dsimp only [reconcilePendingPrefixCacheInserts]
    rcases hres : Scheduler.reconcilePending s.pendingPrefixCacheInserts
      { s with worker, pendingPrefixCacheInserts := [] } with ⟨s', error | ⟨⟩⟩
    all_goals
      rw [hres] at hrest
      exact hrest
  | flushCache =>
    change K s.flushCache.1.worker
    unfold Scheduler.flushCache
    split_ifs <;> exact h
  | updateWorker worker => exact absurd rfl (hupdate worker)

end WorkerExecutor.Keeps

/-! ### Clean-up that does not fail -/

/-- The worker cleans up after every request. -/
def WorkerExecutor.Finishes (W : Type) [WorkerExecutor W] : Prop :=
  ∀ (worker : W) request, (WorkerExecutor.finishRequest worker request).2 = .ok ()

namespace WorkerExecutor.Finishes

variable {s : Scheduler W} {r : ScheduledRequest}

theorem finishRequest_eq (h : WorkerExecutor.Finishes W) (worker : W) (request : ScheduledRequest) :
    ∃ worker', WorkerExecutor.finishRequest worker request = (worker', .ok ()) :=
  ⟨_, Prod.ext rfl (h worker request)⟩

/-- A request whose token was recorded has left, or it is at the end of the decode queue. -/
theorem recordGeneratedToken (h : WorkerExecutor.Finishes W) (c : Completion W)
    (r : ScheduledRequest) (generated : GeneratedToken) :
    (∃ finished, (Scheduler.recordGeneratedToken c r generated).outputs = c.outputs ++
        [scheduledOutput (r.appendOutputIds generated.tokenIds) generated finished]) ∧
      ((∃ worker allocator, (Scheduler.recordGeneratedToken c r generated).scheduler =
          { c.scheduler with worker, cachePageAllocator := allocator }) ∨
        (Scheduler.recordGeneratedToken c r generated).scheduler =
          c.scheduler.park (r.awaitDecode generated.tokenIds)) := by
  unfold Scheduler.recordGeneratedToken
  dsimp only
  split_ifs
  · obtain ⟨worker, hworker⟩ := h.finishRequest_eq c.scheduler.worker
      ((r.appendOutputIds generated.tokenIds).setStage .finished)
    rw [hworker]
    dsimp only
    rw [releaseRequestCachePages_eq]
    exact ⟨⟨_, rfl⟩, .inl ⟨worker, _, rfl⟩⟩
  · exact ⟨⟨_, rfl⟩, .inr rfl⟩

theorem completionError_recordGeneratedToken (h : WorkerExecutor.Finishes W) (c : Completion W)
    (r : ScheduledRequest) (generated : GeneratedToken) :
    (Scheduler.recordGeneratedToken c r generated).completionError = c.completionError := by
  unfold Scheduler.recordGeneratedToken
  dsimp only
  split_ifs
  · obtain ⟨worker, hworker⟩ := h.finishRequest_eq c.scheduler.worker
      ((r.appendOutputIds generated.tokenIds).setStage .finished)
    rw [hworker]
  · rfl

/-- Cleaning up after a batch that failed leaves the queues and the prefix cache alone. -/
theorem releaseFailedBatch (h : WorkerExecutor.Finishes W) (s : Scheduler W)
    (batch : ScheduleBatch) : ∃ worker allocator, (s.releaseFailedBatchCachePages batch).1 =
      { s with worker, cachePageAllocator := allocator } := by
  unfold releaseFailedBatchCachePages
  refine List.foldlRecOn (motive := fun state : Scheduler W × Option WorkerExecutionError =>
    ∃ worker allocator, state.1 = { s with worker, cachePageAllocator := allocator })
    batch.requests _ ⟨s.worker, s.cachePageAllocator, rfl⟩ ?_
  rintro ⟨s', cleanupError⟩ ⟨worker, allocator, rfl⟩ r -
  obtain ⟨worker', hworker⟩ := h.finishRequest_eq worker r
  unfold releaseFailedRequest
  simp only [hworker]
  exact ⟨_, _, rfl⟩

end WorkerExecutor.Finishes

/-- Offering a plain request to the prefix cache, which takes it or leaves it. -/
theorem Scheduler.stage_of_plain (s : Scheduler W) {r : ScheduledRequest}
    (hplain : r.disaggregatedParams = none) (n : ℕ) :
    ∃ cache, (cache = s.prefixCache ∨ cache = s.prefixCache.published r n) ∧
      s.stagePrefillChunkCachePages r n = ({ s with prefixCache := cache }, .ok ()) := by
  unfold stagePrefillChunkCachePages
  split_ifs with hskip hdis
  · exact ⟨_, .inl rfl, rfl⟩
  · rw [hplain] at hdis
    cases hdis
  · exact ⟨_, .inr rfl, by rw [publishPrefillChunkCachePages_eq]⟩

/-- **A batch of plain requests is completed** without an error. -/
theorem WorkerExecutor.Finishes.exists_completeBatch_eq (h : WorkerExecutor.Finishes W)
    (s : Scheduler W) {batch : ScheduleBatch} {generated : BatchGeneratedTokens}
    (hlength : generated.tokens.length = batch.requests.length)
    (hplain : ∀ r ∈ batch.requests, r.disaggregatedParams = none) :
    ∃ s' outputs, s.completeBatch batch generated = (s', .ok outputs) := by
  have hnone : ((batch.requests.zip generated.tokens).foldl
      (Scheduler.completeRequest batch.forwardMode) ⟨s, [], none⟩).completionError = none := by
    refine List.foldlRecOn (motive := fun c : Completion W => c.completionError = none) _ _ rfl ?_
    rintro c hc ⟨r, token⟩ hitem
    by_cases hprefill : isPrefillForward batch.forwardMode r = true
    · obtain ⟨cache, -, hstaged⟩ := c.scheduler.stage_of_plain (r := r.advanceChunk)
        (hplain r (List.of_mem_zip hitem).1) r.advanceChunk.promptTokensProcessed
      rw [completeRequest_of_prefill c token hprefill, hstaged]
      dsimp only
      split_ifs
      · exact (h.completionError_recordGeneratedToken _ _ _).trans hc
      · exact hc
    · rw [completeRequest_of_decode c token hprefill]
      exact (h.completionError_recordGeneratedToken _ _ _).trans hc
  unfold Scheduler.completeBatch
  rw [if_neg (not_not.mpr hlength.symm)]
  dsimp only
  rw [hnone]
  exact ⟨_, _, rfl⟩

end SglangRs
