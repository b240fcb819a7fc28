import Mathlib.Algebra.Order.Group.Multiset
import Mathlib.Tactic.Abel
import SglangRs.Distributed.DpProgress

/-!
# Requests that are lost

Every request that is enqueued is, until it is aborted or finished, in one of the queues or in a
running batch. This file keeps account of them, with repetitions, since nothing keeps a caller from
using an identifier twice. A step loses requests in exactly three cases: a batch has failed, a
worker has returned fewer tokens than there are requests in its batch, or a batch is formed for a
pool that is shut down. The first case is the worst one: the step leaves the loop over the events
that it has already taken from the channel, so that the batches of the events that follow,
successful or not, count as running for ever.

## Main definitions

* `DpScheduler.account`: the requests that the scheduler has not forgotten.
* `DpScheduler.Awaited`: a rank still has to execute every running batch, or to report it.
* `DpScheduler.Contained`: what a step must meet to lose nothing.

## Main results

* `DpScheduler.requests_accounted_iff`: a run loses no request if and only if all its steps meet
  this.
-/

namespace SglangRs

open Transition

namespace DpScheduler

/-! ### The account -/

/-- The identifiers of some requests. -/
def idsOf (requests : List DpRequest) : Multiset RequestId :=
  (requests.map fun q => q.request.requestId : List RequestId)

/-- The requests that are queued, in a batch, or recorded as finished. -/
def account (s : DpScheduler) : Multiset RequestId :=
  idsOf s.waitingQueue + idsOf s.decodeQueue +
    (s.runningBatches.map fun running => idsOf running.batch.requests).sum +
    (s.finishedOutputs.map fun output => output.requestId : List RequestId)

variable {s s' : DpScheduler} {rank : ℕ} {q : DpRequest}

@[simp] theorem idsOf_nil : idsOf [] = 0 := rfl

@[simp] theorem idsOf_cons (q : DpRequest) (requests : List DpRequest) :
    idsOf (q :: requests) = {q.request.requestId} + idsOf requests := rfl

@[simp] theorem idsOf_append (requests requests' : List DpRequest) :
    idsOf (requests ++ requests') = idsOf requests + idsOf requests' := by
  simp [idsOf]

@[simp] theorem idsOf_eq_zero {requests : List DpRequest} : idsOf requests = 0 ↔ requests = [] := by
  simp [idsOf]

theorem idsOf_filter (p : DpRequest → Prop) [DecidablePred p] (requests : List DpRequest) :
    idsOf (requests.filter fun q => ¬p q) + idsOf (requests.filter fun q => p q) =
      idsOf requests := by
  induction requests with
  | nil => rfl
  | cons q requests ih =>
    by_cases hq : p q
    · simp only [List.filter_cons, hq, not_true_eq_false, decide_false, decide_true, if_true,
        Bool.false_eq_true, if_false, idsOf_cons, ← ih]
      abel
    · simp only [List.filter_cons, hq, not_false_eq_true, decide_false, decide_true, if_true,
        Bool.false_eq_true, if_false, idsOf_cons, ← ih]
      abel

@[simp] theorem account_release (s : DpScheduler) (rank : ℕ) (slots origins : List ℕ) :
    (s.release rank slots origins).account = s.account := by
  unfold release
  split <;> rfl

theorem account_publish (s : DpScheduler) (q : DpRequest) : (s.publish q).account = s.account := by
  unfold publish
  dsimp only
  split <;> rfl

theorem account_deliver (s : DpScheduler) (rank : ℕ) (q : DpRequest) (token : GeneratedToken) :
    (s.deliver rank q token).account = s.account + {q.request.requestId} := by
  unfold deliver releaseFrom
  dsimp only
  split
  · generalize hs' : DpScheduler.release _ _ _ _ = s'
    have heq : s'.account = s.account := by
      rw [← hs', account_release]
      rfl
    rw [← heq]
    simp only [account, List.map_append, List.map_cons, List.map_nil, ← Multiset.coe_add]
    simp only [ScheduledRequest.appendOutputIds, Multiset.coe_singleton]
    abel
  · simp only [account, idsOf_append, idsOf_cons, idsOf_nil]
    simp only [ScheduledRequest.appendOutputIds, ScheduledRequest.clearForwardChunkTracking,
      ScheduledRequest.setStage]
    abel

/-- A request that is completed is recorded, or waits again. -/
theorem account_completeRequest (s : DpScheduler) (rank : ℕ) (forwardMode : ForwardMode)
    (q : DpRequest) (token : GeneratedToken) :
    (s.completeRequest rank forwardMode q token).account =
      s.account + {q.request.requestId} := by
  unfold completeRequest
  dsimp only
  split_ifs
  · rw [account_deliver, account_publish]
    rfl
  · rw [← account_publish s (advanced q)]
    simp only [account, idsOf_cons]
    simp only [advanced, ScheduledRequest.clearForwardChunkTracking, ScheduledRequest.setStage,
      ScheduledRequest.advancePromptTokens]
    abel
  · exact account_deliver s rank q token

/-- The requests without a token are lost. -/
theorem account_completeRequests (rank : ℕ) (forwardMode : ForwardMode) (s : DpScheduler)
    (requests : List DpRequest) (tokens : List GeneratedToken) :
    (completeRequests rank forwardMode s requests tokens).account +
        idsOf (requests.drop tokens.length) = s.account + idsOf requests := by
  induction requests generalizing s tokens with
  | nil => cases tokens <;> rfl
  | cons q requests ih =>
    cases tokens with
    | nil => rfl
    | cons token tokens =>
      rw [completeRequests, List.length_cons, List.drop_succ_cons, ih, account_completeRequest,
        idsOf_cons]
      abel

theorem account_removeBatch {sequence : ℕ} {running : RunningBatch}
    (hrun : s.runningBatch sequence = some running) :
    (s.removeBatch sequence).account + idsOf running.batch.requests = s.account := by
  obtain ⟨before, after, heq, herase⟩ := exists_removeBatch hrun
  rw [account, account, herase, heq]
  simp only [removeBatch]
  simp only [List.map_append, List.map_cons, List.sum_append, List.sum_cons]
  abel

theorem idsOf_takeDecode (rank m : ℕ) (queue : List DpRequest) (allocator : CachePageAllocator) :
    idsOf (takeDecode rank m queue allocator []).1 +
      idsOf (takeDecode rank m queue allocator []).2.2 = idsOf queue := by
  refine takeDecode_rule (P := fun queue' _ batch => idsOf queue' + idsOf batch = idsOf queue)
    rank m (fun kept q queue' allocator batch allocator' slots _ _ h => ?_) [] queue allocator []
    (by simp)
  rw [← h]
  simp only [idsOf_append, idsOf_cons, idsOf_nil]
  change _ = idsOf kept + ({(q.forwardDecode rank slots).request.requestId} + _) + _
  abel

theorem idsOf_matched (s : DpScheduler) (q : DpRequest) :
    (q.matched s.prefixCache s.cacheOrigins s.pageSize).request.requestId =
      q.request.requestId := by
  unfold DpRequest.matched
  split_ifs <;> rfl

theorem idsOf_takePrefill (s : DpScheduler) (rank : ℕ) (queue : List DpRequest)
    (allocator : CachePageAllocator) (batch : List DpRequest) :
    idsOf (s.takePrefill rank queue allocator batch).1 +
      idsOf (s.takePrefill rank queue allocator batch).2.2 = idsOf queue + idsOf batch := by
  refine takePrefill_rule (G := anyMove)
    (P := fun queue' _ batch' => idsOf queue' + idsOf batch' = idsOf queue + idsOf batch)
    (fun q queue' allocator batch' h => ?_)
    (fun q queue' allocator batch' allocator' slots _ _ _ h => ?_) queue allocator batch
    (OnlyResumes.prefillAlong (fun _ _ => trivial) _ _ _) rfl
  · rw [← h, idsOf_cons, idsOf_cons, idsOf_matched]
  · rw [← h, idsOf_cons, idsOf_append, idsOf_cons, ← idsOf_matched s q, idsOf_nil]
    change idsOf queue' + (_ + ({(q.matched s.prefixCache s.cacheOrigins
      s.pageSize).request.requestId} + 0)) = _
    abel

/-- The requests of a batch come from the queues. -/
theorem account_formBatchForRank {batch : Option DpBatch}
    (hform : s.formBatchForRank rank = .ok (s', batch)) :
    s'.account + idsOf (batch.elim [] DpBatch.requests) = s.account := by
  unfold formBatchForRank at hform
  cases ha : s.allocators[rank]? with
  | none => simp [ha] at hform
  | some allocator =>
    simp only [ha, Except.ok.injEq, Prod.mk.injEq] at hform
    obtain ⟨rfl, rfl⟩ := hform
    have hdecode := idsOf_takeDecode rank s.maxBatchSize s.decodeQueue allocator
    generalize takeDecode rank s.maxBatchSize s.decodeQueue allocator [] = decode at hdecode ⊢
    have hprefill := idsOf_takePrefill s rank s.waitingQueue decode.2.1 decode.2.2
    generalize s.takePrefill rank s.waitingQueue decode.2.1 decode.2.2 = prefill at hprefill ⊢
    have hbatch : (if prefill.2.2 = [] then none else some (batchOf prefill.2.2)).elim []
        DpBatch.requests = prefill.2.2 := by
      split_ifs with hnil
      · exact hnil.symm
      · rfl
    rw [hbatch]
    simp only [account, ← hdecode]
    calc _ = (idsOf prefill.1 + idsOf prefill.2.2) + idsOf decode.1 +
          (s.runningBatches.map fun running => idsOf running.batch.requests).sum +
          (s.finishedOutputs.map fun output => output.requestId : List RequestId) := by abel
      _ = _ := by
        rw [hprefill]
        abel

/-! ### Completions -/

/-- The batch of the event has been executed, with a token for every request. -/
def Succeeds (s : DpScheduler) : DpWorkerEvent → Prop
  | .batchCompleted sequence _ result =>
      ∀ running, s.runningBatch sequence = some running →
        match result with
        | .error _ => False
        | .ok generated => running.batch.requests.length ≤ generated.tokens.length
  | .fatalError _ _ => False
  | .weightsUpdated _ _ => True

/-- An event does not touch the running batch of another one. -/
theorem runningBatch_handleEvent {event : DpWorkerEvent} {sequence : ℕ}
    (hne : event.completed ≠ some sequence) :
    (s.handleEvent event).1.runningBatch sequence = s.runningBatch sequence := by
  unfold runningBatch
  rw [(handleEvent_frame s event).1]
  cases event with
  | weightsUpdated rank result => rfl
  | fatalError rank error => rfl
  | batchCompleted sequence' rank result =>
    have hne' : sequence' ≠ sequence := fun heq => hne (by rw [heq]; rfl)
    dsimp only
    induction s.runningBatches with
    | nil => rfl
    | cons b running ih =>
      by_cases hb : b.sequence = sequence'
      · rw [List.eraseP_cons_of_pos (by simpa using hb),
          List.find?_cons_of_neg (by simpa [hb] using hne')]
      · rw [List.eraseP_cons_of_neg (by simpa using hb), List.find?_cons, List.find?_cons, ih]

theorem succeeds_handleEvent {event event' : DpWorkerEvent}
    (hne : ∀ sequence, event'.completed = some sequence → event.completed ≠ some sequence) :
    (s.handleEvent event).1.Succeeds event' ↔ s.Succeeds event' := by
  cases event' with
  | weightsUpdated rank result => rfl
  | fatalError rank error => rfl
  | batchCompleted sequence rank result =>
    simp only [Succeeds, runningBatch_handleEvent (hne sequence rfl)]

/-- A batch that failed releases nothing: its requests are dropped with the pages they hold. -/
theorem allocators_handleEvent_error (s : DpScheduler) (sequence rank : ℕ)
    (error : WorkerExecutionError) :
    (s.handleEvent (.batchCompleted sequence rank (.error error))).1.allocators = s.allocators ∧
      (s.handleEvent (.batchCompleted sequence rank (.error error))).1.releases = s.releases := by
  rw [handleEvent]
  cases s.runningBatch sequence <;> exact ⟨rfl, rfl⟩

/-- A completion loses requests unless its batch succeeded. -/
theorem account_handleEvent {event : DpWorkerEvent} {events : List DpWorkerEvent}
    (hpool : Pooled s.workerPool s.runningBatches (event :: events))
    (hbatch : ∀ running ∈ s.runningBatches, running.batch.requests ≠ []) :
    ∃ dropped, (s.handleEvent event).1.account + idsOf dropped = s.account ∧
      (dropped = [] ↔ s.Succeeds event) ∧ (s.Succeeds event → (s.handleEvent event).2 = none) := by
  obtain ⟨sequence, hcompleted⟩ := hpool.completed event (by simp)
  obtain ⟨b, hb, hseq, -⟩ := hpool.event_running event (by simp) sequence hcompleted
  cases event with
  | weightsUpdated rank result => simp [DpWorkerEvent.completed] at hcompleted
  | fatalError rank error => simp [DpWorkerEvent.completed] at hcompleted
  | batchCompleted sequence' rank result =>
    obtain rfl : sequence' = sequence := Option.some.inj hcompleted
    obtain ⟨running, hrun⟩ : ∃ running, s.runningBatch sequence' = some running :=
      Option.isSome_iff_exists.mp (List.find?_isSome.mpr ⟨b, hb, by simpa using hseq⟩)
    have hremoved := account_removeBatch hrun
    rw [handleEvent, hrun]
    cases result with
    | error error =>
      refine ⟨running.batch.requests, hremoved, ?_, fun hsucceeds => ?_⟩
      · exact iff_of_false (hbatch running (List.mem_of_find?_eq_some hrun))
          fun hsucceeds => hsucceeds running hrun
      · exact absurd (hsucceeds running hrun) id
    | ok generated =>
      refine ⟨running.batch.requests.drop generated.tokens.length, ?_, ?_, fun _ => rfl⟩
      · rw [← hremoved]
        exact account_completeRequests rank _ _ _ _
      · rw [List.drop_eq_nil_iff]
        refine ⟨fun hle running' hrun' => ?_, fun hsucceeds => hsucceeds running hrun⟩
        obtain rfl := Option.some.inj (hrun.symm.trans hrun')
        exact hle

theorem account_handleEvents {events : List DpWorkerEvent}
    (hpool : Pooled s.workerPool s.runningBatches events)
    (hbatch : ∀ running ∈ s.runningBatches, running.batch.requests ≠ []) :
    ∃ dropped, (s.handleEvents events).1.account + idsOf dropped = s.account ∧
      (dropped = [] ↔ ∀ event ∈ events, s.Succeeds event) ∧
      ((∀ event ∈ events, s.Succeeds event) → (s.handleEvents events).2 = none) := by
  induction events generalizing s with
  | nil => exact ⟨[], by simp [handleEvents], by simp, fun _ => rfl⟩
  | cons event events ih =>
    obtain ⟨dropped, haccount, hnil, hnone⟩ := account_handleEvent hpool hbatch
    have hrest : ∀ event' ∈ events,
        ((s.handleEvent event).1.Succeeds event' ↔ s.Succeeds event') := by
      intro event' hmem
      refine succeeds_handleEvent fun sequence heq' heq => ?_
      have hnodup := hpool.event_nodup
      rw [List.cons_append, List.filterMap_cons_some heq, List.nodup_cons] at hnodup
      exact hnodup.1 (List.mem_filterMap.mpr ⟨event', List.mem_append_left _ hmem, heq'⟩)
    have hbatch' : ∀ running ∈ (s.handleEvent event).1.runningBatches,
        running.batch.requests ≠ [] := by
      intro running hrunning
      rw [(handleEvent_frame s event).1] at hrunning
      split at hrunning
      · exact hbatch running (List.mem_of_mem_eraseP hrunning)
      · exact hbatch running hrunning
    obtain ⟨dropped', haccount', hnil', hnone'⟩ := ih hpool.handleEvent hbatch'
    unfold handleEvents
    cases hresult : s.handleEvent event with
    | mk s' error =>
      rw [hresult] at haccount hnone hrest haccount' hnil' hnone'
      cases error with
      | some error =>
        refine ⟨dropped, haccount, ?_, fun hall => ?_⟩
        · refine hnil.trans (iff_of_false (fun hsucceeds => ?_) fun hall => ?_)
          · simp at hnone
            exact hnone hsucceeds
          · simp at hnone
            exact hnone (hall event List.mem_cons_self)
        · simp at hnone
          exact absurd (hall event List.mem_cons_self) hnone
      | none =>
        refine ⟨dropped ++ dropped', ?_, ?_, fun hall => ?_⟩
        · rw [idsOf_append, ← haccount, ← haccount']
          abel
        · rw [List.append_eq_nil_iff, hnil, hnil', List.forall_mem_cons]
          exact and_congr_right fun _ => forall₂_congr hrest
        · exact hnone' fun event' hmem =>
            (hrest event' hmem).mpr (hall event' (List.mem_cons_of_mem _ hmem))

/-! ### Dispatching -/

/-- The rank would form a batch. -/
def Forms (s : DpScheduler) (rank : ℕ) : Prop :=
  ∃ s' batch, s.formBatchForRank rank = .ok (s', some batch)

theorem takePrefill_congr (waitingQueue queue : List DpRequest) (allocator : CachePageAllocator)
    (batch : List DpRequest) :
    { s with waitingQueue }.takePrefill rank queue allocator batch =
      s.takePrefill rank queue allocator batch := by
  induction queue generalizing allocator batch with
  | nil => rfl
  | cons q queue ih =>
    simp only [takePrefill, ih]
    rfl

theorem takePrefill_matched (q : DpRequest) (queue : List DpRequest)
    (allocator : CachePageAllocator) (batch : List DpRequest) :
    (s.takePrefill rank (q.matched s.prefixCache s.cacheOrigins s.pageSize :: queue) allocator
        batch).2.2 = (s.takePrefill rank (q :: queue) allocator batch).2.2 := by
  have hlen : s.chunkLen (q.matched s.prefixCache s.cacheOrigins s.pageSize) = s.chunkLen q :=
    chunkLen_matched q queue
  rw [takePrefill, takePrefill]
  simp only [matched_matched, hlen]
  by_cases hfull : batch.length < s.maxBatchSize
  · rw [if_pos hfull, if_pos hfull]
  · rw [if_neg hfull, if_neg hfull]

theorem forms_iff : s.Forms rank ↔ ∃ allocator, s.allocators[rank]? = some allocator ∧
    (s.takePrefill rank s.waitingQueue
      (takeDecode rank s.maxBatchSize s.decodeQueue allocator []).2.1
      (takeDecode rank s.maxBatchSize s.decodeQueue allocator []).2.2).2.2 ≠ [] := by
  unfold Forms formBatchForRank
  cases ha : s.allocators[rank]? with
  | none => simp
  | some allocator =>
    simp only [Except.ok.injEq, Prod.mk.injEq, Option.some.injEq, exists_eq_left']
    split_ifs with hnil <;> simp [hnil]

/-- Whether a rank would form a batch does not depend on the first request having been matched. -/
theorem Stands.forms_iff (h : Stands s s') : s'.Forms rank ↔ s.Forms rank := by
  rw [DpScheduler.forms_iff, DpScheduler.forms_iff]
  rcases h with rfl | ⟨q, rest, hqueue, rfl⟩
  · rfl
  · simp only [takePrefill_congr, takePrefill_matched, hqueue]

/-- A batch is lost if it is refused. -/
theorem account_dispatchRank (hconf : Configured s) {handle : DpRankHandle}
    (hhandle : s.workerPool.ranks[rank]? = some handle) (hidle : handle.isIdle = true) :
    ∃ dropped, (s.dispatchRank rank).1.account + idsOf dropped = s.account ∧
      (dropped = [] ↔ (s.workerPool.isShutdown = true → ¬s.Forms rank)) ∧
      (dropped = [] → (s.dispatchRank rank).2 = none) := by
  have hlt : rank < s.allocators.length :=
    hconf.length_allocators ▸ (List.getElem?_eq_some_iff.mp hhandle).1
  unfold dispatchRank
  cases hform : s.formBatchForRank rank with
  | error error =>
    unfold formBatchForRank at hform
    simp [List.getElem?_eq_getElem hlt] at hform
  | ok result =>
    obtain ⟨s', batch⟩ := result
    have haccount := account_formBatchForRank hform
    obtain ⟨hpool, -⟩ := formBatchForRank_frame hform
    cases batch with
    | none =>
      refine ⟨[], haccount, iff_of_true rfl fun _ => ?_, fun _ => rfl⟩
      rintro ⟨s'', batch, hform'⟩
      simp [hform] at hform'
    | some batch =>
      have hne : batch.requests ≠ [] := by
        unfold formBatchForRank at hform
        simp only [List.getElem?_eq_getElem hlt, Except.ok.injEq, Prod.mk.injEq] at hform
        have hbatch := hform.2
        split_ifs at hbatch with hnil
        rw [← Option.some.inj hbatch]
        exact hnil
      by_cases hshut : s.workerPool.isShutdown = true
      · have hsubmit : s'.workerPool.submitBatch rank = .error .alreadyShutdown := by
          simp [DpWorkerPool.submitBatch, hpool, hshut]
        simp only [hsubmit]
        exact ⟨batch.requests, haccount, iff_of_false hne fun h => h hshut ⟨s', batch, hform⟩,
          fun hnil => absurd hnil hne⟩
      · have hsubmit : ∃ result, s'.workerPool.submitBatch rank = .ok result := by
          simp [DpWorkerPool.submitBatch, hpool, hshut, hhandle, hidle]
        obtain ⟨⟨workerPool, sequence⟩, hsubmit⟩ := hsubmit
        simp only [hsubmit]
        refine ⟨[], ?_, iff_of_true rfl fun h => absurd h hshut, fun _ => trivial⟩
        rw [← haccount]
        simp only [account, List.map_append, List.map_cons, List.map_nil, List.sum_append,
          List.sum_cons, List.sum_nil, Option.elim, idsOf_nil]
        abel

/-- Handing a batch to a rank leaves the other ranks as they are. -/
theorem dispatchRank_frame (s : DpScheduler) (rank : ℕ) :
    (s.dispatchRank rank).1.workerPool.isShutdown = s.workerPool.isShutdown ∧
      ∀ r ≠ rank, (s.dispatchRank rank).1.workerPool.ranks[r]? = s.workerPool.ranks[r]? := by
  unfold dispatchRank
  cases hform : s.formBatchForRank rank with
  | error error => exact ⟨rfl, fun _ _ => rfl⟩
  | ok result =>
    obtain ⟨s', batch⟩ := result
    rw [← (formBatchForRank_frame hform).1]
    cases batch with
    | none => exact ⟨rfl, fun _ _ => rfl⟩
    | some batch =>
      dsimp only
      cases hsubmit : s'.workerPool.submitBatch rank with
      | error error => exact ⟨rfl, fun _ _ => rfl⟩
      | ok result =>
        obtain ⟨workerPool, sequence⟩ := result
        unfold DpWorkerPool.submitBatch at hsubmit
        split_ifs at hsubmit
        split at hsubmit
        · simp at hsubmit
        · split_ifs at hsubmit
          rw [← (Prod.mk.inj (Except.ok.inj hsubmit)).1]
          exact ⟨rfl, fun r hr => List.getElem?_set_ne (Ne.symm hr)⟩

theorem Configured.dispatchRank (h : Configured s) (rank : ℕ) :
    Configured (s.dispatchRank rank).1 :=
  Configured.keptBy.dispatchRank (ranksAlong_anyMove s [rank]).1 h

theorem Configured.handleEvents (h : Configured s) {events : List DpWorkerEvent}
    (hagrees : s.Agrees events) : Configured (s.handleEvents events).1 :=
  @KeptBy.handleEvents _ _ _ 0 Configured.keptBy _ hagrees (eventsAlong_anyMove s events) h

theorem Configured.handleEvents_workerPool (h : Configured s) {workerPool : DpWorkerPool}
    {events : List DpWorkerEvent} (hpool : Pooled workerPool s.runningBatches events)
    (hlen : workerPool.ranks.length = s.workerPool.ranks.length) :
    Configured ({ s with workerPool }.handleEvents events).1 :=
  Configured.handleEvents (Configured.keptBy.workerPool s 0 [] workerPool hlen h)
    (hpool.agrees.mono (List.subset_append_left events _))

/-- Batches that are formed are lost if the pool is shut down. -/
theorem account_dispatchRanks (hconf : Configured s) {ranks : List ℕ} (hnodup : ranks.Nodup)
    (hranks : ∀ rank ∈ ranks, ∃ handle, s.workerPool.ranks[rank]? = some handle ∧
      handle.isIdle = true) :
    ∃ dropped, (s.dispatchRanks ranks).1.account + idsOf dropped = s.account ∧
      (dropped = [] ↔ (s.workerPool.isShutdown = true → ∀ rank ∈ ranks, ¬s.Forms rank)) := by
  induction ranks generalizing s with
  | nil => exact ⟨[], by simp [dispatchRanks], by simp⟩
  | cons rank ranks ih =>
    obtain ⟨handle, hhandle, hidle⟩ := hranks rank List.mem_cons_self
    obtain ⟨dropped, haccount, hnil, hnone⟩ := account_dispatchRank hconf hhandle hidle
    obtain ⟨hshut, hother⟩ := dispatchRank_frame s rank
    have hconf' := hconf.dispatchRank rank
    have hranks' : ∀ r ∈ ranks, ∃ handle,
        (s.dispatchRank rank).1.workerPool.ranks[r]? = some handle ∧ handle.isIdle = true := by
      intro r hr
      rw [hother r fun heq => (List.nodup_cons.mp hnodup).1 (heq ▸ hr)]
      exact hranks r (List.mem_cons_of_mem _ hr)
    obtain ⟨dropped', haccount', hnil'⟩ := ih hconf' (List.nodup_cons.mp hnodup).2 hranks'
    -- the pool that is shut down only gets past the rank if this has formed no batch
    have hforms (hclosed : s.workerPool.isShutdown = true) (hdropped : dropped = []) (r : ℕ) :
        (s.dispatchRank rank).1.Forms r ↔ s.Forms r := by
      have hrest := hnil.mp hdropped hclosed
      refine Stands.forms_iff (s := s) ?_
      unfold DpScheduler.dispatchRank
      cases hform : s.formBatchForRank rank with
      | error error => exact .inl rfl
      | ok result =>
        obtain ⟨s', batch⟩ := result
        cases batch with
        | none => exact stands_formBatchForRank hform
        | some batch => exact absurd ⟨s', batch, hform⟩ hrest
    have hall : dropped = [] ∧ dropped' = [] ↔
        (s.workerPool.isShutdown = true → ∀ r ∈ rank :: ranks, ¬s.Forms r) := by
      rw [hnil', hshut]
      constructor
      · rintro ⟨hdropped, hrest⟩ hclosed
        rw [List.forall_mem_cons]
        exact ⟨hnil.mp hdropped hclosed, fun r hr =>
          (hforms hclosed hdropped r).not.mp (hrest hclosed r hr)⟩
      · intro h
        have hdropped := hnil.mpr fun hclosed => (List.forall_mem_cons.mp (h hclosed)).1
        exact ⟨hdropped, fun hclosed r hr => (hforms hclosed hdropped r).not.mpr
          (h hclosed r (List.mem_cons_of_mem _ hr))⟩
    unfold dispatchRanks
    cases hresult : s.dispatchRank rank with
    | mk s' error =>
      rw [hresult] at haccount hnone haccount'
      cases error with
      | some error =>
        refine ⟨dropped, haccount, iff_of_false (fun hdropped => ?_) fun h => ?_⟩
        · simpa using hnone hdropped
        · simpa using hnone (hall.mpr h).1
      | none =>
        refine ⟨dropped ++ dropped', ?_, by rw [List.append_eq_nil_iff, hall]⟩
        rw [idsOf_append, ← haccount, ← haccount']
        abel

/-- Every batch that is formed now can be submitted. -/
def Submits (s : DpScheduler) : Prop :=
  s.workerPool.isShutdown = true → ∀ rank ∈ s.workerPool.idleRanks, ¬s.Forms rank

theorem account_dispatch (hconf : Configured s) :
    ∃ dropped, s.dispatch.1.account + idsOf dropped = s.account ∧ (dropped = [] ↔ s.Submits) := by
  refine account_dispatchRanks hconf (List.nodup_range.filter _) fun rank hrank => ?_
  have hidle := (List.mem_filter.mp hrank).2
  cases hhandle : s.workerPool.ranks[rank]? with
  | none => simp [hhandle] at hidle
  | some handle => exact ⟨handle, rfl, by simpa [hhandle] using hidle⟩

/-! ### Steps -/

/-- The state after some events have been handled and batches have been submitted. -/
def tick (s : DpScheduler) (events : List DpWorkerEvent) : DpScheduler :=
  match s.handleEvents events with
  | (s, some _) => s
  | (s, none) => s.dispatch.1

theorem step_eq_tick (s : DpScheduler) :
    s.step.1 = { s with workerPool := s.workerPool.pollEvents.1 }.tick s.workerPool.events := by
  unfold step tick
  change (match { s with workerPool := s.workerPool.pollEvents.1 }.handleEvents
    s.workerPool.events with | (s, some error) => _ | (s, none) => _ : _ × _).1 = _
  cases { s with workerPool := s.workerPool.pollEvents.1 }.handleEvents s.workerPool.events with
  | mk s' error =>
    cases error with
    | some error => rfl
    | none =>
      dsimp only
      cases s'.dispatch with
      | mk s'' error => cases error <;> rfl

theorem stepBlocking_eq_tick {event : DpWorkerEvent} {events : List DpWorkerEvent}
    (hevents : s.workerPool.events = event :: events) :
    s.stepBlocking.1 = { s with workerPool := s.workerPool.waitForEvent.1 }.tick [event] := by
  have hwait : s.workerPool.waitForEvent =
      ({ s.workerPool.markIdle event with events }, some (.ok event)) := by
    simp [DpWorkerPool.waitForEvent, hevents]
  unfold stepBlocking tick handleEvents
  simp only [hwait]
  cases { s with workerPool := { s.workerPool.markIdle event with events } }.handleEvent event with
  | mk s' error =>
    cases error with
    | some error => rfl
    | none =>
      dsimp only [handleEvents]
      cases s'.dispatch with
      | mk s'' error => cases error <;> rfl

theorem stepBlocking_nil (hevents : s.workerPool.events = []) : s.stepBlocking.1 = s := by
  unfold stepBlocking DpWorkerPool.waitForEvent
  simp only [hevents]
  split_ifs <;> rfl

/-- All events are about batches that succeeded, and the batches that are formed afterwards can be
submitted to the pool. -/
def Delivers (s : DpScheduler) (workerPool : DpWorkerPool) (events : List DpWorkerEvent) : Prop :=
  (∀ event ∈ events, s.Succeeds event) ∧ Submits ({ s with workerPool }.handleEvents events).1

/-- What a call must meet to lose nothing. -/
def Contained (s : DpScheduler) : DpOperation → Prop
  | .step => s.Delivers s.workerPool.pollEvents.1 s.workerPool.events
  | .stepBlocking =>
      match s.workerPool.events with
      | [] => True
      | event :: _ => s.Delivers s.workerPool.waitForEvent.1 [event]
  | _ => True

/-- The account of the batches is in order, and there are no empty ones. -/
structure Regular (s : DpScheduler) : Prop where
  pooled : Pooled s.workerPool s.runningBatches []
  configured : Configured s
  nonempty : ∀ running ∈ s.runningBatches, running.batch.requests ≠ []

theorem account_tick {workerPool : DpWorkerPool} {events : List DpWorkerEvent}
    (hpool : Pooled workerPool s.runningBatches events) (hconf : Configured s)
    (hlen : workerPool.ranks.length = s.workerPool.ranks.length)
    (hbatch : ∀ running ∈ s.runningBatches, running.batch.requests ≠ []) :
    ∃ dropped, ({ s with workerPool }.tick events).account + idsOf dropped = s.account ∧
      (dropped = [] ↔ s.Delivers workerPool events) := by
  obtain ⟨dropped, haccount, hnil, hnone⟩ :=
    account_handleEvents (s := { s with workerPool }) hpool hbatch
  have hsucceeds : (∀ event ∈ events, { s with workerPool }.Succeeds event) ↔
      ∀ event ∈ events, s.Succeeds event :=
    forall₂_congr fun event _ => by cases event <;> rfl
  rw [hsucceeds] at hnil hnone
  have hconf' := hconf.handleEvents_workerPool hpool hlen
  obtain ⟨dropped', haccount', hnil'⟩ := account_dispatch hconf'
  unfold tick Delivers
  cases hresult : { s with workerPool }.handleEvents events with
  | mk s' error =>
    rw [hresult] at haccount hnone haccount' hnil'
    cases error with
    | some error =>
      refine ⟨dropped, haccount, hnil.trans (iff_of_false (fun h => ?_) fun h => ?_)⟩
      · simpa using hnone h
      · simpa using hnone h.1
    | none =>
      refine ⟨dropped ++ dropped', ?_, by rw [List.append_eq_nil_iff, hnil, hnil']⟩
      change _ = { s with workerPool }.account
      rw [idsOf_append, ← haccount, ← haccount']
      abel

/-- There are no empty batches. -/
theorem keptBy_nonempty : KeptBy anyMove fun s _ _ =>
    ∀ running ∈ s.runningBatches, running.batch.requests ≠ [] where
  rank := fun s rank rank' h => h
  workerPool := fun s rank hand workerPool _ h => h
  take := fun s sequence running h _ b hb => h b (List.mem_of_mem_eraseP hb)
  complete := fun s rank forwardMode hand q token _ h => by
    rw [(completeRequest_frame s rank forwardMode q token).1]
    exact h
  drop := fun s rank hand _ h => h
  decode := fun s hand rank kept q queue allocator allocator' slots h _ _ _ _ => h
  matched := fun s rank hand q queue h _ => h
  prefill := fun s hand rank q queue allocator allocator' slots _ h _ _ _ _ => h
  submit := fun s hand sequence rank h hne b hb => by
    rcases List.mem_append.mp hb with hb | hb
    · exact h b hb
    · rw [List.mem_singleton.mp hb]
      exact hne

namespace Regular

theorem apply (h : Regular s) (op : DpOperation) : Regular (s.apply op) := by
  refine ⟨h.pooled.apply op, h.configured.apply h.pooled op, ?_⟩
  cases op with
  | step =>
    exact keptBy_nonempty.step 0 h.pooled.agrees (stepAlong_anyMove s .step) h.nonempty
  | stepBlocking =>
    exact keptBy_nonempty.stepBlocking 0 h.pooled.agrees (stepAlong_anyMove s .stepBlocking)
      h.nonempty
  | abortRequest requestId =>
    change ∀ running ∈ (s.abortRequest requestId).1.runningBatches, _
    rw [(abortRequest_frame s requestId).2]
    exact h.nonempty
  | abortAllRequests =>
    change ∀ running ∈ s.abortAllRequests.1.runningBatches, _
    rw [(abortAllRequests_frame s).2]
    exact h.nonempty
  | _ => exact h.nonempty

end Regular

theorem regular_new (hnew : s.IsNew) : Regular s := by
  refine ⟨pooled_new hnew, configured_new hnew, ?_⟩
  obtain ⟨_, _, _, _, _, _, -, -, hs⟩ := hnew
  unfold new at hs
  split_ifs at hs
  obtain rfl := Except.ok.inj hs
  simp

theorem regular_run (hnew : s.IsNew) (ops : List DpOperation) : Regular (s.run ops) :=
  foldl_invariant (fun _ op _ h => h.apply op) (along_of_forall (fun _ _ => trivial) s ops)
    (regular_new hnew)

/-! ### Runs -/

/-- The requests that a call adds. -/
def enqueuedBy (_ : DpScheduler) : DpOperation → List RequestId
  | .enqueue requestId _ _ _ _ => [requestId]
  | _ => []

/-- The requests that a call aborts. -/
def abortedBy (s : DpScheduler) : DpOperation → List RequestId
  | .abortRequest requestId =>
      (((s.waitingQueue ++ s.decodeQueue).filter (·.request.requestId = requestId)).map
        (·.request.requestId))
  | .abortAllRequests => (s.waitingQueue ++ s.decodeQueue).map (·.request.requestId)
  | _ => []

/-- The requests whose finished outputs a call returns. -/
def drainedBy (s : DpScheduler) : DpOperation → List RequestId
  | .drainFinishedOutputs => s.finishedOutputs.map (·.requestId)
  | _ => []

theorem account_releaseDecode (s : DpScheduler) (q : DpRequest) :
    (s.releaseDecode q).account = s.account := by
  unfold releaseDecode releaseFrom
  split_ifs
  · exact account_release s _ _ _
  · rfl

theorem account_releaseWaiting (s : DpScheduler) (q : DpRequest) :
    (s.releaseWaiting q).account = s.account := by
  unfold releaseWaiting
  split_ifs
  · exact account_release s _ _ _
  · rfl

theorem account_foldl (f : DpScheduler → DpRequest → DpScheduler)
    (hf : ∀ s q, (f s q).account = s.account) (queue : List DpRequest) (s : DpScheduler) :
    (queue.foldl f s).account = s.account := by
  induction queue generalizing s with
  | nil => rfl
  | cons q queue ih => exact (ih (f s q)).trans (hf s q)

theorem abortedBy_all (s : DpScheduler) :
    (s.abortedBy .abortAllRequests : Multiset RequestId) =
      idsOf s.waitingQueue + idsOf s.decodeQueue :=
  idsOf_append s.waitingQueue s.decodeQueue

theorem abortedBy_request (s : DpScheduler) (requestId : RequestId) :
    (s.abortedBy (.abortRequest requestId) : Multiset RequestId) =
      idsOf (s.waitingQueue.filter (·.request.requestId = requestId)) +
        idsOf (s.decodeQueue.filter (·.request.requestId = requestId)) := by
  rw [← idsOf_append, ← List.filter_append]
  rfl

theorem account_abortRequest (s : DpScheduler) (requestId : RequestId) :
    (s.abortRequest requestId).1.account + s.abortedBy (.abortRequest requestId) = s.account := by
  have hwaiting := idsOf_filter (fun q => q.request.requestId = requestId) s.waitingQueue
  have hdecode := idsOf_filter (fun q => q.request.requestId = requestId) s.decodeQueue
  unfold abortRequest
  rw [account_foldl releaseDecode account_releaseDecode, abortedBy_request]
  simp only [account]
  rw [← hwaiting, ← hdecode]
  abel

theorem account_abortAllRequests (s : DpScheduler) :
    s.abortAllRequests.1.account + s.abortedBy .abortAllRequests = s.account := by
  unfold abortAllRequests
  rw [account_foldl releaseDecode account_releaseDecode,
    account_foldl releaseWaiting account_releaseWaiting, abortedBy_all]
  simp only [account, idsOf_nil]
  abel

/-- **What a call loses.** -/
theorem account_apply (h : Regular s) (op : DpOperation) :
    ∃ dropped, (s.apply op).account + s.abortedBy op + s.drainedBy op + idsOf dropped =
      s.account + s.enqueuedBy op ∧ (dropped = [] ↔ s.Contained op) := by
  cases op with
  | enqueue requestId inputIds sampling disaggregatedParams dataParallelRank =>
    refine ⟨[], ?_, iff_of_true rfl trivial⟩
    simp only [DpScheduler.apply, enqueue, account, idsOf_append, idsOf_cons, idsOf_nil, abortedBy,
      drainedBy, enqueuedBy, Multiset.coe_nil, Multiset.coe_singleton, ScheduledRequest.new]
    abel
  | step =>
    obtain ⟨dropped, haccount, hnil⟩ := account_tick h.pooled.polled h.configured
      (DpWorkerPool.length_ranks_pollEvents _) h.nonempty
    refine ⟨dropped, ?_, hnil⟩
    change s.step.1.account + 0 + 0 + idsOf dropped = s.account + 0
    simpa [step_eq_tick] using haccount
  | stepBlocking =>
    cases hevents : s.workerPool.events with
    | nil =>
      refine ⟨[], ?_, iff_of_true rfl ?_⟩
      · change s.stepBlocking.1.account + 0 + 0 + 0 = s.account + 0
        rw [stepBlocking_nil hevents]
        simp
      · rw [Contained, hevents]
        trivial
    | cons event events =>
      have hwait : s.workerPool.waitForEvent =
          ({ s.workerPool.markIdle event with events }, some (.ok event)) := by
        simp [DpWorkerPool.waitForEvent, hevents]
      have hfirst : s.workerPool.events = [event] ++ events := hevents
      obtain ⟨dropped, haccount, hnil⟩ := account_tick (h.pooled.receive hfirst) h.configured
        (by simp [DpWorkerPool.markIdle]) h.nonempty
      refine ⟨dropped, ?_, ?_⟩
      · change s.stepBlocking.1.account + 0 + 0 + idsOf dropped = s.account + 0
        rw [stepBlocking_eq_tick hevents, hwait]
        simpa using haccount
      · rw [Contained, hevents, hnil, hwait]
        rfl
  | abortRequest requestId =>
    refine ⟨[], ?_, iff_of_true rfl trivial⟩
    change (s.abortRequest requestId).1.account + s.abortedBy (.abortRequest requestId) + 0 + 0 =
      s.account + 0
    rw [account_abortRequest, add_zero]
  | abortAllRequests =>
    refine ⟨[], ?_, iff_of_true rfl trivial⟩
    change s.abortAllRequests.1.account + s.abortedBy .abortAllRequests + 0 + 0 = s.account + 0
    rw [account_abortAllRequests, add_zero]
  | drainFinishedOutputs =>
    refine ⟨[], ?_, iff_of_true rfl trivial⟩
    simp only [DpScheduler.apply, account, abortedBy, drainedBy, enqueuedBy, idsOf_nil, List.map_nil,
      Multiset.coe_nil]
    abel
  | _ =>
    refine ⟨[], ?_, iff_of_true rfl trivial⟩
    simp only [abortedBy, drainedBy, enqueuedBy, DpScheduler.apply, Multiset.coe_nil, idsOf_nil,
      add_zero]
    rfl

theorem account_run (h : Regular s) (ops : List DpOperation) :
    ∃ dropped, (s.run ops).account + emitted DpScheduler.apply abortedBy s ops +
        emitted DpScheduler.apply drainedBy s ops + idsOf dropped =
      s.account + emitted DpScheduler.apply enqueuedBy s ops ∧
      (dropped = [] ↔ Along DpScheduler.apply Contained s ops) := by
  induction ops generalizing s with
  | nil => exact ⟨[], by simp [run, emitted], by simp⟩
  | cons op ops ih =>
    obtain ⟨dropped, haccount, hnil⟩ := account_apply h op
    obtain ⟨dropped', haccount', hnil'⟩ := ih (h.apply op)
    refine ⟨dropped ++ dropped', ?_, ?_⟩
    · rw [idsOf_append]
      simp only [emitted, ← Multiset.coe_add]
      change ((s.apply op).run ops).account + _ + _ + _ = _
      calc _ = (((s.apply op).run ops).account +
              emitted DpScheduler.apply abortedBy (s.apply op) ops +
              emitted DpScheduler.apply drainedBy (s.apply op) ops + idsOf dropped') +
              (s.abortedBy op + s.drainedBy op + idsOf dropped) := by abel
        _ = ((s.apply op).account + s.abortedBy op + s.drainedBy op + idsOf dropped) +
              emitted DpScheduler.apply enqueuedBy (s.apply op) ops := by
          rw [haccount']
          abel
        _ = _ := by
          rw [haccount]
          abel
    · rw [List.append_eq_nil_iff, hnil, hnil', along_cons]

/-! ### Batches that are awaited -/

/-- Every running batch is still to be executed by its rank, or its completion is to be handled. -/
def AwaitedIn (pool : DpWorkerPool) (running : List RunningBatch) (events : List DpWorkerEvent) :
    Prop :=
  ∀ b ∈ running, (∃ handle, pool.ranks[b.rank]? = some handle ∧ b.sequence ∈ handle.commands) ∨
    ∃ event ∈ events ++ pool.events, event.completed = some b.sequence

def Awaited (s : DpScheduler) : Prop := AwaitedIn s.workerPool s.runningBatches []

namespace AwaitedIn

variable {pool : DpWorkerPool} {running : List RunningBatch} {event : DpWorkerEvent}
  {events events' : List DpWorkerEvent}

theorem receive (h : AwaitedIn pool running []) (hevents : pool.events = events ++ events') :
    AwaitedIn { events.foldl DpWorkerPool.markIdle pool with events := events' } running events := by
  intro b hb
  rcases h b hb with ⟨handle, hhandle, hmem⟩ | ⟨event, hmem, hcompleted⟩
  · left
    have hlen := (DpWorkerPool.foldl_markIdle_fields events pool).2.2.2
    have hlt : b.rank < (events.foldl DpWorkerPool.markIdle pool).ranks.length := by
      rw [hlen]
      exact (List.getElem?_eq_some_iff.mp hhandle).1
    have hlookup := List.getElem?_eq_getElem hlt
    obtain ⟨old, hold, hcommands, -⟩ := ranks_foldl_markIdle events pool b.rank hlookup
    refine ⟨_, hlookup, ?_⟩
    rw [hcommands, ← Option.some.inj (hhandle.symm.trans hold)]
    exact hmem
  · exact .inr ⟨event, hevents ▸ hmem, hcompleted⟩

theorem handle (h : AwaitedIn pool running (event :: events))
    (hnodup : (running.map (·.sequence)).Nodup) {sequence : ℕ}
    (heq : event.completed = some sequence) :
    AwaitedIn pool (running.eraseP (·.sequence = sequence)) events := by
  intro b hb
  have hb' := List.mem_of_mem_eraseP hb
  have hne : b.sequence ≠ sequence := by
    intro hseq
    obtain ⟨b', l₁, l₂, hl₁, hp, hrunning, herase⟩ := List.exists_of_eraseP
      (p := fun b : RunningBatch => decide (b.sequence = sequence)) hb' (by simpa using hseq)
    rw [hrunning] at hnodup
    simp only [List.map_append, List.map_cons] at hnodup
    rw [List.nodup_middle, List.nodup_cons, ← List.map_append, ← herase] at hnodup
    have hseq' : b'.sequence = sequence := by simpa using hp
    exact hnodup.1 (List.mem_map.mpr ⟨b, hb, hseq.trans hseq'.symm⟩)
  refine (h b hb').imp_right ?_
  rintro ⟨event', hmem, hcompleted⟩
  rcases List.mem_cons.mp hmem with rfl | hmem
  · exact absurd (Option.some.inj (hcompleted.symm.trans heq)) hne
  · exact ⟨event', hmem, hcompleted⟩

theorem submit (h : AwaitedIn pool running []) {rank sequence : ℕ} {pool' : DpWorkerPool}
    (batch : DpBatch) (hsubmit : pool.submitBatch rank = .ok (pool', sequence)) :
    AwaitedIn pool' (running ++ [⟨sequence, rank, batch⟩]) [] := by
  unfold DpWorkerPool.submitBatch at hsubmit
  split_ifs at hsubmit
  split at hsubmit
  · simp at hsubmit
  next handle hhandle =>
    split_ifs at hsubmit
    obtain ⟨rfl, rfl⟩ := Prod.mk.inj (Except.ok.inj hsubmit)
    have hlt : rank < pool.ranks.length := (List.getElem?_eq_some_iff.mp hhandle).1
    intro b hb
    rcases List.mem_append.mp hb with hb | hb
    · refine (h b hb).imp_left ?_
      rintro ⟨old, hold, hmem⟩
      by_cases hrank : rank = b.rank
      · refine ⟨⟨handle.commands ++ [pool.nextSequence], false⟩, ?_, ?_⟩
        · rw [← hrank]
          exact List.getElem?_set_self hlt
        · rw [← hrank, hhandle] at hold
          rw [← Option.some.inj hold] at hmem
          exact List.mem_append_left _ hmem
      · exact ⟨old, (List.getElem?_set_ne hrank).trans hold, hmem⟩
    · rw [List.mem_singleton.mp hb]
      exact .inl ⟨_, List.getElem?_set_self hlt, by simp⟩

theorem complete (h : AwaitedIn pool running []) (rank : ℕ)
    (result : Except WorkerExecutionError BatchGeneratedTokens) :
    AwaitedIn (pool.complete rank result) running [] := by
  unfold DpWorkerPool.complete
  split
  · exact h
  next handle hhandle =>
    split
    · exact h
    next sequence commands hcommands =>
      have hlt : rank < pool.ranks.length := (List.getElem?_eq_some_iff.mp hhandle).1
      intro b hb
      rcases h b hb with ⟨old, hold, hmem⟩ | ⟨event, hmem, hcompleted⟩
      · by_cases hrank : rank = b.rank
        · rw [← hrank, hhandle] at hold
          rw [← Option.some.inj hold, hcommands] at hmem
          rcases List.mem_cons.mp hmem with hseq | hmem
          · exact .inr ⟨_, List.mem_append_right _ (List.mem_append_right _ List.mem_cons_self),
              by rw [hseq]; rfl⟩
          · refine .inl ⟨{ handle with commands }, ?_, hmem⟩
            rw [← hrank]
            exact List.getElem?_set_self hlt
        · exact .inl ⟨old, (List.getElem?_set_ne hrank).trans hold, hmem⟩
      · exact .inr ⟨event, List.mem_append_right _ (List.mem_append_left _ hmem), hcompleted⟩

end AwaitedIn

namespace Awaited

theorem handleEvents {events : List DpWorkerEvent}
    (hpool : Pooled s.workerPool s.runningBatches events)
    (h : AwaitedIn s.workerPool s.runningBatches events)
    (hnone : (s.handleEvents events).2 = none) :
    Awaited (s.handleEvents events).1 := by
  induction events generalizing s with
  | nil => exact h
  | cons event events ih =>
    have hnext : AwaitedIn (s.handleEvent event).1.workerPool (s.handleEvent event).1.runningBatches
        events := by
      obtain ⟨hrunning, hpool'⟩ := handleEvent_frame s event
      obtain ⟨sequence, heq⟩ := hpool.completed event (by simp)
      rw [hpool', hrunning]
      cases event with
      | weightsUpdated rank result => simp [DpWorkerEvent.completed] at heq
      | fatalError rank error => simp [DpWorkerEvent.completed] at heq
      | batchCompleted sequence' rank result => exact h.handle hpool.nodup rfl
    have hpool' := hpool.handleEvent
    unfold DpScheduler.handleEvents at hnone ⊢
    cases hresult : s.handleEvent event with
    | mk s' error =>
      rw [hresult] at hnext hpool'
      simp only [hresult] at hnone
      cases error with
      | none => exact ih hpool' hnext hnone
      | some error => simp at hnone

theorem dispatchRanks (h : Awaited s) (ranks : List ℕ) : Awaited (s.dispatchRanks ranks).1 := by
  induction ranks generalizing s with
  | nil => exact h
  | cons rank ranks ih =>
    have hrank : Awaited (s.dispatchRank rank).1 := by
      unfold DpScheduler.dispatchRank
      cases hform : s.formBatchForRank rank with
      | error error => exact h
      | ok result =>
        obtain ⟨s', batch⟩ := result
        obtain ⟨hpool, hrunning⟩ := formBatchForRank_frame hform
        have h' : AwaitedIn s'.workerPool s'.runningBatches [] := by
          rw [hpool, hrunning]
          exact h
        cases batch with
        | none => exact h'
        | some batch =>
          dsimp only
          cases hsubmit : s'.workerPool.submitBatch rank with
          | error error => exact h'
          | ok result =>
            obtain ⟨workerPool, sequence⟩ := result
            exact h'.submit batch hsubmit
    unfold DpScheduler.dispatchRanks
    cases hresult : s.dispatchRank rank with
    | mk s' error =>
      rw [hresult] at hrank
      cases error with
      | none => exact ih hrank
      | some error => exact hrank

theorem tick {workerPool : DpWorkerPool} {events : List DpWorkerEvent}
    (hpool : Pooled workerPool s.runningBatches events)
    (hbatch : ∀ running ∈ s.runningBatches, running.batch.requests ≠ [])
    (h : AwaitedIn workerPool s.runningBatches events) (hdelivers : s.Delivers workerPool events) :
    Awaited ({ s with workerPool }.tick events) := by
  obtain ⟨-, -, -, hnone⟩ := account_handleEvents (s := { s with workerPool }) hpool hbatch
  have hsucceeds : (∀ event ∈ events, { s with workerPool }.Succeeds event) ↔
      ∀ event ∈ events, s.Succeeds event :=
    forall₂_congr fun event _ => by cases event <;> rfl
  have hnone' := hnone (hsucceeds.mpr hdelivers.1)
  have hhandled := Awaited.handleEvents (s := { s with workerPool }) hpool h hnone'
  unfold DpScheduler.tick
  cases hresult : { s with workerPool }.handleEvents events with
  | mk s' error =>
    rw [hresult] at hnone' hhandled
    dsimp only at hnone' hhandled
    subst hnone'
    exact hhandled.dispatchRanks _

theorem apply (hregular : Regular s) (h : Awaited s) (op : DpOperation)
    (hcontained : s.Contained op) : Awaited (s.apply op) := by
  cases op with
  | step =>
    change Awaited s.step.1
    have hevents : s.workerPool.events = s.workerPool.events ++ [] := (List.append_nil _).symm
    rw [step_eq_tick]
    exact tick hregular.pooled.polled hregular.nonempty (AwaitedIn.receive h hevents) hcontained
  | stepBlocking =>
    change Awaited s.stepBlocking.1
    cases hevents : s.workerPool.events with
    | nil =>
      rw [stepBlocking_nil hevents]
      exact h
    | cons event events =>
      have hwait : s.workerPool.waitForEvent.1 = { s.workerPool.markIdle event with events } := by
        simp [DpWorkerPool.waitForEvent, hevents]
      have hfirst : s.workerPool.events = [event] ++ events := hevents
      simp only [Contained, hevents] at hcontained
      rw [stepBlocking_eq_tick hevents]
      rw [hwait] at hcontained ⊢
      exact tick (hregular.pooled.receive hfirst) hregular.nonempty
        (AwaitedIn.receive h hfirst) hcontained
  | abortRequest requestId =>
    obtain ⟨hpool, hrunning⟩ := abortRequest_frame s requestId
    simp only [Awaited, DpScheduler.apply]
    rw [hpool, hrunning]
    exact h
  | abortAllRequests =>
    obtain ⟨hpool, hrunning⟩ := abortAllRequests_frame s
    simp only [Awaited, DpScheduler.apply]
    rw [hpool, hrunning]
    exact h
  | shutdown =>
    simp only [DpScheduler.apply, DpWorkerPool.shutdown]
    split_ifs
    · exact h
    · exact h
  | complete rank result => exact AwaitedIn.complete h rank result
  | _ => exact h

end Awaited

/-- **Requests that are lost.** A run forgets no request that was enqueued and neither aborted nor
finished, and waits for every batch that counts as running, if and only if in every step all
completions are successes with a token for every request and no batch is formed for a pool that is
shut down. -/
theorem requests_accounted_iff (hnew : s.IsNew) (ops : List DpOperation) :
    (emitted DpScheduler.apply enqueuedBy s ops : Multiset RequestId) =
        emitted DpScheduler.apply abortedBy s ops + emitted DpScheduler.apply drainedBy s ops +
          (s.run ops).account ∧ Awaited (s.run ops) ↔
      Along DpScheduler.apply Contained s ops := by
  have hregular := regular_new hnew
  have hempty : s.account = 0 ∧ Awaited s := by
    obtain ⟨_, _, _, _, _, _, -, -, hs⟩ := hnew
    unfold new at hs
    split_ifs at hs
    obtain rfl := Except.ok.inj hs
    exact ⟨rfl, fun b hb => by simp at hb⟩
  obtain ⟨dropped, haccount, hnil⟩ := account_run hregular ops
  rw [hempty.1, zero_add] at haccount
  constructor
  · rintro ⟨heq, -⟩
    refine hnil.mp (idsOf_eq_zero.mp (add_left_cancel (a := (s.run ops).account +
      emitted DpScheduler.apply abortedBy s ops + emitted DpScheduler.apply drainedBy s ops) ?_))
    rw [haccount, heq]
    abel
  · intro hcontained
    rw [hnil.mpr hcontained, idsOf_nil, add_zero] at haccount
    refine ⟨by rw [← haccount]; abel, ?_⟩
    exact (foldl_invariant (I := fun s => Regular s ∧ Awaited s)
      (fun s op hop h => ⟨h.1.apply op, h.2.apply h.1 op hop⟩) hcontained
      ⟨hregular, hempty.2⟩).2

/-- A request runs to completion. -/
theorem requests_accounted_of_one_request :
    ∃ s, IsNew s ∧
      (s.run [.enqueue ⟨"a"⟩ [1] ⟨1⟩ none 0, .step, .complete 0 (.ok ⟨[⟨[7], true⟩]⟩),
        .step]).account = {⟨"a"⟩} := by
  have hnew : IsNew _ := ⟨2, _, [⟨8, 2, [0, 1, 2, 3], ∅⟩, ⟨8, 2, [0, 1, 2, 3], ∅⟩], 4, 2, none, rfl,
    fun allocator h => ⟨8, by
      simp only [List.mem_cons, List.not_mem_nil, or_false, or_self] at h
      rw [h]
      rfl⟩, rfl⟩
  refine ⟨_, hnew, ?_⟩
  have haccount := (requests_accounted_iff hnew [.enqueue ⟨"a"⟩ [1] ⟨1⟩ none 0, .step,
    .complete 0 (.ok ⟨[⟨[7], true⟩]⟩), .step]).mpr
    ⟨trivial, ⟨by simp [DpScheduler.apply, enqueue], nofun⟩, trivial, ⟨?_, nofun⟩, trivial⟩
  · simpa [emitted, enqueuedBy, abortedBy, drainedBy] using haccount.1.symm
  · intro event hevent
    obtain rfl : event = .batchCompleted 1 0 (.ok ⟨[⟨[7], true⟩]⟩) := List.mem_singleton.mp hevent
    intro running hrunning
    obtain rfl := Option.some.inj hrunning
    exact Nat.le_refl 1

/-- Two batches complete at once and the first of them has failed. The request of the second batch
is lost: the batch counts as running although no rank executes it and no event is left. The page of
the first request stays allocated. -/
theorem step_loses_completed_batch :
    ∃ s, IsNew s ∧
      let s := s.run [.enqueue ⟨"a"⟩ [1] ⟨1⟩ none 0, .step, .enqueue ⟨"b"⟩ [2] ⟨1⟩ none 0, .step,
        .complete 0 (.error (.runtime "failed")), .complete 1 (.ok ⟨[⟨[7], true⟩]⟩), .step]
      s.runningBatches.map (·.sequence) = [2] ∧
        s.runningBatches.map (·.batch.requests.map (·.request.requestId)) = [[⟨"b"⟩]] ∧
        s.workerPool.ranks = [⟨[], true⟩, ⟨[], true⟩] ∧ s.workerPool.events.isEmpty = true ∧
        s.waitingQueue = [] ∧ s.decodeQueue = [] ∧ s.finishedOutputs = [] ∧
        s.prefixCache.slotAt [1] = none ∧ s.allocators.map (·.availablePages) = [3, 3] := by
  refine ⟨_, ⟨2, _, [⟨8, 2, [0, 1, 2, 3], ∅⟩, ⟨8, 2, [0, 1, 2, 3], ∅⟩], 4, 2, none, rfl,
    fun allocator h => ⟨8, ?_⟩, rfl⟩, by decide⟩
  simp only [List.mem_cons, List.not_mem_nil, or_false, or_self] at h
  rw [h]
  rfl

end DpScheduler

end SglangRs
