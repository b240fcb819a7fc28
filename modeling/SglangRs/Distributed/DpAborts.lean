import SglangRs.Distributed.DpCoordinator
import SglangRs.Distributed.DpOutputs
import SglangRs.Distributed.DpOwnership

/-!
# Aborts of the data-parallel scheduler

A caller that aborts a request expects to hear no more of it, and its pages to be free or left to
the prefix cache. An abort takes the request out of the two queues. It does not touch the running
batches: a request that is in one of them is put back into a queue when the batch completes, or
leaves its outputs, as if nothing had happened. Since a step that handles a completion dispatches
the request again in the same call, a request usually is in a running batch when it is aborted.

An abort of a waiting request releases none of its pages, and an abort of a request that is queued
for decoding those that start past the prompt only. The pages of the prompt are left to the prefix
cache, which has them unless the request skips the cache or another request has published the same
prompt since.

## Main definitions

* `DpScheduler.Aborts`: the ways to abort a request.
* `DpScheduler.AbortEffective`: an abort has its effect.
* `DpScheduler.IsRunning`, `DpScheduler.LeavesNoPages`: what an abort does not take care of.

## Main results

* `DpScheduler.Without.apply`: a request that is not in the scheduler does not come back.
* `dp_abort_effective`: an abort has its effect if the request is in no running batch and leaves no
  pages.
* `DpScheduler.leavesNoPages_of_published`: a request whose prompt is in the cache leaves no pages.
-/

namespace SglangRs

open Paging Transition

namespace DpScheduler

variable {s s' : DpScheduler} {id : RequestId} {hand : List DpRequest} {q : DpRequest}

/-! ### What an abort has to do -/

/-- A request is in a running batch. -/
def IsRunning (s : DpScheduler) (id : RequestId) : Prop :=
  ∃ b ∈ s.runningBatches, ∃ q ∈ b.batch.requests, q.request.requestId = id

/-- The state after a request has been aborted: by itself, with all requests, or by a call that
streams it and whose sink has stopped. -/
inductive Aborts (s : DpScheduler) (id : RequestId) : DpScheduler → Prop where
  | request : Aborts s id (s.abortRequest id).1
  | all : Aborts s id s.abortAllRequests.1
  | sink {ε : Type} (tokenizer : Tokenizer ε) (c : DpCoordinator ε)
      (sink : List TokenGenerateOutput → Bool)
      (respond : Except (DpCoordinatorError ε) (List TokenGenerateOutput) →
        DpCoordinator.Response ε)
      (outputs : List TokenGenerateOutput) (hscheduler : c.scheduler = s)
      (hstopped : (DpCoordinator.passOutputs id sink outputs s.stepOutputs).2 = .stopped) :
      Aborts s id (c.drain tokenizer (.stream id sink respond outputs)).scheduler

/-- The step outputs that a call returns. -/
def drainedSteps (s : DpScheduler) : DpOperation → List ScheduledOutput
  | .drainStepOutputs => s.stepOutputs
  | _ => []

/-- The finished outputs that a call returns. -/
def drainedFinished (s : DpScheduler) : DpOperation → List ScheduledOutput
  | .drainFinishedOutputs => s.finishedOutputs
  | _ => []

/-- The page is free, or the prefix cache refers to it. -/
def FreeOrCached (s : DpScheduler) (rank page : ℕ) : Prop :=
  page ∉ s.allocatedPages rank ∨ ∃ y ∈ s.cachedSlots rank, y / s.pageSize = page

/-- An abort has its effect, in view of what comes afterwards. Later batches do not contain the
request, there are no outputs of it but those that were there already, and once the batches that
were running have completed, every page that it has had slots on has become free or is the prefix
cache's. -/
structure AbortEffective (s s' : DpScheduler) (id : RequestId) (later : List DpOperation) :
    Prop where
  batches : ∀ b ∈ (s'.run later).runningBatches, b ∉ s'.runningBatches →
    ∀ q ∈ b.batch.requests, q.request.requestId ≠ id
  steps : (emitted DpScheduler.apply drainedSteps s' later ++
      (s'.run later).stepOutputs).filter (·.requestId = id) =
    s'.stepOutputs.filter (·.requestId = id)
  finished : (emitted DpScheduler.apply drainedFinished s' later ++
      (s'.run later).finishedOutputs).filter (·.requestId = id) =
    s'.finishedOutputs.filter (·.requestId = id)
  pages : (∀ b ∈ s'.runningBatches, b ∉ (s'.run later).runningBatches) →
    ∀ q ∈ s.live, q.request.requestId = id → ∀ rank, ∀ x ∈ q.slotsFrom rank,
      ∃ before, before <+: later ∧ (s'.run before).FreeOrCached rank (x / s.pageSize)

/-- The pages of a queued request are free or cached, or start past its prompt and are given back by
an abort. -/
def LeavesNoPages (s : DpScheduler) (id : RequestId) : Prop :=
  ∀ q ∈ s.waitingQueue ++ s.decodeQueue, q.request.requestId = id →
    ∀ rank, ∀ x ∈ q.slotsFrom rank, s.FreeOrCached rank (x / s.pageSize) ∨
      q ∈ s.decodeQueue ∧ q.PinnedTo rank ∧ x / s.pageSize * s.pageSize ∈ q.decodeSlots

/-! ### What a release leaves alone -/

/-- The state but for the allocators, and for the account of what has been released to them. -/
def withoutAllocators (s : DpScheduler) : DpScheduler := { s with allocators := [], releases := [] }

theorem withoutAllocators_release (s : DpScheduler) (rank : ℕ) (slots origins : List ℕ) :
    (s.release rank slots origins).withoutAllocators = s.withoutAllocators := by
  unfold release
  split <;> rfl

theorem withoutAllocators_foldl_releaseDecode (queue : List DpRequest) (s : DpScheduler) :
    (queue.foldl releaseDecode s).withoutAllocators = s.withoutAllocators := by
  induction queue generalizing s with
  | nil => rfl
  | cons q queue ih =>
    rw [List.foldl_cons, ih]
    unfold releaseDecode releaseFrom
    split_ifs
    · exact withoutAllocators_release _ _ _ _
    · rfl

theorem withoutAllocators_foldl_releaseWaiting (queue : List DpRequest) (s : DpScheduler) :
    (queue.foldl releaseWaiting s).withoutAllocators = s.withoutAllocators := by
  induction queue generalizing s with
  | nil => rfl
  | cons q queue ih =>
    rw [List.foldl_cons, ih]
    unfold releaseWaiting
    split_ifs
    · exact withoutAllocators_release _ _ _ _
    · rfl

/-- An abort leaves everything but the queues and the allocators alone. -/
theorem withoutAllocators_abortRequest (s : DpScheduler) (id : RequestId) :
    (s.abortRequest id).1.withoutAllocators = { s.withoutAllocators with
      waitingQueue := s.waitingQueue.filter (·.request.requestId ≠ id)
      decodeQueue := s.decodeQueue.filter (·.request.requestId ≠ id) } :=
  withoutAllocators_foldl_releaseDecode _ _

theorem withoutAllocators_abortAllRequests (s : DpScheduler) :
    s.abortAllRequests.1.withoutAllocators =
      { s.withoutAllocators with waitingQueue := [], decodeQueue := [] } := by
  refine (withoutAllocators_foldl_releaseDecode _ _).trans ?_
  exact withoutAllocators_foldl_releaseWaiting _ _

/-! ### A request that is not there -/

/-- The request is neither queued nor in a batch nor in the hand, and its outputs are the given
ones. -/
structure Without (id : RequestId) (steps finished : List ScheduledOutput) (s : DpScheduler)
    (hand : List DpRequest) : Prop where
  gone : ∀ q ∈ s.live ++ hand, q.request.requestId ≠ id
  steps : s.stepOutputs.filter (·.requestId = id) = steps
  finished : s.finishedOutputs.filter (·.requestId = id) = finished

namespace Without

variable {steps finished : List ScheduledOutput}

theorem congr (h : Without id steps finished s hand) {hand' : List DpRequest}
    (hsub : ∀ q ∈ s'.live ++ hand', ∃ q' ∈ s.live ++ hand,
      q'.request.requestId = q.request.requestId)
    (hsteps : s'.stepOutputs = s.stepOutputs) (hfinished : s'.finishedOutputs = s.finishedOutputs) :
    Without id steps finished s' hand' where
  gone := fun q hq => by
    obtain ⟨q', hq', heq⟩ := hsub q hq
    exact heq ▸ h.gone q' hq'
  steps := hsteps ▸ h.steps
  finished := hfinished ▸ h.finished

theorem publish (h : Without id steps finished s hand) (q : DpRequest) :
    Without id steps finished (s.publish q) hand := by
  have hlive : (s.publish q).live = s.live := by
    unfold DpScheduler.publish
    dsimp only
    split <;> rfl
  refine h.congr (fun q' hq' => ⟨q', by rwa [hlive] at hq', rfl⟩) (outputs_publish s q).1
    (outputs_publish s q).2

theorem deliver (h : Without id steps finished s (q :: hand)) (rank : ℕ) (token : GeneratedToken) :
    Without id steps finished (s.deliver rank q token) hand := by
  have hq : q.request.requestId ≠ id := h.gone q (by simp)
  have hrest : ∀ q' ∈ s.live ++ hand, q'.request.requestId ≠ id := by
    intro q' hq'
    refine h.gone q' ?_
    rw [List.perm_middle.mem_iff]
    exact List.mem_cons_of_mem _ hq'
  have hother (output : ScheduledOutput) (heq : output.requestId = q.request.requestId) :
      [output].filter (·.requestId = id) = [] := by
    simp [heq, hq]
  unfold DpScheduler.deliver releaseFrom
  dsimp only
  split_ifs
  · refine ⟨fun q' hq' => hrest q' ?_, ?_, ?_⟩
    · change q' ∈ (DpScheduler.release _ rank _ _).live ++ hand at hq'
      rw [live_release] at hq'
      exact hq'
    · simp only [outputs_release, List.filter_append]
      rw [hother _ rfl, List.append_nil]
      exact h.steps
    · simp only [outputs_release, List.filter_append]
      rw [hother _ rfl, List.append_nil]
      exact h.finished
  · refine ⟨fun q' hq' => ?_, ?_, h.finished⟩
    · simp only [live, List.mem_append, List.mem_singleton] at hq' hrest
      rcases hq' with ((hq' | hq' | rfl) | hq') | hq'
      · exact hrest q' (.inl (.inl (.inl hq')))
      · exact hrest q' (.inl (.inl (.inr hq')))
      · exact hq
      · exact hrest q' (.inl (.inr hq'))
      · exact hrest q' (.inr hq')
    · simp only [List.filter_append]
      rw [hother _ rfl, List.append_nil]
      exact h.steps

theorem keptBy (id : RequestId) (steps finished : List ScheduledOutput) :
    KeptBy anyMove fun s _ hand => Without id steps finished s hand where
  rank := fun s rank rank' h => h
  workerPool := fun s rank hand workerPool _ h => ⟨h.gone, h.steps, h.finished⟩
  take := fun s sequence running h hrun => by
    refine h.congr (fun q hq => ⟨q, ?_, rfl⟩) rfl rfl
    rw [(perm_take hrun).mem_iff, List.append_nil]
    exact hq
  complete := fun s rank forwardMode hand q token _ h => by
    have hadvanced : Without id steps finished s (advanced q :: hand) :=
      h.congr (fun q' hq' => by
        rw [List.perm_middle.mem_iff] at hq'
        rcases List.mem_cons.mp hq' with rfl | hq'
        · exact ⟨q, by simp, rfl⟩
        · exact ⟨q', List.perm_middle.mem_iff.mpr (List.mem_cons_of_mem _ hq'), rfl⟩) rfl rfl
    unfold DpScheduler.completeRequest
    dsimp only
    split_ifs
    · exact (hadvanced.publish _).deliver rank token
    · refine (hadvanced.publish (advanced q)).congr (fun q' hq' => ?_) rfl rfl
      rcases List.mem_cons.mp hq' with rfl | hq'
      · exact ⟨advanced q, by simp, rfl⟩
      · exact ⟨q', List.perm_middle.mem_iff.mpr (List.mem_cons_of_mem _ hq'), rfl⟩
    · exact h.deliver rank token
  drop := fun s rank hand _ h =>
    h.congr (fun q hq => ⟨q, List.mem_append_left _ (by simpa using hq), rfl⟩) rfl rfl
  decode := fun s hand rank kept q queue allocator allocator' slots h hqueue _ _ _ => by
    refine h.congr (fun q' hq' => ?_) rfl rfl
    have hperm := perm_decode s kept queue hand q
    rw [← hqueue] at hperm
    rw [← List.append_assoc] at hq'
    rcases List.mem_append.mp hq' with hq' | hq'
    · exact ⟨q', hperm.mem_iff.mpr (List.mem_cons_of_mem _ hq'), rfl⟩
    · refine ⟨q, hperm.mem_iff.mpr List.mem_cons_self, ?_⟩
      rw [List.mem_singleton.mp hq']
      rfl
  matched := fun s rank hand q queue h hqueue => by
    refine h.congr (fun q' hq' => ?_) rfl rfl
    rcases List.mem_cons.mp hq' with rfl | hq'
    · exact ⟨q, by simp [live, hqueue], (idsOf_matched s q).symm⟩
    · refine ⟨q', ?_, rfl⟩
      rw [live, hqueue]
      exact List.mem_cons_of_mem _ hq'
  prefill := fun s hand rank q queue allocator allocator' slots _ h hqueue _ _ _ => by
    refine h.congr (fun q' hq' => ?_) rfl rfl
    rw [← List.append_assoc] at hq'
    rcases List.mem_append.mp hq' with hq' | hq'
    · refine ⟨q', ?_, rfl⟩
      rw [live, hqueue]
      exact List.mem_cons_of_mem _ hq'
    · refine ⟨q, by simp [live, hqueue], ?_⟩
      rw [List.mem_singleton.mp hq']
      exact (idsOf_matched s q).symm
  submit := fun s hand sequence rank h _ => by
    refine h.congr (fun q hq => ⟨q, ?_, rfl⟩) rfl rfl
    rw [(perm_submit s hand sequence rank).mem_iff]
    exact hq

theorem of_gone (h : ∀ q ∈ s.live, q.request.requestId ≠ id) :
    Without id (s.stepOutputs.filter (·.requestId = id))
      (s.finishedOutputs.filter (·.requestId = id)) s [] :=
  ⟨by simpa using h, rfl, rfl⟩

/-- A state that differs from another one in the allocators and in requests that are not there. -/
theorem of_withoutAllocators (h : Without id steps finished s hand) {queue queue' : List DpRequest}
    (hwaiting : queue ⊆ s.waitingQueue) (hdecode : queue' ⊆ s.decodeQueue)
    (heq : s'.withoutAllocators =
      { s.withoutAllocators with waitingQueue := queue, decodeQueue := queue' }) :
    Without id steps finished s' hand := by
  have hfield {β : Type} (f : DpScheduler → β) := congrArg f heq
  refine h.congr (fun q hq => ⟨q, ?_, rfl⟩) (hfield stepOutputs) (hfield finishedOutputs)
  have hlive : s'.live = queue ++ queue' ++ s.runningBatches.flatMap (·.batch.requests) :=
    hfield live
  rw [hlive] at hq
  simp only [live, List.mem_append] at hq ⊢
  rcases hq with ((hq | hq) | hq) | hq
  · exact .inl (.inl (.inl (hwaiting hq)))
  · exact .inl (.inl (.inr (hdecode hq)))
  · exact .inl (.inr hq)
  · exact .inr hq

/-- **A request does not come back** unless its identifier is used again. A call returns outputs of
it that were there, or leaves them where they are. -/
theorem apply (hpool : Pooled s.workerPool s.runningBatches [])
    (h : ∀ q ∈ s.live, q.request.requestId ≠ id) (op : DpOperation)
    (hop : id ∉ s.enqueuedBy op) :
    (∀ q ∈ (s.apply op).live, q.request.requestId ≠ id) ∧
      (s.drainedSteps op ++ (s.apply op).stepOutputs).filter (·.requestId = id) =
        s.stepOutputs.filter (·.requestId = id) ∧
      (s.drainedFinished op ++ (s.apply op).finishedOutputs).filter (·.requestId = id) =
        s.finishedOutputs.filter (·.requestId = id) := by
  have hwithout := of_gone h
  have hdone (hnext : Without id (s.stepOutputs.filter (·.requestId = id))
      (s.finishedOutputs.filter (·.requestId = id)) (s.apply op) []) :
      (∀ q ∈ (s.apply op).live, q.request.requestId ≠ id) ∧
        (s.apply op).stepOutputs.filter (·.requestId = id) =
          s.stepOutputs.filter (·.requestId = id) ∧
        (s.apply op).finishedOutputs.filter (·.requestId = id) =
          s.finishedOutputs.filter (·.requestId = id) :=
    ⟨fun q hq => hnext.gone q (List.mem_append_left _ hq), hnext.steps, hnext.finished⟩
  cases op with
  | step =>
    exact hdone ((keptBy id _ _).step 0 hpool.agrees (stepAlong_anyMove s .step) hwithout)
  | stepBlocking =>
    exact hdone ((keptBy id _ _).stepBlocking 0 hpool.agrees (stepAlong_anyMove s .stepBlocking)
      hwithout)
  | abortRequest requestId =>
    exact hdone (hwithout.of_withoutAllocators (List.filter_subset_self _)
      (List.filter_subset_self _) (withoutAllocators_abortRequest s requestId))
  | abortAllRequests =>
    exact hdone (hwithout.of_withoutAllocators (List.nil_subset _) (List.nil_subset _)
      (withoutAllocators_abortAllRequests s))
  | enqueue requestId inputIds sampling disaggregatedParams dataParallelRank =>
    refine ⟨fun q hq => ?_, rfl, rfl⟩
    simp only [DpScheduler.apply, enqueue, live, List.mem_append, List.mem_singleton] at hq h
    rcases hq with ((hq | rfl) | hq) | hq
    · exact h q (.inl (.inl hq))
    · exact fun heq => hop (List.mem_singleton.mpr heq.symm)
    · exact h q (.inl (.inr hq))
    · exact h q (.inr hq)
  | drainFinishedOutputs =>
    refine ⟨h, rfl, ?_⟩
    simp [DpScheduler.apply, drainedFinished]
  | drainStepOutputs =>
    refine ⟨h, ?_, rfl⟩
    simp [DpScheduler.apply, drainedSteps]
  | _ => exact ⟨h, rfl, rfl⟩

/-- In a whole run. -/
theorem run (hpool : Pooled s.workerPool s.runningBatches [])
    (h : ∀ q ∈ s.live, q.request.requestId ≠ id) (later : List DpOperation)
    (hlater : ∀ op ∈ later, id ∉ s.enqueuedBy op) :
    (∀ q ∈ (s.run later).live, q.request.requestId ≠ id) ∧
      (emitted DpScheduler.apply drainedSteps s later ++
          (s.run later).stepOutputs).filter (·.requestId = id) =
        s.stepOutputs.filter (·.requestId = id) ∧
      (emitted DpScheduler.apply drainedFinished s later ++
          (s.run later).finishedOutputs).filter (·.requestId = id) =
        s.finishedOutputs.filter (·.requestId = id) := by
  induction later generalizing s with
  | nil => exact ⟨h, rfl, rfl⟩
  | cons op later ih =>
    rw [List.forall_mem_cons] at hlater
    obtain ⟨hlive, hsteps, hfinished⟩ := apply hpool h op hlater.1
    obtain ⟨hlive', hsteps', hfinished'⟩ := ih (hpool.apply op) hlive
      fun op' hop' => by
        have hother := hlater.2 op' hop'
        cases op' <;> exact hother
    refine ⟨hlive', ?_, ?_⟩
    · rw [emitted, List.append_assoc, List.filter_append]
      exact (congrArg _ hsteps').trans (by rw [← List.filter_append]; exact hsteps)
    · rw [emitted, List.append_assoc, List.filter_append]
      exact (congrArg _ hfinished').trans (by rw [← List.filter_append]; exact hfinished)

end Without

/-! ### Pages that an abort gives back -/

namespace Stocked

theorem publish (h : Stocked s) (q : DpRequest) : Stocked (s.publish q) := by
  unfold DpScheduler.publish
  dsimp only
  split <;> exact h

theorem deliver (h : Stocked s) (rank : ℕ) (q : DpRequest) (token : GeneratedToken) :
    Stocked (s.deliver rank q token) := by
  have hstep (outputs : List ScheduledOutput) : Stocked { s with stepOutputs := outputs } := h
  unfold DpScheduler.deliver releaseFrom
  dsimp only
  split_ifs
  · exact (hstep _).release rank _ _
  · exact h

theorem allocate (h : Stocked s) {rank : ℕ} {allocator allocator' : CachePageAllocator}
    {seq slots : List ℕ} {n : ℕ} (ha : s.allocators[rank]? = some allocator)
    (halloc : allocator.allocateForSequence seq n = .ok (allocator', slots)) :
    Stocked { s with allocators := s.allocators.set rank allocator' } := by
  intro a hmem
  rcases List.mem_or_eq_of_mem_set hmem with hmem | rfl
  · exact h a hmem
  · obtain ⟨hv, hp⟩ := h allocator (List.mem_of_getElem? ha)
    obtain ⟨fresh, hfresh⟩ :=
      CachePageAllocator.allocates_of_allocateForSequence hv.pageSize_pos halloc
    exact ⟨hfresh.valid hv, hfresh.pageSize_eq.trans hp⟩

theorem keptBy : KeptBy anyMove fun s _ _ => Stocked s where
  rank := fun s rank rank' h => h
  workerPool := fun s rank hand workerPool _ h => h
  take := fun s sequence running h _ => h
  complete := fun s rank forwardMode hand q token _ h => by
    unfold DpScheduler.completeRequest
    dsimp only
    split_ifs
    · exact (h.publish _).deliver rank _ token
    · exact h.publish _
    · exact h.deliver rank q token
  drop := fun s rank hand _ h => h
  decode := fun s hand rank kept q queue allocator allocator' slots h _ _ ha halloc =>
    h.allocate ha halloc
  matched := fun s rank hand q queue h _ => h
  prefill := fun s hand rank q queue allocator allocator' slots _ h _ ha _ halloc =>
    h.allocate ha halloc
  submit := fun s hand sequence rank h _ => h

theorem releaseDecode (h : Stocked s) (q : DpRequest) : Stocked (s.releaseDecode q) := by
  unfold DpScheduler.releaseDecode
  split_ifs
  · exact h.release _ _ _
  · exact h

theorem releaseWaiting (h : Stocked s) (q : DpRequest) : Stocked (s.releaseWaiting q) := by
  unfold DpScheduler.releaseWaiting
  split_ifs
  · exact h.release _ _ _
  · exact h

theorem foldl (f : DpScheduler → DpRequest → DpScheduler) (hf : ∀ s q, Stocked s → Stocked (f s q))
    (h : Stocked s) (queue : List DpRequest) : Stocked (queue.foldl f s) := by
  induction queue generalizing s with
  | nil => exact h
  | cons q queue ih => exact ih (hf s q h)

theorem apply (h : Stocked s) (hpool : Pooled s.workerPool s.runningBatches [])
    (op : DpOperation) : Stocked (s.apply op) := by
  cases op with
  | step => exact keptBy.step 0 hpool.agrees (stepAlong_anyMove s .step) h
  | stepBlocking => exact keptBy.stepBlocking 0 hpool.agrees (stepAlong_anyMove s .stepBlocking) h
  | abortRequest requestId =>
    exact foldl DpScheduler.releaseDecode (fun s q h => h.releaseDecode q)
      (s := { s with
        waitingQueue := s.waitingQueue.filter (·.request.requestId ≠ requestId)
        decodeQueue := s.decodeQueue.filter (·.request.requestId ≠ requestId) }) h _
  | abortAllRequests =>
    have hempty : Stocked { s with waitingQueue := [], decodeQueue := [] } := h
    exact (hempty.foldl DpScheduler.releaseWaiting (fun s q h => h.releaseWaiting q) _).foldl
      DpScheduler.releaseDecode (fun s q h => h.releaseDecode q) _
  | flushCache =>
    intro allocator hmem
    obtain ⟨allocator', hmem', rfl⟩ := List.mem_map.mp hmem
    exact ⟨(h allocator' hmem').1.reset, (h allocator' hmem').2⟩
  | _ => exact h

theorem run (h : Stocked s) (hpool : Pooled s.workerPool s.runningBatches [])
    (ops : List DpOperation) : Stocked (s.run ops) :=
  (foldl_invariant (I := fun s => Stocked s ∧ Pooled s.workerPool s.runningBatches [])
    (fun _ op _ h => ⟨h.1.apply h.2 op, h.2.apply op⟩)
    (along_of_forall (fun _ _ => trivial) s ops) ⟨h, hpool⟩).1

end Stocked

theorem stocked_new (hnew : s.IsNew) : Stocked s := (kept_new hnew).pages.valid

theorem pageSize_pos_run (hnew : s.IsNew) (ops : List DpOperation) : 0 < (s.run ops).pageSize := by
  have hconfigured := (regular_run hnew ops).configured
  have hpos : 0 < (s.run ops).allocators.length :=
    hconfigured.length_allocators ▸ hconfigured.ranks_pos
  obtain ⟨allocator, hmem⟩ := List.exists_mem_of_length_pos hpos
  rw [← ((stocked_new hnew).run (pooled_new hnew) ops allocator hmem).2]
  exact hconfigured.pageSize_pos allocator hmem

/-- Releases only free pages. -/
theorem allocatedPages_release_subset (h : Stocked s) (rank : ℕ) (slots origins : List ℕ) (r : ℕ) :
    (s.release rank slots origins).allocatedPages r ⊆ s.allocatedPages r := by
  obtain ⟨hpages, hother⟩ := h.allocatedPages_release rank slots origins
  by_cases hr : r = rank
  · rw [hr, hpages]
    exact Finset.sdiff_subset
  · exact (hother r hr).subset

theorem allocatedPages_releaseDecode_subset (h : Stocked s) (q : DpRequest) (r : ℕ) :
    (s.releaseDecode q).allocatedPages r ⊆ s.allocatedPages r := by
  unfold releaseDecode releaseFrom
  split_ifs
  · exact allocatedPages_release_subset h _ _ _ r
  · exact Finset.Subset.refl _

theorem allocatedPages_releaseWaiting_subset (h : Stocked s) (q : DpRequest) (r : ℕ) :
    (s.releaseWaiting q).allocatedPages r ⊆ s.allocatedPages r := by
  unfold releaseWaiting
  split_ifs
  · exact allocatedPages_release_subset h _ _ _ r
  · exact Finset.Subset.refl _

theorem allocatedPages_foldl_releaseDecode_subset (h : Stocked s) (queue : List DpRequest) (r : ℕ) :
    (queue.foldl releaseDecode s).allocatedPages r ⊆ s.allocatedPages r := by
  induction queue generalizing s with
  | nil => exact Finset.Subset.refl _
  | cons q queue ih =>
    exact (ih (h.releaseDecode q)).trans (allocatedPages_releaseDecode_subset h q r)

theorem allocatedPages_foldl_releaseWaiting_subset (h : Stocked s) (queue : List DpRequest)
    (r : ℕ) : (queue.foldl releaseWaiting s).allocatedPages r ⊆ s.allocatedPages r := by
  induction queue generalizing s with
  | nil => exact Finset.Subset.refl _
  | cons q queue ih =>
    exact (ih (h.releaseWaiting q)).trans (allocatedPages_releaseWaiting_subset h q r)

/-- The pages that start past the prompt of a request queued for decoding are free. -/
theorem notMem_releaseDecode (h : Stocked s) (hp : 0 < s.pageSize) {rank page : ℕ}
    (hrank : q.PinnedTo rank) (hstart : page * s.pageSize ∈ q.decodeSlots) :
    page ∉ (s.releaseDecode q).allocatedPages rank := by
  have hnonneg : 0 ≤ q.request.dataParallelRank := hrank ▸ Int.natCast_nonneg rank
  have htoNat : q.request.dataParallelRank.toNat = rank := by
    rw [show q.request.dataParallelRank = (rank : ℤ) from hrank, Int.toNat_natCast]
  unfold releaseDecode releaseFrom
  rw [if_pos hnonneg, htoNat, (h.allocatedPages_release rank _ _).1]
  intro hmem
  exact (Finset.mem_sdiff.mp hmem).2 (List.mem_toFinset.mpr ((mem_firstPages hp).mpr hstart))

theorem notMem_foldl_releaseDecode (h : Stocked s) (hp : 0 < s.pageSize) {queue : List DpRequest}
    (hq : q ∈ queue) {rank page : ℕ} (hrank : q.PinnedTo rank)
    (hstart : page * s.pageSize ∈ q.decodeSlots) :
    page ∉ (queue.foldl releaseDecode s).allocatedPages rank := by
  induction queue generalizing s with
  | nil => cases hq
  | cons q' queue ih =>
    have hcore := withoutAllocators_foldl_releaseDecode [q'] s
    have hsize : (s.releaseDecode q').pageSize = s.pageSize := by
      have hfield := congrArg pageSize hcore
      exact hfield
    rcases List.mem_cons.mp hq with rfl | hq
    · exact fun hmem => notMem_releaseDecode h hp hrank hstart
        (allocatedPages_foldl_releaseDecode_subset (h.releaseDecode q) queue rank hmem)
    · exact ih (h.releaseDecode q') (hsize ▸ hp) hq (hsize ▸ hstart)

/-! ### Aborts -/

/-- An abort is made by one or two calls of the scheduler. -/
theorem Aborts.cases (h : Aborts s id s') : s' = s.apply (.abortRequest id) ∨
    s' = s.apply .abortAllRequests ∨
      s' = (s.apply .drainStepOutputs).apply (.abortRequest id) := by
  cases h with
  | request => exact .inl rfl
  | all => exact .inr (.inl rfl)
  | sink tokenizer c sink respond outputs hscheduler hstopped =>
    subst hscheduler
    refine .inr (.inr ?_)
    simp only [DpCoordinator.drain]
    cases hpass : DpCoordinator.passOutputs id sink outputs c.scheduler.stepOutputs with
    | mk outputs' stop =>
      rw [hpass] at hstopped
      dsimp only at hstopped
      subst hstopped
      rfl

/-- What an abort does to a request that is in no running batch. -/
structure Aborted (s s' : DpScheduler) (id : RequestId) : Prop where
  pooled : Pooled s'.workerPool s'.runningBatches []
  gone : ∀ q ∈ s'.live, q.request.requestId ≠ id
  pages : ∀ q ∈ s.waitingQueue ++ s.decodeQueue, q.request.requestId = id →
    ∀ rank, ∀ x ∈ q.slotsFrom rank, s'.FreeOrCached rank (x / s.pageSize)

theorem FreeOrCached.shrink {rank page : ℕ} (h : s.FreeOrCached rank page)
    (hpages : s'.allocatedPages rank ⊆ s.allocatedPages rank)
    (hcached : s'.cachedSlots = s.cachedSlots) (hsize : s'.pageSize = s.pageSize) :
    s'.FreeOrCached rank page := by
  unfold FreeOrCached
  rw [hcached, hsize]
  exact h.imp_left fun hfree hmem => hfree (hpages hmem)

/-- The requests that are left are those of the queues and those in running batches. -/
theorem gone_of_withoutAllocators (hrunning : ¬s.IsRunning id) {queue queue' : List DpRequest}
    (hwaiting : ∀ q ∈ queue, q.request.requestId ≠ id)
    (hdecode : ∀ q ∈ queue', q.request.requestId ≠ id)
    (heq : s'.withoutAllocators =
      { s.withoutAllocators with waitingQueue := queue, decodeQueue := queue' }) :
    ∀ q ∈ s'.live, q.request.requestId ≠ id := by
  intro q hq
  have hfield {β : Type} (f : DpScheduler → β) := congrArg f heq
  have hlive : s'.live = queue ++ queue' ++ s.runningBatches.flatMap (·.batch.requests) :=
    hfield live
  rw [hlive] at hq
  rcases List.mem_append.mp hq with hq | hq
  · exact (List.mem_append.mp hq).elim (hwaiting q) (hdecode q)
  · obtain ⟨b, hb, hq⟩ := List.mem_flatMap.mp hq
    exact fun heq => hrunning ⟨b, hb, q, hq, heq⟩

theorem aborted_abortRequest (hpool : Pooled s.workerPool s.runningBatches [])
    (hstocked : Stocked s) (hp : 0 < s.pageSize) (hrunning : ¬s.IsRunning id)
    (hleaves : s.LeavesNoPages id) : Aborted s (s.apply (.abortRequest id)) id := by
  have hcore : (s.apply (.abortRequest id)).withoutAllocators = _ :=
    withoutAllocators_abortRequest s id
  have hfield {β : Type} (f : DpScheduler → β) := congrArg f hcore
  have hkept (queue : List DpRequest) :
      ∀ q ∈ queue.filter (·.request.requestId ≠ id), q.request.requestId ≠ id :=
    fun q hq => of_decide_eq_true (List.mem_filter.mp hq).2
  refine ⟨hpool.apply _, gone_of_withoutAllocators hrunning (hkept _) (hkept _) hcore,
    fun q hq hid rank x hx => ?_⟩
  have hstocked' : Stocked { s with
      waitingQueue := s.waitingQueue.filter (·.request.requestId ≠ id)
      decodeQueue := s.decodeQueue.filter (·.request.requestId ≠ id) } := hstocked
  rcases hleaves q hq hid rank x hx with hpage | ⟨hdecode, hpinned, hstart⟩
  · exact hpage.shrink (allocatedPages_foldl_releaseDecode_subset hstocked' _ rank)
      (hfield cachedSlots) (hfield pageSize)
  · refine .inl (notMem_foldl_releaseDecode hstocked' hp ?_ hpinned hstart)
    exact List.mem_filter.mpr ⟨hdecode, by simpa using hid⟩

theorem aborted_abortAllRequests (hpool : Pooled s.workerPool s.runningBatches [])
    (hstocked : Stocked s) (hp : 0 < s.pageSize) (hrunning : ¬s.IsRunning id)
    (hleaves : s.LeavesNoPages id) : Aborted s (s.apply .abortAllRequests) id := by
  have hcore : (s.apply .abortAllRequests).withoutAllocators = _ :=
    withoutAllocators_abortAllRequests s
  have hfield {β : Type} (f : DpScheduler → β) := congrArg f hcore
  refine ⟨hpool.apply _, gone_of_withoutAllocators hrunning (by simp) (by simp) hcore,
    fun q hq hid rank x hx => ?_⟩
  have hempty : Stocked { s with waitingQueue := [], decodeQueue := [] } := hstocked
  have hwaiting := hempty.foldl releaseWaiting (fun s q h => h.releaseWaiting q) s.waitingQueue
  have hsize : (s.waitingQueue.foldl releaseWaiting
      { s with waitingQueue := [], decodeQueue := [] }).pageSize = s.pageSize := by
    have hfield := congrArg pageSize (withoutAllocators_foldl_releaseWaiting s.waitingQueue
      { s with waitingQueue := [], decodeQueue := [] })
    exact hfield
  rcases hleaves q hq hid rank x hx with hpage | ⟨hdecode, hpinned, hstart⟩
  · refine hpage.shrink ?_ (hfield cachedSlots) (hfield pageSize)
    exact (allocatedPages_foldl_releaseDecode_subset hwaiting _ rank).trans
      (allocatedPages_foldl_releaseWaiting_subset hempty _ rank)
  · refine .inl (notMem_foldl_releaseDecode hwaiting ?_ hdecode hpinned ?_)
    · rw [hsize]
      exact hp
    · rw [hsize]
      exact hstart

theorem Aborts.aborted (h : Aborts s id s') (hpool : Pooled s.workerPool s.runningBatches [])
    (hstocked : Stocked s) (hp : 0 < s.pageSize) (hrunning : ¬s.IsRunning id)
    (hleaves : s.LeavesNoPages id) : Aborted s s' id := by
  rcases h.cases with rfl | rfl | rfl
  · exact aborted_abortRequest hpool hstocked hp hrunning hleaves
  · exact aborted_abortAllRequests hpool hstocked hp hrunning hleaves
  · have hdrained := aborted_abortRequest (s := s.apply .drainStepOutputs) hpool hstocked hp
      hrunning hleaves
    exact ⟨hdrained.pooled, hdrained.gone, hdrained.pages⟩

/-! ### Requests that leave no pages -/

/-- The processed part of the prompt is in the prefix cache, with the slots of the request. -/
def Published (s : DpScheduler) (q : DpRequest) : Prop :=
  ∀ k < q.request.promptTokensProcessed, ∀ x rank, q.request.sequenceCachePages[k]? = some x →
    q.origins[k]? = some rank → x ∈ s.cachedSlots rank

/-- A request that is queued for decoding starts a page in its prompt or past it. -/
theorem freeOrCached_of_published (h : Kept s 0 []) (hq : q ∈ s.decodeQueue)
    (hpublished : s.Published q) {rank x : ℕ} (hx : x ∈ q.slotsFrom rank) :
    s.FreeOrCached rank (x / s.pageSize) ∨
      q.PinnedTo rank ∧ x / s.pageSize * s.pageSize ∈ q.decodeSlots := by
  have hlive : q ∈ s.live ++ [] := by simp [live, hq]
  have hlaid := h.pages.owned.laid q hlive
  have hprocessed := (h.staged.decode q hq).1
  have hcached {y : ℕ} (hy : y ∈ s.cachedSlots rank) (hpage : y / s.pageSize = x / s.pageSize) :
      s.FreeOrCached rank (x / s.pageSize) := .inr ⟨y, hy, hpage⟩
  obtain ⟨k, hslot, horigin⟩ := hx
  rcases Nat.lt_or_ge k q.request.promptTokensProcessed with hk | hk
  · exact .inl (hcached (hpublished k hk x rank hslot horigin) rfl)
  · have hhit : q.request.cacheHitTokenCount ≤ k := hlaid.hit_le.trans (hprocessed ▸ hk)
    have hrank : q.PinnedTo rank := hlaid.origin k rank hhit horigin
    have hmem : q.owner ∈ ownersOn (s.live ++ []) rank :=
      List.mem_map.mpr ⟨q, List.mem_filter.mpr ⟨hlive, by simpa using hrank⟩, rfl⟩
    have hown : x ∈ q.ownSlots := List.mem_iff_getElem?.mpr
      ⟨k - q.request.cacheHitTokenCount, by
        rw [DpRequest.ownSlots, List.getElem?_drop, Nat.add_sub_cancel' hhit]
        exact hslot⟩
    have hfirst : x / s.pageSize * s.pageSize ∈ q.ownSlots :=
      (mem_firstPages h.pages.pageSize_pos).mp
        (((h.pages.owned.exclusive rank).paged _ hmem).page_mem_firstPages h.pages.pageSize_pos
          hown)
    obtain ⟨i, hi⟩ := List.mem_iff_getElem?.mp hfirst
    rw [DpRequest.ownSlots, List.getElem?_drop] at hi
    have hhit' : q.request.cacheHitTokenCount ≤ q.request.cacheHitTokenCount + i :=
      Nat.le_add_right _ _
    generalize q.request.cacheHitTokenCount + i = j at hi hhit'
    rcases Nat.lt_or_ge j q.request.promptTokensProcessed with hj | hj
    · have hlt : j < q.origins.length :=
        hlaid.length_origins ▸ (List.getElem?_eq_some_iff.mp hi).1
      obtain ⟨r, hr⟩ : ∃ r, q.origins[j]? = some r := ⟨_, List.getElem?_eq_getElem hlt⟩
      obtain rfl : r = rank := by
        exact_mod_cast (hlaid.origin j r hhit' hr).symm.trans hrank
      exact .inl (hcached (hpublished j hj _ r hi hr)
        (Nat.mul_div_cancel _ h.pages.pageSize_pos))
    · refine .inr ⟨hrank, List.mem_iff_getElem?.mpr ⟨j - q.request.inputIds.length, ?_⟩⟩
      rw [DpRequest.decodeSlots, List.getElem?_drop, Nat.add_sub_cancel' (hprocessed ▸ hj)]
      exact hi

/-- **A request whose prompt is in the cache leaves no pages.** -/
theorem leavesNoPages_of_published (h : Kept s 0 [])
    (hpublished : ∀ q ∈ s.waitingQueue ++ s.decodeQueue, q.request.requestId = id →
      s.Published q) : s.LeavesNoPages id := by
  intro q hq hid rank x hx
  have hpub := hpublished q hq hid
  rcases List.mem_append.mp hq with hwaiting | hdecode
  · obtain ⟨k, hslot, horigin⟩ := hx
    refine .inl (.inr ⟨x, hpub k ?_ x rank hslot horigin, rfl⟩)
    rw [← h.staged.waiting q hwaiting]
    exact (List.getElem?_eq_some_iff.mp hslot).1
  · exact (freeOrCached_of_published h hdecode hpub hx).imp_right fun hstart => ⟨hdecode, hstart⟩

end DpScheduler

open DpScheduler in
/-- **Aborts have their effect** in every state that a run reaches, and in view of all that comes
afterwards while the identifier is not used again, if the request is in no running batch and leaves
no pages. -/
theorem dp_abort_effective {s₀ s' : DpScheduler} (hnew : s₀.IsNew) (ops : List DpOperation)
    (id : RequestId) (habort : Aborts (s₀.run ops) id s') (hrunning : ¬(s₀.run ops).IsRunning id)
    (hleaves : (s₀.run ops).LeavesNoPages id) (later : List DpOperation)
    (hlater : ∀ op ∈ later, id ∉ s'.enqueuedBy op) :
    AbortEffective (s₀.run ops) s' id later := by
  have hpool := pooled_run hnew ops
  have hstocked := (stocked_new hnew).run (pooled_new hnew) ops
  have haborted := habort.aborted hpool hstocked (pageSize_pos_run hnew ops) hrunning hleaves
  obtain ⟨hlive, hsteps, hfinished⟩ := Without.run haborted.pooled haborted.gone later hlater
  refine ⟨fun b hb _ q hq => hlive q ?_, hsteps, hfinished, fun _ q hq hid rank x hx => ?_⟩
  · exact List.mem_append_right _ (List.mem_flatMap.mpr ⟨b, hb, hq⟩)
  · refine ⟨[], List.nil_prefix, haborted.pages q ?_ hid rank x hx⟩
    refine (List.mem_append.mp hq).resolve_right fun hmem => ?_
    obtain ⟨b, hb, hq⟩ := List.mem_flatMap.mp hmem
    exact hrunning ⟨b, hb, q, hq, hid⟩

namespace DpScheduler

/-- A request waits for a page to be decoded on. Its prompt is in the cache, and nothing more is
heard of it after an abort. -/
theorem dp_abort_effective_queued : ∃ s, IsNew s ∧
    let s := s.run [.enqueue ⟨"a"⟩ [1, 2] ⟨2⟩ none 0, .step,
      .complete 0 (.ok ⟨[⟨[7], false⟩]⟩), .step]
    s.decodeQueue.map (·.request.requestId) = [⟨"a"⟩] ∧
      AbortEffective s (s.abortRequest ⟨"a"⟩).1 ⟨"a"⟩ [.step, .drainStepOutputs, .step] := by
  have hnew : IsNew _ := ⟨1, _, [⟨2, 2, [0], ∅⟩], 4, 2, none, rfl, fun allocator h => ⟨2, by
    rw [List.mem_singleton.mp h]
    rfl⟩, rfl⟩
  refine ⟨_, hnew, by decide, dp_abort_effective hnew _ _ .request ?_ ?_ _ ?_⟩
  · rintro ⟨b, hb, -⟩
    cases hb
  · rintro q hq - rank x ⟨k, hslot, horigin⟩
    obtain rfl := List.mem_singleton.mp hq
    rcases k with _ | _ | k
    · obtain rfl := Option.some.inj hslot
      obtain rfl := Option.some.inj horigin
      exact .inl (.inr ⟨0, ⟨[1], rfl, rfl⟩, rfl⟩)
    · obtain rfl := Option.some.inj hslot
      obtain rfl := Option.some.inj horigin
      exact .inl (.inr ⟨0, ⟨[1], rfl, rfl⟩, rfl⟩)
    · cases hslot
  · simp [enqueuedBy]

/-- A request that is in a running batch when it is aborted goes on to leave its output. A request
that waits for the next chunk of its prompt, and skips the prefix cache, keeps its page for ever. -/
theorem not_abortEffective_running :
    (∃ s, IsNew s ∧
      let s := s.run [.enqueue ⟨"a"⟩ [1] ⟨1⟩ none 0, .step]
      ¬AbortEffective s (s.abortRequest ⟨"a"⟩).1 ⟨"a"⟩
        [.complete 0 (.ok ⟨[⟨[7], true⟩]⟩), .step]) ∧
    ∃ s, IsNew s ∧
      let s := s.run [.enqueue ⟨"a"⟩ [1, 2, 3] ⟨1⟩ (some ⟨fakeBootstrapHost, 0, 0⟩) 0, .step,
        .complete 0 (.ok ⟨[⟨[7], false⟩]⟩), .step]
      s.runningBatches = [] ∧ ¬AbortEffective s (s.abortRequest ⟨"a"⟩).1 ⟨"a"⟩ [] := by
  refine ⟨⟨_, ⟨1, _, [⟨2, 2, [0], ∅⟩], 4, 2, none, rfl, fun allocator h => ⟨2, ?_⟩, rfl⟩,
    fun h => absurd h.steps (by decide)⟩, _, ⟨1, _, [⟨2, 2, [0], ∅⟩], 4, 2, some 2, rfl,
    fun allocator h => ⟨2, ?_⟩, rfl⟩, by decide, fun h => ?_⟩
  · rw [List.mem_singleton.mp h]
    rfl
  · rw [List.mem_singleton.mp h]
    rfl
  · obtain ⟨before, hbefore, hpage⟩ :=
      h.pages nofun _ (List.mem_singleton_self _) rfl 0 0 ⟨0, rfl, rfl⟩
    obtain rfl := List.prefix_nil.mp hbefore
    rcases hpage with hfree | ⟨y, ⟨w, hw, -⟩, -⟩
    · exact hfree (by decide)
    · cases (RadixCache.slotAt_default w).symm.trans hw

end DpScheduler

end SglangRs
