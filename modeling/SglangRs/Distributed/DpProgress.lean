import SglangRs.Distributed.DpPool

/-!
# When the data-parallel scheduler stalls

A scheduler with no running batch, but with requests in its queues and enough free pages, is
expected to submit a batch at the next step: nothing else will ever happen. It does so exactly if a
request waits for its next token, or the first waiting request has a prompt token left to process. A
prompt that was found in the prefix cache as a whole has none, and neither has an empty one; the
request then stays at the head of the queue and nothing is submitted any more.

## Main definitions

* `DpScheduler.HasUnmatchedToken`: a waiting request has a token left to process.
* `DpScheduler.Stands`: what a step without a batch may change.

## Main results

* `DpScheduler.step_submits_iff`: when a step submits a batch.
-/

namespace SglangRs

namespace DpScheduler

variable {s s' : DpScheduler} {rank m : ℕ} {q : DpRequest}

/-- A prompt token of the request is neither processed nor found in the prefix cache. -/
def HasUnmatchedToken (s : DpScheduler) (q : DpRequest) : Prop :=
  if q.request.promptTokensProcessed = 0 then
    (s.prefixCache.matchPrefixPageAligned q.request.inputIds s.pageSize).matchedTokenCount <
      q.request.inputIds.length
  else q.request.promptTokensProcessed < q.request.inputIds.length

instance (s : DpScheduler) (q : DpRequest) : Decidable (s.HasUnmatchedToken q) :=
  inferInstanceAs (Decidable (if q.request.promptTokensProcessed = 0 then _ < _ else _ < _))

theorem chunkLen_ne_zero_iff :
    s.chunkLen q ≠ 0 ↔ s.chunkedPrefillSize ≠ some 0 ∧ s.HasUnmatchedToken q := by
  have hbudget : s.chunkBudget = 0 ↔ s.chunkedPrefillSize = some 0 := by
    unfold chunkBudget
    cases s.chunkedPrefillSize with
    | none => simp [usizeMax]
    | some size => simp
  have hremaining : (q.matched s.prefixCache s.cacheOrigins s.pageSize).request.remainingPromptTokens
      = 0 ↔ ¬s.HasUnmatchedToken q := by
    unfold HasUnmatchedToken DpRequest.matched ScheduledRequest.remainingPromptTokens
    split_ifs
    · simp only
      omega
    · omega
  rw [chunkLen, ne_eq, Nat.min_eq_zero_iff, not_or, hremaining, hbudget, not_not]
  tauto

/-- Matching a second time changes nothing. -/
theorem matched_matched (prefixCache cacheOrigins : RadixCache) (pageSize : ℕ) :
    (q.matched prefixCache cacheOrigins pageSize).matched prefixCache cacheOrigins pageSize =
      q.matched prefixCache cacheOrigins pageSize := by
  by_cases hzero : q.request.promptTokensProcessed = 0
  · conv_lhs => rw [DpRequest.matched]
    split_ifs with hmatched
    · simp only [DpRequest.matched, if_pos hzero]
    · rfl
  · simp [DpRequest.matched, hzero]

/-! ### A rank that forms no batch -/

/-- The batch only grows, and as long as it does not, nothing is taken. -/
theorem takeDecode_spec (rank m : ℕ) (queue : List DpRequest) (allocator : CachePageAllocator)
    (batch : List DpRequest) :
    batch <+: (takeDecode rank m queue allocator batch).2.2 ∧
      ((takeDecode rank m queue allocator batch).2.2 = batch →
        takeDecode rank m queue allocator batch = (queue, allocator, batch)) := by
  induction queue generalizing allocator batch with
  | nil => exact ⟨List.prefix_refl _, fun _ => rfl⟩
  | cons q queue ih =>
    rw [takeDecode]
    split_ifs with hfull hrank
    · cases halloc : allocator.allocateForSequence q.request.sequenceCachePages 1 with
      | error error => exact ⟨List.prefix_refl _, fun _ => rfl⟩
      | ok result =>
        obtain ⟨allocator', slots⟩ := result
        obtain ⟨hpre, -⟩ := ih allocator' (batch ++ [q.forwardDecode rank slots])
        refine ⟨(List.prefix_append _ _).trans hpre, fun heq => ?_⟩
        have hlen := hpre.length_le
        dsimp only at heq
        rw [heq] at hlen
        simp at hlen
    · obtain ⟨hpre, hsame⟩ := ih allocator batch
      exact ⟨hpre, fun heq => by rw [hsame heq]⟩
    · exact ⟨List.prefix_refl _, fun _ => rfl⟩

/-- A request pinned to the rank is taken if there is a free page. -/
theorem takeDecode_ne_nil (hm : 0 < m) {allocator : CachePageAllocator}
    (hfree : 1 ≤ allocator.availablePages) (hp : 0 < allocator.pageSize) {queue : List DpRequest}
    (hq : ∃ q ∈ queue, q.request.dataParallelRank = (rank : ℤ)) :
    (takeDecode rank m queue allocator []).2.2 ≠ [] := by
  induction queue with
  | nil => simp at hq
  | cons q queue ih =>
    rw [takeDecode, if_pos (by simpa using hm)]
    split_ifs with hrank
    · obtain ⟨allocator', slots, halloc⟩ := allocator.allocateForSequence_eq_ok
        q.request.sequenceCachePages (n := 1) (by
          rw [Nat.add_sub_cancel_left, Nat.div_self hp]
          exact hfree)
      rw [halloc]
      obtain ⟨hpre, -⟩ := takeDecode_spec rank m queue allocator' ([] ++ [q.forwardDecode rank slots])
      intro hnil
      have hlen := hpre.length_le
      dsimp only at hnil
      rw [hnil] at hlen
      simp at hlen
    · refine ih ?_
      obtain ⟨q', hq', hrank'⟩ := hq
      rcases List.mem_cons.mp hq' with rfl | hq'
      · exact absurd hrank' hrank
      · exact ⟨q', hq', hrank'⟩

theorem isPrefix_takePrefill (s : DpScheduler) (rank : ℕ) (queue : List DpRequest)
    (allocator : CachePageAllocator) (batch : List DpRequest) :
    batch <+: (s.takePrefill rank queue allocator batch).2.2 := by
  induction queue generalizing allocator batch with
  | nil => exact List.prefix_refl _
  | cons q queue ih =>
    rw [takePrefill]
    dsimp only
    split_ifs with hfull hlen
    · exact List.prefix_refl _
    · split
      · exact (List.prefix_append _ _).trans (ih _ _)
      · exact List.prefix_refl _
    · exact List.prefix_refl _

/-- As long as no request is taken, at most the first one is matched. -/
theorem takePrefill_eq_nil {queue : List DpRequest} {allocator : CachePageAllocator}
    (h : (s.takePrefill rank queue allocator []).2.2 = []) :
    s.takePrefill rank queue allocator [] = (queue, allocator, []) ∨
      ∃ q rest, queue = q :: rest ∧ s.takePrefill rank queue allocator [] =
        (q.matched s.prefixCache s.cacheOrigins s.pageSize :: rest, allocator, []) := by
  cases queue with
  | nil => exact .inl rfl
  | cons q queue =>
    rw [takePrefill] at h ⊢
    dsimp only at h ⊢
    split_ifs at h ⊢ with hfull hlen
    · exact .inr ⟨q, queue, rfl, rfl⟩
    · cases halloc : allocator.allocateForSequence
          (q.matched s.prefixCache s.cacheOrigins s.pageSize).request.sequenceCachePages
          (s.chunkLen q) with
      | error error => exact .inr ⟨q, queue, rfl, rfl⟩
      | ok result =>
        obtain ⟨allocator', slots⟩ := result
        simp only [halloc] at h
        have hlen := (isPrefix_takePrefill s rank queue allocator' ([] ++
          [(q.matched s.prefixCache s.cacheOrigins s.pageSize).forwardPrefill rank slots
            (s.chunkLen q)])).length_le
        rw [h] at hlen
        simp at hlen
    · exact .inl rfl

/-! ### The configuration -/

/-- There is an allocator for every rank, and the sizes are positive. -/
structure Configured (s : DpScheduler) : Prop where
  length_allocators : s.allocators.length = s.workerPool.ranks.length
  ranks_pos : 0 < s.workerPool.ranks.length
  maxBatchSize_pos : 0 < s.maxBatchSize
  pageSize_pos : ∀ allocator ∈ s.allocators, 0 < allocator.pageSize

namespace Configured

theorem set (h : Configured s) {allocator allocator' : CachePageAllocator}
    (ha : s.allocators[rank]? = some allocator) (heq : allocator'.pageSize = allocator.pageSize)
    {allocator'' : CachePageAllocator} (hmem : allocator'' ∈ s.allocators.set rank allocator') :
    0 < allocator''.pageSize := by
  rcases List.mem_or_eq_of_mem_set hmem with hmem | rfl
  · exact h.pageSize_pos _ hmem
  · rw [heq]
    exact h.pageSize_pos _ (List.mem_of_getElem? ha)

theorem release (h : Configured s) (target : ℕ) (slots origins : List ℕ) :
    Configured (s.release target slots origins) := by
  unfold DpScheduler.release
  split
  · exact h
  next allocator ha =>
    exact ⟨by simpa using h.length_allocators, h.ranks_pos, h.maxBatchSize_pos,
      fun _ hmem => h.set ha (by rfl) hmem⟩

theorem releaseDecode (h : Configured s) (q : DpRequest) : Configured (s.releaseDecode q) := by
  unfold DpScheduler.releaseDecode
  split_ifs
  · exact h.release _ _ _
  · exact h

theorem releaseWaiting (h : Configured s) (q : DpRequest) : Configured (s.releaseWaiting q) := by
  unfold DpScheduler.releaseWaiting
  split_ifs
  · exact h.release _ _ _
  · exact h

theorem foldl (f : DpScheduler → DpRequest → DpScheduler)
    (hf : ∀ s q, Configured s → Configured (f s q)) (h : Configured s) (queue : List DpRequest) :
    Configured (queue.foldl f s) := by
  induction queue generalizing s with
  | nil => exact h
  | cons q queue ih => exact ih (hf s q h)

theorem publish (h : Configured s) (q : DpRequest) : Configured (s.publish q) := by
  unfold DpScheduler.publish
  dsimp only
  split
  · exact ⟨h.length_allocators, h.ranks_pos, h.maxBatchSize_pos, h.pageSize_pos⟩
  · exact h

theorem deliver (h : Configured s) (rank : ℕ) (q : DpRequest) (token : GeneratedToken) :
    Configured (s.deliver rank q token) := by
  unfold DpScheduler.deliver
  dsimp only
  split
  · have hstep : Configured { s with stepOutputs := s.stepOutputs ++
        [ScheduledOutput.mk q.request.requestId token.tokenIds q.request.cacheHitTokenCount
          (token.finished || (q.request.appendOutputIds token.tokenIds).reachedMaxNewTokens)] } :=
      ⟨h.length_allocators, h.ranks_pos, h.maxBatchSize_pos, h.pageSize_pos⟩
    have hrelease := hstep.release rank (q.request.sequenceCachePages.drop
      q.request.cacheHitTokenCount) (q.origins.drop q.request.cacheHitTokenCount)
    exact ⟨hrelease.length_allocators, hrelease.ranks_pos, hrelease.maxBatchSize_pos,
      hrelease.pageSize_pos⟩
  · exact ⟨h.length_allocators, h.ranks_pos, h.maxBatchSize_pos, h.pageSize_pos⟩

theorem keptBy : KeptBy anyMove fun s _ _ => Configured s where
  rank := fun s rank rank' h => h
  workerPool := fun s rank hand workerPool hlen h =>
    ⟨h.length_allocators.trans hlen.symm, hlen.symm ▸ h.ranks_pos, h.maxBatchSize_pos,
      h.pageSize_pos⟩
  take := fun s sequence running h _ =>
    ⟨h.length_allocators, h.ranks_pos, h.maxBatchSize_pos, h.pageSize_pos⟩
  complete := fun s rank forwardMode hand q token _ h => by
    have hpublish := h.publish (advanced q)
    unfold completeRequest
    dsimp only
    split_ifs
    · exact hpublish.deliver rank (advanced q) token
    · exact ⟨hpublish.length_allocators, hpublish.ranks_pos, hpublish.maxBatchSize_pos,
        hpublish.pageSize_pos⟩
    · exact h.deliver rank q token
  drop := fun s rank hand _ h => h
  decode := fun s hand rank kept q queue allocator allocator' slots h _ _ ha halloc =>
    ⟨by simpa using h.length_allocators, h.ranks_pos, h.maxBatchSize_pos, fun _ hmem =>
      h.set ha (CachePageAllocator.pageSize_allocateForSequence halloc) hmem⟩
  matched := fun s rank hand q queue h _ =>
    ⟨h.length_allocators, h.ranks_pos, h.maxBatchSize_pos, h.pageSize_pos⟩
  prefill := fun s hand rank q queue allocator allocator' slots _ h _ ha _ halloc =>
    ⟨by simpa using h.length_allocators, h.ranks_pos, h.maxBatchSize_pos, fun _ hmem =>
      h.set ha (CachePageAllocator.pageSize_allocateForSequence halloc) hmem⟩
  submit := fun s hand sequence rank h _ =>
    ⟨h.length_allocators, h.ranks_pos, h.maxBatchSize_pos, h.pageSize_pos⟩

theorem apply (h : Configured s) (hpool : Pooled s.workerPool s.runningBatches [])
    (op : DpOperation) : Configured (s.apply op) := by
  cases op with
  | step => exact keptBy.step 0 hpool.agrees (stepAlong_anyMove s .step) h
  | stepBlocking => exact keptBy.stepBlocking 0 hpool.agrees (stepAlong_anyMove s .stepBlocking) h
  | abortRequest requestId =>
    have hkept : Configured { s with
        waitingQueue := s.waitingQueue.filter (·.request.requestId ≠ requestId)
        decodeQueue := s.decodeQueue.filter (·.request.requestId ≠ requestId) } :=
      ⟨h.length_allocators, h.ranks_pos, h.maxBatchSize_pos, h.pageSize_pos⟩
    exact hkept.foldl DpScheduler.releaseDecode (fun s q h => h.releaseDecode q) _
  | abortAllRequests =>
    have hkept : Configured { s with waitingQueue := [], decodeQueue := [] } :=
      ⟨h.length_allocators, h.ranks_pos, h.maxBatchSize_pos, h.pageSize_pos⟩
    exact (hkept.foldl DpScheduler.releaseWaiting (fun s q h => h.releaseWaiting q) _).foldl
      DpScheduler.releaseDecode (fun s q h => h.releaseDecode q) _
  | flushCache =>
    refine ⟨by simpa [DpScheduler.apply, flushCache] using h.length_allocators, h.ranks_pos,
      h.maxBatchSize_pos, fun allocator hmem => ?_⟩
    obtain ⟨allocator', hmem', rfl⟩ := List.mem_map.mp hmem
    exact h.pageSize_pos allocator' hmem'
  | shutdown =>
    simp only [DpScheduler.apply, DpWorkerPool.shutdown]
    split_ifs
    · exact ⟨h.length_allocators, h.ranks_pos, h.maxBatchSize_pos, h.pageSize_pos⟩
    · exact h
  | complete rank result =>
    have hlen : (s.workerPool.complete rank result).ranks.length = s.workerPool.ranks.length := by
      unfold DpWorkerPool.complete
      split
      · rfl
      · split
        · rfl
        · simp
    exact keptBy.workerPool s 0 [] _ hlen h
  | _ => exact ⟨h.length_allocators, h.ranks_pos, h.maxBatchSize_pos, h.pageSize_pos⟩

end Configured

theorem configured_new (hnew : s.IsNew) : Configured s := by
  obtain ⟨dpSize, pool, allocators, maxBatchSize, pageSize, chunkedPrefillSize, hlaunch, halloc,
    hs⟩ := hnew
  unfold DpWorkerPool.launch at hlaunch
  split_ifs at hlaunch with hsize
  obtain rfl := Except.ok.inj hlaunch
  unfold new at hs
  split_ifs at hs with hlen hbatch hpage
  obtain rfl := Except.ok.inj hs
  refine ⟨by simpa [DpWorkerPool.dpSize, eq_comm] using hlen, by simpa using Nat.pos_of_ne_zero hsize,
    Nat.pos_of_ne_zero hbatch, fun allocator hmem => ?_⟩
  obtain ⟨slotCapacity, hok⟩ := halloc allocator hmem
  rw [CachePageAllocator.pageSize_withPageSize hok]
  exact Nat.pos_of_ne_zero hpage

/-! ### Steps without a batch -/

/-- Nothing has happened but that the first waiting request was matched. -/
def Stands (s s' : DpScheduler) : Prop :=
  s' = s ∨ ∃ q rest, s.waitingQueue = q :: rest ∧
    s' = { s with waitingQueue := q.matched s.prefixCache s.cacheOrigins s.pageSize :: rest }

/-- A rank that forms no batch leaves the scheduler standing. -/
theorem stands_formBatchForRank (h : s.formBatchForRank rank = .ok (s', none)) : Stands s s' := by
  unfold formBatchForRank at h
  cases ha : s.allocators[rank]? with
  | none => simp [ha] at h
  | some allocator =>
    simp only [ha, Except.ok.injEq, Prod.mk.injEq, ite_eq_left_iff, reduceCtorEq, imp_false,
      not_not] at h
    obtain ⟨rfl, hbatch⟩ := h
    obtain ⟨hpre, hsame⟩ := takeDecode_spec rank s.maxBatchSize s.decodeQueue allocator []
    have hpre' := isPrefix_takePrefill s rank s.waitingQueue
      (takeDecode rank s.maxBatchSize s.decodeQueue allocator []).2.1
      (takeDecode rank s.maxBatchSize s.decodeQueue allocator []).2.2
    rw [hbatch] at hpre'
    have hdecode := hsame (List.prefix_nil.mp hpre')
    simp only [hdecode] at hbatch ⊢
    rcases takePrefill_eq_nil hbatch with heq | ⟨q, rest, hqueue, heq⟩
    · left
      simp only [heq, set_getElem?_self ha]
    · right
      refine ⟨q, rest, hqueue, ?_⟩
      simp only [heq, set_getElem?_self ha]

theorem Stands.trans (h : Stands s s') {s'' : DpScheduler} (h' : Stands s' s'') :
    Stands s s'' := by
  rcases h with rfl | ⟨q, rest, hqueue, rfl⟩
  · exact h'
  · right
    refine ⟨q, rest, hqueue, ?_⟩
    rcases h' with rfl | ⟨q', rest', hqueue', rfl⟩
    · rfl
    · obtain ⟨rfl, rfl⟩ := List.cons.inj hqueue'
      simp only [matched_matched]

theorem Stands.frame (h : Stands s s') : s'.decodeQueue = s.decodeQueue ∧
    s'.allocators = s.allocators ∧ s'.workerPool = s.workerPool ∧
    s'.runningBatches = s.runningBatches ∧ s'.maxBatchSize = s.maxBatchSize := by
  rcases h with rfl | ⟨q, rest, hqueue, rfl⟩ <;> exact ⟨rfl, rfl, rfl, rfl, rfl⟩

theorem chunkLen_matched (q : DpRequest) (rest : List DpRequest) :
    { s with waitingQueue := rest }.chunkLen (q.matched s.prefixCache s.cacheOrigins s.pageSize) =
      s.chunkLen q := by
  simp only [chunkLen, matched_matched, chunkBudget]

/-- The first waiting request stays the one with tokens left to process. -/
theorem Stands.chunkLen_head (h : Stands s s') {q : DpRequest} {rest : List DpRequest}
    (hqueue : s.waitingQueue = q :: rest) :
    ∃ q', s'.waitingQueue = q' :: rest ∧ s'.chunkLen q' = s.chunkLen q ∧
      q'.request.inputIds = q.request.inputIds := by
  rcases h with rfl | ⟨q', rest', hqueue', rfl⟩
  · exact ⟨q, hqueue, rfl, rfl⟩
  · obtain ⟨rfl, rfl⟩ := List.cons.inj (hqueue.symm.trans hqueue')
    refine ⟨_, rfl, chunkLen_matched q _, ?_⟩
    unfold DpRequest.matched
    split_ifs <;> rfl

/-- Without a request that could go on, a rank forms no batch. -/
theorem formBatchForRank_none (ha : rank < s.allocators.length) (hdecode : s.decodeQueue = [])
    (hwaiting : ∀ q rest, s.waitingQueue = q :: rest → s.chunkLen q = 0) :
    ∃ s', s.formBatchForRank rank = .ok (s', none) := by
  unfold formBatchForRank
  rw [List.getElem?_eq_getElem ha, hdecode]
  have hbatch (allocator : CachePageAllocator) :
      (s.takePrefill rank s.waitingQueue allocator []).2.2 = [] := by
    cases hqueue : s.waitingQueue with
    | nil => rfl
    | cons q rest =>
      rw [takePrefill]
      dsimp only
      rw [if_pos (hwaiting q rest hqueue)]
      split_ifs <;> rfl
  simp only [takeDecode, hbatch, if_true]
  exact ⟨_, rfl⟩

/-- With a request that could go on and enough pages, a rank forms a batch. -/
theorem formBatchForRank_some {allocator : CachePageAllocator}
    (ha : s.allocators[rank]? = some allocator) (hp : 0 < allocator.pageSize)
    (hm : 0 < s.maxBatchSize)
    (h : (1 ≤ allocator.availablePages ∧ ∃ q ∈ s.decodeQueue,
        q.request.dataParallelRank = (rank : ℤ)) ∨
      ∃ q rest, s.waitingQueue = q :: rest ∧ s.chunkLen q ≠ 0 ∧
        (q.request.inputIds.length + allocator.pageSize - 1) / allocator.pageSize ≤
          allocator.availablePages) :
    ∃ s' batch, s.formBatchForRank rank = .ok (s', some batch) := by
  have hne : (s.takePrefill rank s.waitingQueue
      (takeDecode rank s.maxBatchSize s.decodeQueue allocator []).2.1
      (takeDecode rank s.maxBatchSize s.decodeQueue allocator []).2.2).2.2 ≠ [] := by
    by_cases hdecode : (takeDecode rank s.maxBatchSize s.decodeQueue allocator []).2.2 = []
    · rcases h with ⟨hfree, hq⟩ | ⟨q, rest, hqueue, hlen, hfree⟩
      · exact absurd hdecode (takeDecode_ne_nil hm hfree hp hq)
      · rw [(takeDecode_spec rank s.maxBatchSize s.decodeQueue allocator []).2 hdecode, hqueue,
          takePrefill]
        dsimp only
        rw [if_pos (by simpa using hm), if_neg hlen]
        have hle : s.chunkLen q ≤ q.request.inputIds.length := by
          refine (Nat.min_le_left _ _).trans ((Nat.sub_le _ _).trans_eq ?_)
          unfold DpRequest.matched
          split_ifs <;> rfl
        obtain ⟨allocator', slots, halloc⟩ := allocator.allocateForSequence_eq_ok
          (q.matched s.prefixCache s.cacheOrigins s.pageSize).request.sequenceCachePages
          (n := s.chunkLen q) ((Nat.div_le_div_right (by omega)).trans hfree)
        rw [halloc]
        intro hnil
        have hpre := (isPrefix_takePrefill s rank rest allocator' ([] ++
          [(q.matched s.prefixCache s.cacheOrigins s.pageSize).forwardPrefill rank slots
            (s.chunkLen q)])).length_le
        dsimp only at hnil
        rw [hnil] at hpre
        simp at hpre
    · intro hnil
      have hpre := isPrefix_takePrefill s rank s.waitingQueue
        (takeDecode rank s.maxBatchSize s.decodeQueue allocator []).2.1
        (takeDecode rank s.maxBatchSize s.decodeQueue allocator []).2.2
      rw [hnil] at hpre
      exact hdecode (List.prefix_nil.mp hpre)
  unfold formBatchForRank
  simp only [ha, if_neg hne]
  exact ⟨_, _, rfl⟩

/-! ### Dispatching -/

theorem dispatchRank_running (s : DpScheduler) (rank : ℕ) :
    s.runningBatches <+: (s.dispatchRank rank).1.runningBatches := by
  unfold dispatchRank
  cases hform : s.formBatchForRank rank with
  | error error => exact List.prefix_refl _
  | ok result =>
    obtain ⟨s', batch⟩ := result
    have hrunning := (formBatchForRank_frame hform).2
    cases batch with
    | none => exact hrunning ▸ List.prefix_refl _
    | some batch =>
      dsimp only
      split
      · exact hrunning ▸ List.prefix_refl _
      · exact hrunning ▸ List.prefix_append _ _

theorem dispatchRanks_running (s : DpScheduler) (ranks : List ℕ) :
    s.runningBatches <+: (s.dispatchRanks ranks).1.runningBatches := by
  induction ranks generalizing s with
  | nil => exact List.prefix_refl _
  | cons rank ranks ih =>
    have hrank := dispatchRank_running s rank
    unfold dispatchRanks
    cases hresult : s.dispatchRank rank with
    | mk s' error =>
      rw [hresult] at hrank
      cases error with
      | none => exact hrank.trans (ih s')
      | some error => exact hrank

/-- If no rank can form a batch, the scheduler stands. -/
theorem dispatchRanks_stands (ranks : List ℕ)
    (hnone : ∀ s', Stands s s' → ∀ rank ∈ ranks, ∃ s'', s'.formBatchForRank rank = .ok (s'', none))
    (h : Stands s s') : Stands s (s'.dispatchRanks ranks).1 := by
  induction ranks generalizing s' with
  | nil => exact h
  | cons rank ranks ih =>
    obtain ⟨s'', hform⟩ := hnone s' h rank List.mem_cons_self
    have hdispatch : s'.dispatchRank rank = (s'', none) := by simp [dispatchRank, hform]
    rw [dispatchRanks, hdispatch]
    exact ih (fun t ht r hr => hnone t ht r (List.mem_cons_of_mem _ hr))
      (h.trans (stands_formBatchForRank hform))

/-- If some rank can form a batch as long as none has been formed, one is submitted. -/
theorem dispatchRanks_ne_nil (ranks : List ℕ) (hshut : s.workerPool.isShutdown = false)
    (hranks : ∀ rank ∈ ranks, rank < s.allocators.length ∧
      ∃ handle, s.workerPool.ranks[rank]? = some handle ∧ handle.isIdle = true)
    (hsome : ∃ rank ∈ ranks, ∀ s', Stands s s' →
      ∃ s'' batch, s'.formBatchForRank rank = .ok (s'', some batch))
    (h : Stands s s') : (s'.dispatchRanks ranks).1.runningBatches ≠ [] := by
  induction ranks generalizing s' with
  | nil => simp at hsome
  | cons rank ranks ih =>
    obtain ⟨hlt, handle, hhandle, hidle⟩ := hranks rank List.mem_cons_self
    obtain ⟨-, halloc, hpool, -⟩ := h.frame
    have hdispatch : ∃ s'', s'.dispatchRank rank = (s'', none) ∧
        (s''.runningBatches ≠ [] ∨ s'.formBatchForRank rank = .ok (s'', none)) := by
      unfold dispatchRank
      cases hform : s'.formBatchForRank rank with
      | error error =>
        unfold formBatchForRank at hform
        rw [halloc, List.getElem?_eq_getElem hlt] at hform
        simp at hform
      | ok result =>
        obtain ⟨s'', batch⟩ := result
        cases batch with
        | none => exact ⟨s'', rfl, .inr rfl⟩
        | some batch =>
          have hpool' := (formBatchForRank_frame hform).1
          simp only [hpool', hpool, DpWorkerPool.submitBatch, hshut, hhandle, hidle,
            Bool.false_eq_true, if_false, if_true]
          exact ⟨_, rfl, .inl (by simp)⟩
    obtain ⟨s'', heq, hnext⟩ := hdispatch
    rw [dispatchRanks, heq]
    rcases hnext with hne | hform
    · intro hnil
      have hpre := dispatchRanks_running s'' ranks
      dsimp only at hnil
      rw [hnil] at hpre
      exact hne (List.prefix_nil.mp hpre)
    · refine ih (fun r hr => hranks r (List.mem_cons_of_mem _ hr)) ?_
        (h.trans (stands_formBatchForRank hform))
      obtain ⟨r, hr, hr'⟩ := hsome
      rcases List.mem_cons.mp hr with rfl | hr
      · obtain ⟨t, batch, hform'⟩ := hr' s' h
        rw [hform] at hform'
        simp at hform'
      · exact ⟨r, hr, hr'⟩

/-- A pool that is shut down takes no batch. -/
theorem dispatchRanks_shutdown (ranks : List ℕ) (hshut : s.workerPool.isShutdown = true) :
    (s.dispatchRanks ranks).1.runningBatches = s.runningBatches := by
  induction ranks generalizing s with
  | nil => rfl
  | cons rank ranks ih =>
    have hrank : (s.dispatchRank rank).1.runningBatches = s.runningBatches ∧
        (s.dispatchRank rank).1.workerPool = s.workerPool := by
      unfold dispatchRank
      cases hform : s.formBatchForRank rank with
      | error error => exact ⟨rfl, rfl⟩
      | ok result =>
        obtain ⟨s', batch⟩ := result
        obtain ⟨hpool, hrunning⟩ := formBatchForRank_frame hform
        cases batch with
        | none => exact ⟨hrunning, hpool⟩
        | some batch =>
          have hsubmit : s'.workerPool.submitBatch rank = .error .alreadyShutdown := by
            simp [DpWorkerPool.submitBatch, hpool, hshut]
          simp only [hsubmit]
          exact ⟨hrunning, hpool⟩
    unfold dispatchRanks
    cases hresult : s.dispatchRank rank with
    | mk s' error =>
      rw [hresult] at hrank
      cases error with
      | none => exact (ih (by rw [hrank.2, hshut])).trans hrank.1
      | some error => exact hrank.1

theorem step_eq_dispatch (hevents : s.workerPool.events = []) :
    s.step.1 = (s.dispatchRanks s.workerPool.idleRanks).1 := by
  have hpoll : ∀ pool : DpWorkerPool, pool.events = [] → pool.pollEvents = (pool, []) := by
    rintro ⟨ranks, events, nextSequence, isShutdown⟩ rfl
    rfl
  have hpool := hpoll s.workerPool hevents
  unfold step
  rw [hpool]
  simp only [handleEvents, dispatch]
  cases s.dispatchRanks s.workerPool.idleRanks with
  | mk s' error => cases error <;> rfl

/-- With no running batch, no event is waiting and all ranks are idle. -/
theorem Pooled.of_running_nil (h : Pooled s.workerPool s.runningBatches [])
    (hrunning : s.runningBatches = []) :
    s.workerPool.events = [] ∧
      ∀ (rank : ℕ) handle, s.workerPool.ranks[rank]? = some handle → handle.isIdle = true := by
  constructor
  · by_contra hne
    obtain ⟨event, hmem⟩ := List.exists_mem_of_ne_nil _ hne
    obtain ⟨sequence, heq⟩ := h.completed event (by simpa using hmem)
    obtain ⟨b, hb, -⟩ := h.event_running event (by simpa using hmem) sequence heq
    simp [hrunning] at hb
  · intro rank handle hrank
    by_contra hbusy
    obtain ⟨b, hb, -⟩ := h.busy rank handle hrank (by simpa using hbusy)
    simp [hrunning] at hb

/-- **When a step submits a batch.** In every state that the scheduler can reach in which no batch
is running and a request is queued, with the ranks of the decoding requests in range and enough free
pages for the first request of either queue, a step submits a batch if and only if the pool is not
shut down and a request waits to be decoded, or the first waiting one has a token left to process
and chunks are not limited to zero tokens. -/
theorem step_submits_iff {s₀ : DpScheduler} (hnew : s₀.IsNew) (ops : List DpOperation)
    (hs : s = s₀.run ops) (hrunning : s.runningBatches = [])
    (hranks : ∀ q ∈ s.decodeQueue, ∃ rank < s.allocators.length,
      q.request.dataParallelRank = (rank : ℤ))
    (hfree : ∀ q, s.waitingQueue.head? = some q ∨ s.decodeQueue.head? = some q →
      ∀ allocator ∈ s.allocators,
        (q.request.inputIds.length + allocator.pageSize - 1) / allocator.pageSize + 1 ≤
          allocator.availablePages) :
    s.step.1.runningBatches ≠ [] ↔
      s.workerPool.isShutdown = false ∧
        (s.decodeQueue ≠ [] ∨
          ∃ q, s.waitingQueue.head? = some q ∧ s.chunkedPrefillSize ≠ some 0 ∧
            s.HasUnmatchedToken q) := by
  have hinv := Transition.foldl_invariant (P := fun _ _ => True)
    (I := fun s : DpScheduler => Pooled s.workerPool s.runningBatches [] ∧ Configured s)
    (fun s op _ h => ⟨h.1.apply op, h.2.apply h.1 op⟩)
    (Transition.along_of_forall (fun _ _ => trivial) s₀ ops)
    ⟨pooled_new hnew, configured_new hnew⟩
  change Pooled (s₀.run ops).workerPool (s₀.run ops).runningBatches [] ∧
    Configured (s₀.run ops) at hinv
  rw [← hs] at hinv
  obtain ⟨hpool, hconf⟩ := hinv
  obtain ⟨hevents, hidle⟩ := hpool.of_running_nil hrunning
  rw [step_eq_dispatch hevents]
  have hmem (rank : ℕ) : rank ∈ s.workerPool.idleRanks ↔ rank < s.workerPool.ranks.length := by
    simp only [DpWorkerPool.idleRanks, List.mem_filter, List.mem_range, and_iff_left_iff_imp]
    intro hlt
    rw [List.getElem?_eq_getElem hlt]
    exact hidle rank _ (List.getElem?_eq_getElem hlt)
  by_cases hshut : s.workerPool.isShutdown = true
  · rw [dispatchRanks_shutdown _ hshut]
    simp [hrunning, hshut]
  · have hopen : s.workerPool.isShutdown = false := by simpa using hshut
    by_cases hgo : s.decodeQueue ≠ [] ∨
        ∃ q, s.waitingQueue.head? = some q ∧ s.chunkedPrefillSize ≠ some 0 ∧ s.HasUnmatchedToken q
    · refine iff_of_true ?_ ⟨hopen, hgo⟩
      refine dispatchRanks_ne_nil _ hopen (fun rank hrank => ?_) ?_ (.inl rfl)
      · have hlt := (hmem rank).mp hrank
        exact ⟨hconf.length_allocators ▸ hlt, _, List.getElem?_eq_getElem hlt,
          hidle rank _ (List.getElem?_eq_getElem hlt)⟩
      · by_cases hdecode : s.decodeQueue = []
        · obtain ⟨q, hhead, hchunk⟩ := hgo.resolve_left (not_not.mpr hdecode)
          obtain ⟨rest, hqueue⟩ : ∃ rest, s.waitingQueue = q :: rest := by
            cases hw : s.waitingQueue with
            | nil => simp [hw] at hhead
            | cons q' rest =>
              rw [hw] at hhead
              exact ⟨rest, by rw [Option.some.inj hhead]⟩
          refine ⟨0, (hmem 0).mpr hconf.ranks_pos, fun s' hstands => ?_⟩
          have hlt : 0 < s.allocators.length := hconf.length_allocators ▸ hconf.ranks_pos
          obtain ⟨-, halloc, -, -, hm⟩ := hstands.frame
          obtain ⟨q', hqueue', hlen, hids⟩ := hstands.chunkLen_head hqueue
          have hpages := hfree q (.inl hhead) _ (List.getElem_mem hlt)
          refine formBatchForRank_some (by rw [halloc, List.getElem?_eq_getElem hlt])
            (hconf.pageSize_pos _ (List.getElem_mem hlt)) (hm ▸ hconf.maxBatchSize_pos)
            (.inr ⟨q', rest, hqueue', ?_, ?_⟩)
          · rw [hlen]
            exact chunkLen_ne_zero_iff.mpr hchunk
          · rw [hids]
            omega
        · obtain ⟨q, hq⟩ := List.exists_mem_of_ne_nil _ hdecode
          obtain ⟨rank, hlt, hrank⟩ := hranks q hq
          refine ⟨rank, (hmem rank).mpr (hconf.length_allocators ▸ hlt), fun s' hstands => ?_⟩
          obtain ⟨hdecode', halloc, -, -, hm⟩ := hstands.frame
          obtain ⟨q', hhead⟩ : ∃ q', s.decodeQueue.head? = some q' := by
            cases hd : s.decodeQueue with
            | nil => exact absurd hd hdecode
            | cons q' rest => exact ⟨q', rfl⟩
          have hpages := hfree q' (.inr hhead) _ (List.getElem_mem hlt)
          exact formBatchForRank_some (by rw [halloc, List.getElem?_eq_getElem hlt])
            (hconf.pageSize_pos _ (List.getElem_mem hlt)) (hm ▸ hconf.maxBatchSize_pos)
            (.inl ⟨(Nat.le_add_left 1 _).trans hpages, q, by rw [hdecode']; exact hq, hrank⟩)
    · refine iff_of_false ?_ fun h => hgo h.2
      rw [not_or, not_not] at hgo
      rw [not_not]
      have hstands := dispatchRanks_stands (s := s) s.workerPool.idleRanks
        (fun s' hstands rank hrank => ?_) (.inl rfl)
      · rw [hstands.frame.2.2.2.1, hrunning]
      · obtain ⟨hdecode', halloc, -⟩ := hstands.frame
        refine formBatchForRank_none ?_ (hdecode'.trans hgo.1) fun q rest hqueue => ?_
        · rw [halloc, hconf.length_allocators]
          exact (hmem rank).mp hrank
        · cases hw : s.waitingQueue with
          | nil =>
            rcases hstands with rfl | ⟨q', rest', hqueue', rfl⟩
            · simp [hw] at hqueue
            · simp [hw] at hqueue'
          | cons q' rest' =>
            obtain ⟨q'', hqueue'', hlen, -⟩ := hstands.chunkLen_head hw
            obtain ⟨rfl, -⟩ := List.cons.inj (hqueue.symm.trans hqueue'')
            rw [hlen]
            by_contra hne
            obtain ⟨hsize, htoken⟩ := chunkLen_ne_zero_iff.mp hne
            exact hgo.2 ⟨q', by rw [hw]; rfl, hsize, htoken⟩

/-- A request waits in a new scheduler. -/
theorem step_submits_of_new_request :
    ∃ s, IsNew s ∧
      (s.run [.enqueue ⟨"a"⟩ [1, 2] ⟨1⟩ none 0]).step.1.runningBatches ≠ [] := by
  have hnew : IsNew _ := ⟨1, _, [⟨8, 2, [0, 1, 2, 3], ∅⟩], 4, 2, none, rfl, fun allocator h => ⟨8, by
      rw [List.mem_singleton.mp h]
      rfl⟩, rfl⟩
  refine ⟨_, hnew, (step_submits_iff hnew _ rfl (by decide) (by decide) ?_).mpr
    ⟨by decide, .inr ⟨_, rfl, by decide, by decide⟩⟩⟩
  intro q hq allocator hallocator
  rcases hq with hq | hq
  · obtain rfl := Option.some.inj hq
    rw [List.mem_singleton.mp hallocator]
    decide
  · simp [run, DpScheduler.apply, enqueue] at hq

/-- The prompt of the waiting request was computed before, and nothing is running. -/
theorem step_stalls_on_cached_prompt :
    ∃ s, IsNew s ∧
      let s := s.run [.enqueue ⟨"a"⟩ [1, 2] ⟨1⟩ none 0, .step,
        .complete 0 (.ok ⟨[⟨[7], true⟩]⟩), .step, .enqueue ⟨"b"⟩ [1, 2] ⟨1⟩ none 0]
      s.runningBatches = [] ∧ s.waitingQueue.map (·.request.inputIds) = [[1, 2]] ∧
        s.allocators.map (·.availablePages) = [4] ∧ s.step.1.runningBatches = [] ∧
          s.step.1.waitingQueue.length = 1 := by
  refine ⟨_, ⟨1, _, [⟨8, 2, [0, 1, 2, 3], ∅⟩], 4, 2, none, rfl, fun allocator h => ⟨8, ?_⟩, rfl⟩,
    by decide⟩
  rw [List.mem_singleton.mp h]
  rfl

end DpScheduler

end SglangRs
