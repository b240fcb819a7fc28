import SglangRs.Distributed.DpPool

/-!
# Where the slots of a request come from

A request is pinned to the rank that processes its prompt. The slots that it does not find in the
prefix cache come from the allocator of that rank, and go back to it.

Two things stand in the way. The prefix cache is shared by all ranks, so that the matched slots may
come from anywhere; this is intended. And a request whose prompt is processed in chunks returns to
the queue that all ranks take from, so that another rank may go on with it.

## Main definitions

* `DpRequest.Placed`: the slots that were not matched come from the rank the request is pinned to.
* `DpScheduler.ResumesLocally`: a rank takes no request that another rank has begun.

## Main results

* `DpScheduler.own_slots_local`: in a run that resumes requests locally, slots come from the rank
  that uses them and are released to it.
-/

namespace SglangRs

open Transition

/-- The slots that were not matched in the cache come from the rank the request is pinned to. -/
structure DpRequest.Placed (q : DpRequest) : Prop where
  length_origins : q.origins.length = q.request.sequenceCachePages.length
  hit_le : q.request.cacheHitTokenCount ≤ q.request.inputIds.length
  origin : ∀ k r, q.request.cacheHitTokenCount ≤ k → q.origins[k]? = some r →
    q.request.dataParallelRank = (r : ℤ)

namespace DpRequest.Placed

variable {q : DpRequest} {rank : ℕ}

/-- Only the slots, the matched part and the rank matter. -/
theorem congr (h : q.Placed) {request : ScheduledRequest}
    (hslots : request.sequenceCachePages = q.request.sequenceCachePages)
    (hhit : request.cacheHitTokenCount = q.request.cacheHitTokenCount)
    (hids : request.inputIds = q.request.inputIds)
    (hrank : request.dataParallelRank = q.request.dataParallelRank) :
    Placed ⟨request, q.origins⟩ where
  length_origins := by rw [hslots]; exact h.length_origins
  hit_le := by rw [hhit, hids]; exact h.hit_le
  origin := fun k r hk hr => by
    rw [hrank]
    exact h.origin k r (hhit ▸ hk) hr

/-- The origins from a position past the matched part on. -/
theorem mem_drop (h : q.Placed) (hrank : q.request.dataParallelRank = rank) {start : ℕ}
    (hstart : q.request.cacheHitTokenCount ≤ start) {r : ℕ} (hr : r ∈ q.origins.drop start) :
    r = rank := by
  obtain ⟨i, hi, heq⟩ := List.mem_iff_getElem.mp hr
  have hget : q.origins[start + i]? = some r := by
    rw [← List.getElem?_drop, List.getElem?_eq_getElem hi, heq]
  have hcast := (h.origin (start + i) r (by omega) hget).symm.trans hrank
  exact_mod_cast hcast

theorem forwardDecode (h : q.Placed) (hrank : q.request.dataParallelRank = rank) (slots : List ℕ) :
    (q.forwardDecode rank slots).Placed where
  length_origins := by
    simp [DpRequest.forwardDecode, ScheduledRequest.recordAllocation, ScheduledRequest.setStage,
      h.length_origins]
  hit_le := h.hit_le
  origin := fun k r hk hr => by
    change (q.origins ++ List.replicate slots.length rank)[k]? = some r at hr
    rcases Nat.lt_or_ge k q.origins.length with hlt | hge
    · rw [List.getElem?_append_left hlt] at hr
      exact h.origin k r hk hr
    · rw [List.getElem?_append_right hge, List.getElem?_replicate] at hr
      split_ifs at hr
      exact hrank.trans (by rw [Option.some.inj hr])

theorem forwardPrefill (h : q.Placed)
    (hrank : q.request.cacheHitTokenCount < q.request.sequenceCachePages.length →
      q.request.dataParallelRank = rank) (slots : List ℕ) (chunkLen : ℕ) :
    (q.forwardPrefill rank slots chunkLen).Placed where
  length_origins := by
    simp [DpRequest.forwardPrefill, ScheduledRequest.recordAllocation, ScheduledRequest.setStage,
      h.length_origins]
  hit_le := h.hit_le
  origin := fun k r hk hr => by
    change q.request.cacheHitTokenCount ≤ k at hk
    change (q.origins ++ List.replicate slots.length rank)[k]? = some r at hr
    change (rank : ℤ) = r
    rcases Nat.lt_or_ge k q.origins.length with hlt | hge
    · rw [List.getElem?_append_left hlt] at hr
      rw [h.length_origins] at hlt
      rw [← hrank (by omega)]
      exact h.origin k r hk hr
    · rw [List.getElem?_append_right hge, List.getElem?_replicate] at hr
      split_ifs at hr
      rw [Option.some.inj hr]

end DpRequest.Placed

namespace DpScheduler

/-- A rank takes a request that has slots of its own only if the request is pinned to the rank. -/
def ResumesLocally : DpGuard where
  complete := fun _ _ _ _ _ _ => True
  resume := fun rank q =>
    q.request.promptTokensProcessed ≠ 0 →
      q.request.cacheHitTokenCount < q.request.sequenceCachePages.length →
        q.request.dataParallelRank = rank
  drop := fun _ => True

/-- The cache knows the origins of its slots, and all requests are placed. -/
structure Located (s : DpScheduler) (rank : ℕ) (hand : List DpRequest) : Prop where
  parallel : ∀ w, (s.prefixCache.slotAt w).isSome = (s.cacheOrigins.slotAt w).isSome
  waiting : ∀ q ∈ s.waitingQueue, q.Placed ∧ q.request.allocatedCachePages = []
  decode : ∀ q ∈ s.decodeQueue, q.Placed
  running : ∀ b ∈ s.runningBatches, ∀ q ∈ b.batch.requests,
    q.Placed ∧ q.request.dataParallelRank = b.rank
  hand : ∀ q ∈ hand, q.Placed ∧ q.request.dataParallelRank = rank
  releases : ∀ x ∈ s.releases, ∀ r ∈ x.2, r = x.1

variable {s : DpScheduler} {rank : ℕ} {hand : List DpRequest} {q : DpRequest}

/-- A match finds as many origins as slots. -/
theorem length_origins_match (h : Located s rank hand) (inputIds : List UInt32) :
    (s.cacheOrigins.matchPrefixPageAligned inputIds s.pageSize).cachePages.length =
      (s.prefixCache.matchPrefixPageAligned inputIds s.pageSize).cachePages.length := by
  have hlen : (s.prefixCache.matchPrefix inputIds).matchedTokenCount =
      (s.cacheOrigins.matchPrefix inputIds).matchedTokenCount :=
    Paging.Trie.length_readPath_congr _ _ inputIds h.parallel
  rw [RadixCache.length_cachePages_aligned, RadixCache.length_cachePages_aligned]
  simp only [RadixCache.matchPrefixPageAligned, hlen]

theorem placed_matched (h : Located s rank hand) (hq : q.Placed) :
    (q.matched s.prefixCache s.cacheOrigins s.pageSize).Placed := by
  unfold DpRequest.matched
  split_ifs with hzero
  · refine ⟨length_origins_match h _, RadixCache.matchedTokenCount_aligned_le_length _ _ _,
      fun k r hk hr => ?_⟩
    have hlt := (List.getElem?_eq_some_iff.mp hr).1
    rw [length_origins_match h, RadixCache.length_cachePages_aligned] at hlt
    exact absurd hlt (Nat.not_lt.mpr hk)
  · exact hq

namespace Located

theorem release (h : Located s rank hand) (target : ℕ) (slots origins : List ℕ)
    (horigins : ∀ r ∈ origins, r = target) :
    Located (s.release target slots origins) rank hand := by
  unfold DpScheduler.release
  split
  · exact h
  · refine ⟨h.parallel, h.waiting, h.decode, h.running, h.hand, fun x hx => ?_⟩
    rcases List.mem_append.mp hx with hx | hx
    · exact h.releases x hx
    · rw [List.mem_singleton.mp hx]
      exact horigins

theorem releaseDecode (h : Located s rank hand) (hq : q.Placed) :
    Located (s.releaseDecode q) rank hand := by
  unfold DpScheduler.releaseDecode
  split_ifs with hnonneg
  · exact h.release _ _ _ fun r hr =>
      hq.mem_drop (Int.toNat_of_nonneg hnonneg).symm hq.hit_le hr
  · exact h

theorem releaseWaiting (h : Located s rank hand) (hq : q.request.allocatedCachePages = []) :
    Located (s.releaseWaiting q) rank hand := by
  unfold DpScheduler.releaseWaiting
  split_ifs with hnonneg
  · exact h.release _ _ _ fun r hr => by simp [hq] at hr
  · exact h

theorem publish (h : Located s rank hand) (hq : q.Placed)
    (hprocessed : q.request.promptTokensProcessed ≤ q.request.inputIds.length) :
    Located (s.publish q) rank hand := by
  unfold DpScheduler.publish
  dsimp only
  split_ifs with hinsert
  · set stop := min q.request.promptTokensProcessed q.request.sequenceCachePages.length
    have hslots : (q.request.inputIds.take stop).length =
        (q.request.sequenceCachePages.take stop).length := by
      simp only [List.length_take]
      omega
    have horigins : (q.request.inputIds.take stop).length = (q.origins.take stop).length := by
      rw [List.length_take, List.length_take, hq.length_origins]
      omega
    obtain ⟨cache, hcache⟩ := RadixCache.insert_eq_ok (c := s.prefixCache) hslots
    obtain ⟨origins, horigin⟩ := RadixCache.insert_eq_ok (c := s.cacheOrigins) horigins
    refine ⟨fun w => ?_, h.waiting, h.decode, h.running, h.hand, h.releases⟩
    simp only [hcache, horigin]
    rw [RadixCache.slotAt_insert hcache, RadixCache.slotAt_insert horigin]
    split_ifs with hw
    · have hpos := List.length_pos_iff.mpr hw.1
      have hle := hw.2.length_le
      rw [List.getElem?_eq_getElem (by omega), List.getElem?_eq_getElem (by omega)]
      rfl
    · exact h.parallel w
  · exact h

theorem deliver (h : Located s rank (q :: hand)) (token : GeneratedToken) :
    Located (s.deliver rank q token) rank hand := by
  obtain ⟨hq, hrank⟩ := h.hand q List.mem_cons_self
  have hhand := fun q' hq' => h.hand q' (List.mem_cons_of_mem q hq')
  unfold DpScheduler.deliver
  dsimp only
  split_ifs with hfinished
  · have hstep : Located { s with stepOutputs := s.stepOutputs ++
        [ScheduledOutput.mk q.request.requestId token.tokenIds q.request.cacheHitTokenCount true] }
        rank hand := ⟨h.parallel, h.waiting, h.decode, h.running, hhand, h.releases⟩
    have hrelease := hstep.release rank (q.request.sequenceCachePages.drop
      q.request.cacheHitTokenCount) _ fun r hr => hq.mem_drop hrank le_rfl hr
    rw [hfinished]
    exact ⟨hrelease.parallel, hrelease.waiting, hrelease.decode, hrelease.running, hrelease.hand,
      hrelease.releases⟩
  · refine ⟨h.parallel, h.waiting, fun q' hq' => ?_, h.running, hhand, h.releases⟩
    rcases List.mem_append.mp hq' with hq' | hq'
    · exact h.decode q' hq'
    · rw [List.mem_singleton.mp hq']
      exact hq.congr rfl rfl rfl hrank.symm

end Located

/-- Every move keeps the origins straight. -/
theorem located_keptBy : KeptBy ResumesLocally Located where
  rank := fun s rank rank' h => ⟨h.parallel, h.waiting, h.decode, h.running, by simp, h.releases⟩
  workerPool := fun s rank hand workerPool _ h =>
    ⟨h.parallel, h.waiting, h.decode, h.running, h.hand, h.releases⟩
  take := fun s sequence running h hrun =>
    ⟨h.parallel, h.waiting, h.decode, fun b hb => h.running b (List.mem_of_mem_eraseP hb),
      h.running running (List.mem_of_find?_eq_some hrun), h.releases⟩
  complete := fun s rank forwardMode hand q token _ h => by
    obtain ⟨hq, hrank⟩ := h.hand q List.mem_cons_self
    unfold completeRequest
    dsimp only
    have hadvanced : (advanced q).Placed := hq.congr rfl rfl rfl rfl
    have hpublish : Located (s.publish (advanced q)) rank (advanced q :: hand) := by
      refine Located.publish (q := advanced q)
        ⟨h.parallel, h.waiting, h.decode, h.running, fun q' hq' => ?_, h.releases⟩
        hadvanced (Nat.min_le_right _ _)
      rcases List.mem_cons.mp hq' with rfl | hq'
      · exact ⟨hadvanced, hrank⟩
      · exact h.hand q' (List.mem_cons_of_mem q hq')
    split_ifs with hprefill hcomplete
    · exact hpublish.deliver token
    · refine ⟨hpublish.parallel, fun q' hq' => ?_, hpublish.decode, hpublish.running,
        fun q' hq' => hpublish.hand q' (List.mem_cons_of_mem _ hq'), hpublish.releases⟩
      rcases List.mem_cons.mp hq' with rfl | hq'
      · exact ⟨hadvanced.congr rfl rfl rfl rfl, rfl⟩
      · exact hpublish.waiting q' hq'
    · exact h.deliver token
  drop := fun s rank hand _ h =>
    ⟨h.parallel, h.waiting, h.decode, h.running, by simp, h.releases⟩
  decode := fun s hand rank kept q queue allocator allocator' slots h hqueue hrank _ _ => by
    have hq := h.decode q (by rw [hqueue]; simp)
    refine ⟨h.parallel, h.waiting, fun q' hq' => h.decode q' ?_, h.running, fun q' hq' => ?_,
      h.releases⟩
    · rw [hqueue]
      simp only [List.mem_append, List.mem_cons] at hq' ⊢
      tauto
    · rcases List.mem_append.mp hq' with hq' | hq'
      · exact h.hand q' hq'
      · rw [List.mem_singleton.mp hq']
        exact ⟨hq.forwardDecode hrank slots, hrank⟩
  matched := fun s rank hand q queue h hqueue => by
    refine ⟨h.parallel, fun q' hq' => ?_, h.decode, h.running, h.hand, h.releases⟩
    rcases List.mem_cons.mp hq' with rfl | hq'
    · obtain ⟨hq, halloc⟩ := h.waiting q (by simp [hqueue])
      refine ⟨placed_matched h hq, ?_⟩
      unfold DpRequest.matched
      split_ifs <;> exact halloc
    · exact h.waiting q' (by rw [hqueue]; exact List.mem_cons_of_mem _ hq')
  prefill := fun s hand rank q queue allocator allocator' slots hresume h hqueue _ _ _ => by
    have hq := (h.waiting q (by simp [hqueue])).1
    have hmatched := placed_matched h hq
    refine ⟨h.parallel, fun q' hq' => h.waiting q' (by rw [hqueue]; exact List.mem_cons_of_mem _ hq'),
      h.decode, h.running, fun q' hq' => ?_, h.releases⟩
    rcases List.mem_append.mp hq' with hq' | hq'
    · exact h.hand q' hq'
    · rw [List.mem_singleton.mp hq']
      refine ⟨hmatched.forwardPrefill (fun hlt => ?_) slots _, rfl⟩
      -- a request that has just been matched has no slots of its own
      unfold DpRequest.matched at hlt ⊢
      split_ifs at hlt ⊢ with hzero
      · simp at hlt
      · exact hresume hzero hlt
  submit := fun s hand sequence rank h _ => by
    refine ⟨h.parallel, h.waiting, h.decode, fun b hb => ?_, by simp, h.releases⟩
    rcases List.mem_append.mp hb with hb | hb
    · exact h.running b hb
    · rw [List.mem_singleton.mp hb]
      exact h.hand

theorem located_new (hnew : s.IsNew) : Located s 0 [] := by
  obtain ⟨_, _, _, _, _, _, -, -, hs⟩ := hnew
  unfold new at hs
  split_ifs at hs
  obtain rfl := Except.ok.inj hs
  exact ⟨fun w => rfl, by simp, by simp, by simp, by simp, by simp⟩

namespace Located

theorem foldl_releaseDecode (h : Located s rank hand) {queue : List DpRequest}
    (hqueue : ∀ q ∈ queue, q.Placed) :
    Located (queue.foldl DpScheduler.releaseDecode s) rank hand := by
  induction queue generalizing s with
  | nil => exact h
  | cons q queue ih =>
    exact ih (h.releaseDecode (hqueue q List.mem_cons_self)) fun q' hq' =>
      hqueue q' (List.mem_cons_of_mem _ hq')

theorem foldl_releaseWaiting (h : Located s rank hand) {queue : List DpRequest}
    (hqueue : ∀ q ∈ queue, q.request.allocatedCachePages = []) :
    Located (queue.foldl DpScheduler.releaseWaiting s) rank hand := by
  induction queue generalizing s with
  | nil => exact h
  | cons q queue ih =>
    exact ih (h.releaseWaiting (hqueue q List.mem_cons_self)) fun q' hq' =>
      hqueue q' (List.mem_cons_of_mem _ hq')

/-- Every call keeps the origins straight. -/
theorem apply (h : Located s 0 []) (hpool : Pooled s.workerPool s.runningBatches [])
    (op : DpOperation) (hG : StepAlong ResumesLocally s op) : Located (s.apply op) 0 [] := by
  cases op with
  | enqueue requestId inputIds sampling disaggregatedParams dataParallelRank =>
    refine ⟨h.parallel, fun q hq => ?_, h.decode, h.running, by simp, h.releases⟩
    rcases List.mem_append.mp hq with hq | hq
    · exact h.waiting q hq
    · rw [List.mem_singleton.mp hq]
      exact ⟨⟨rfl, Nat.zero_le _, by simp⟩, rfl⟩
  | step => exact located_keptBy.step 0 hpool.agrees hG h
  | stepBlocking => exact located_keptBy.stepBlocking 0 hpool.agrees hG h
  | abortRequest requestId =>
    have hkept : Located { s with
        waitingQueue := s.waitingQueue.filter (·.request.requestId ≠ requestId)
        decodeQueue := s.decodeQueue.filter (·.request.requestId ≠ requestId) } 0 [] :=
      ⟨h.parallel, fun q hq => h.waiting q (List.mem_filter.mp hq).1,
        fun q hq => h.decode q (List.mem_filter.mp hq).1, h.running, by simp, h.releases⟩
    exact hkept.foldl_releaseDecode fun q hq => h.decode q (List.mem_filter.mp hq).1
  | abortAllRequests =>
    have hkept : Located { s with waitingQueue := [], decodeQueue := [] } 0 [] :=
      ⟨h.parallel, by simp, by simp, h.running, by simp, h.releases⟩
    exact (hkept.foldl_releaseWaiting fun q hq => (h.waiting q hq).2).foldl_releaseDecode h.decode
  | flushCache => exact ⟨fun w => rfl, h.waiting, h.decode, h.running, by simp, h.releases⟩
  | drainFinishedOutputs =>
    exact ⟨h.parallel, h.waiting, h.decode, h.running, by simp, h.releases⟩
  | drainStepOutputs => exact ⟨h.parallel, h.waiting, h.decode, h.running, by simp, h.releases⟩
  | shutdown => exact ⟨h.parallel, h.waiting, h.decode, h.running, by simp, h.releases⟩
  | complete rank result =>
    exact ⟨h.parallel, h.waiting, h.decode, h.running, by simp, h.releases⟩

end Located

/-- **Slots come from the rank that uses them.** In every run in which no rank goes on with a prompt
that another rank has begun, the slots of a request in a batch of a rank, past those that were
matched in the shared prefix cache, come from the allocator of this rank, and slots are released to
the allocator that they come from. -/
theorem own_slots_local (hnew : s.IsNew) (ops : List DpOperation)
    (hlocal : Along DpScheduler.apply (StepAlong ResumesLocally) s ops) :
    (∀ running ∈ (s.run ops).runningBatches, ∀ q ∈ running.batch.requests,
      q.origins.length = q.request.sequenceCachePages.length ∧
        ∀ k r, q.request.cacheHitTokenCount ≤ k → q.origins[k]? = some r → r = running.rank) ∧
    ∀ release ∈ (s.run ops).releases, ∀ r ∈ release.2, r = release.1 := by
  have hinv := foldl_invariant (I := fun s : DpScheduler =>
      Pooled s.workerPool s.runningBatches [] ∧ Located s 0 [])
    (fun s op hG h => ⟨h.1.apply op, h.2.apply h.1 op hG⟩) hlocal
    ⟨pooled_new hnew, located_new hnew⟩
  refine ⟨fun running hrunning q hq => ?_, hinv.2.releases⟩
  obtain ⟨hplaced, hrank⟩ := hinv.2.running running hrunning q hq
  refine ⟨hplaced.length_origins, fun k r hk hr => ?_⟩
  exact_mod_cast (hplaced.origin k r hk hr).symm.trans hrank

theorem onlyResumes_resumesLocally : OnlyResumes ResumesLocally :=
  ⟨fun _ _ _ _ _ _ => trivial, fun _ => trivial⟩

theorem rankAlong_resumesLocally {rank : ℕ} (h : ∀ q ∈ s.waitingQueue,
      q.request.promptTokensProcessed ≠ 0 →
        q.request.cacheHitTokenCount < q.request.sequenceCachePages.length →
          q.request.dataParallelRank = rank) : RankAlong ResumesLocally s rank :=
  onlyResumes_resumesLocally.rankAlong h

/-- Two requests occupy two ranks. When the first has finished, rank 0 takes a prompt of two chunks
and goes on with it, while rank 1 is busy. -/
def resumingOperations : List DpOperation :=
  [.enqueue ⟨"x"⟩ [8] ⟨1⟩ none 0, .enqueue ⟨"y"⟩ [9] ⟨1⟩ none 0, .step,
    .enqueue ⟨"a"⟩ [1, 2] ⟨1⟩ none 0, .complete 0 (.ok ⟨[⟨[7], true⟩]⟩), .step,
    .complete 0 (.ok ⟨[⟨[], false⟩]⟩), .step, .complete 0 (.ok ⟨[⟨[7], true⟩]⟩), .step]

/-- The theorem applied to these operations: the slots of both chunks go back to rank 0. -/
theorem own_slots_local_of_resumed_prompt :
    ∃ s, IsNew s ∧
      let s := s.run resumingOperations
      s.releases = [(0, [0]), (0, [0, 0])] ∧
        ∀ release ∈ s.releases, ∀ r ∈ release.2, r = release.1 := by
  have hnew : IsNew _ := ⟨2, _, [⟨4, 1, [0, 1, 2, 3], ∅⟩, ⟨4, 1, [0, 1, 2, 3], ∅⟩], 1, 1, some 1,
    rfl,
    fun allocator h => ⟨4, by
      simp only [List.mem_cons, List.not_mem_nil, or_false, or_self] at h
      rw [h]
      rfl⟩, rfl⟩
  have hevents := onlyResumes_resumesLocally.eventsAlong
  refine ⟨_, hnew, by decide, (own_slots_local hnew _ ?_).2⟩
  refine ⟨trivial, trivial, ?_, trivial, trivial, ?_, trivial, ?_, trivial, ?_, trivial⟩
  · exact And.intro (hevents _ _) fun _ => And.intro (rankAlong_resumesLocally (by decide)) fun _ =>
      And.intro (rankAlong_resumesLocally (by decide)) fun _ => trivial
  · exact And.intro (hevents _ _) fun _ => And.intro (rankAlong_resumesLocally (by decide)) fun _ =>
      trivial
  · exact And.intro (hevents _ _) fun _ => And.intro (rankAlong_resumesLocally (by decide)) fun _ =>
      trivial
  · exact And.intro (hevents _ _) fun _ => And.intro (rankAlong_resumesLocally (by decide)) fun _ =>
      trivial

/-- A prefix that one rank has computed is used by another one, and so are the slots of a prompt
that one rank has begun and another one continues; they are then released to the wrong allocator. -/
theorem exists_slots_of_other_rank :
    (∃ s, IsNew s ∧ ∃ running ∈ (s.run [.enqueue ⟨"a"⟩ [1, 2] ⟨1⟩ none 0, .step,
        .complete 0 (.ok ⟨[⟨[7], true⟩]⟩), .step, .enqueue ⟨"b"⟩ [5] ⟨1⟩ none 0, .step,
        .enqueue ⟨"c"⟩ [1, 2, 3] ⟨1⟩ none 0, .step]).runningBatches,
      ∃ q ∈ running.batch.requests, running.rank = 1 ∧ q.origins = [0, 0, 1]) ∧
    ∃ s, IsNew s ∧ (1, [0, 1]) ∈ (s.run [.enqueue ⟨"a"⟩ [1, 2] ⟨1⟩ none 0, .step,
        .complete 0 (.ok ⟨[⟨[7], true⟩]⟩), .step, .complete 1 (.ok ⟨[⟨[7], true⟩]⟩),
        .step]).releases := by
  constructor
  · refine ⟨_, ⟨2, _, [⟨4, 1, [0, 1, 2, 3], ∅⟩, ⟨4, 1, [0, 1, 2, 3], ∅⟩], 4, 1, none, rfl,
      fun allocator h => ⟨4, ?_⟩, rfl⟩, by decide⟩
    simp only [List.mem_cons, List.not_mem_nil, or_false, or_self] at h
    rw [h]
    rfl
  · refine ⟨_, ⟨2, _, [⟨1, 1, [0], ∅⟩, ⟨1, 1, [0], ∅⟩], 4, 1, some 1, rfl,
      fun allocator h => ⟨1, ?_⟩, rfl⟩, by decide⟩
    simp only [List.mem_cons, List.not_mem_nil, or_false, or_self] at h
    rw [h]
    rfl

end DpScheduler

end SglangRs
