import SglangRs.Scheduler.BatchSlots
import SglangRs.Serving.Requests

/-!
# Batches between forming and completion

When a batch is formed, the slots of its requests hold what the model needs to forward it: every
request of the batch is ready, and none writes a slot of another. Forwarding the batch changes the
slots that its requests write and no others, so what is known of the queues and of the prefix cache
stays true. If it succeeds, the slots of a forwarded request hold the entries of all its positions,
and the request has the right number of slots.

## Main definitions

* `CausalModel.Rests`: the queues and the prefix cache.
* `CausalModel.Advanced`, `CausalModel.Complete`: a request after its chunk, its token.

## Main results

* `CausalModel.Served.ready`: the requests of a formed batch are ready.
* `CausalModel.Served.rests_of_forwarded`: forwarding them disturbs nothing else.
* `CausalModel.Prompted.advanced`, `CausalModel.Generating.complete`: they have moved on.
-/

namespace SglangRs

open Scheduler

variable {W M X Q E L : Type}

namespace CausalModel

variable (C : CausalModel M X Q E L)

/-- What the memory holds of the queues and of the prefix cache. -/
structure Rests (m : M) (s : Scheduler W) : Prop where
  cache : C.Caches m s.prefixCache
  waiting : ∀ r ∈ s.waitingQueue, C.Waits m r
  decode : ∀ r ∈ s.decodeQueue, C.Awaits m r

/-- A request whose chunk has been executed. If its prompt is complete, it has a slot for every
prompt token. -/
structure Advanced (m : M) (r : ScheduledRequest) : Prop where
  outputs_eq : r.outputIds = []
  prefix_le : r.prefixCachePages.length ≤ r.promptTokensProcessed
  processed_le : r.promptTokensProcessed ≤ r.inputIds.length
  processed_le_slots : r.promptTokensProcessed ≤ r.sequenceCachePages.length
  length_eq : r.isPrefillComplete = true → r.sequenceCachePages.length = r.inputIds.length
  held : C.HoldsFirst m r.tokenAt r.promptTokensProcessed r.sequenceCachePages

/-- A request all of whose tokens have been forwarded. -/
structure Complete (m : M) (r : ScheduledRequest) : Prop where
  length_eq : r.sequenceCachePages.length = r.inputIds.length + r.outputIds.length
  held : C.HoldsFirst m r.tokenAt r.sequenceCachePages.length r.sequenceCachePages

variable {C} {m m' : M} {r : ScheduledRequest} {s : Scheduler W} {c : Config W} {p : ℕ}

/-! ### The positions to be forwarded -/

theorem HoldsFirst.take {tokens : ℕ → UInt32} {n k : ℕ} {slots : List ℕ}
    (h : C.HoldsFirst m tokens n slots) (hle : n ≤ k) : C.HoldsFirst m tokens n (slots.take k) := by
  intro i hi
  obtain ⟨x, hx, hholds⟩ := h i hi
  exact ⟨x, (List.getElem?_take_of_lt (by omega)).trans hx, hholds⟩

namespace Prompted

variable (h : C.Prompted m r)

include h

theorem chunkStart_eq : r.chunkStart = r.promptTokensProcessed := max_eq_left h.prefix_le

theorem forwardedChunkLen_eq : forwardedChunkLen r = r.currentChunkLen := by
  unfold forwardedChunkLen
  split_ifs with hpos
  · rfl
  · have hzero : r.currentChunkLen = 0 := by omega
    rw [h.uncached_eq (h.chunk_eq_zero hzero), hzero]
    rfl

theorem chunkEnd_eq : r.chunkEnd = r.promptTokensProcessed + r.currentChunkLen := by
  have hlen := h.forwardedChunkLen_eq
  unfold forwardedChunkLen at hlen
  rw [ScheduledRequest.chunkEnd, h.chunkStart_eq, hlen]
  exact min_eq_left h.chunk_le

theorem processed_advanceChunk :
    r.advanceChunk.promptTokensProcessed = r.promptTokensProcessed + r.currentChunkLen := by
  change min (r.promptTokensProcessed + forwardedChunkLen r) r.inputIds.length = _
  rw [h.forwardedChunkLen_eq]
  exact min_eq_left h.chunk_le

/-- The slots of a prompt chunk fit. -/
theorem fits (ht : r.Taken) (hstage : r.stage = .prefillForward) : r.FitsPrefill := by
  refine ⟨?_, ?_⟩
  · rw [h.chunkEnd_eq, h.chunkStart_eq, h.forward_eq]
    omega
  · rw [h.chunkEnd_eq]
    exact ht.chunk_le hstage

theorem forwardStart_eq (hstage : r.stage = .prefillForward) :
    r.forwardStart = r.promptTokensProcessed := by
  rw [ScheduledRequest.forwardStart, if_neg (by simp [hstage]), h.chunkStart_eq]

theorem forwardEnd_eq (hstage : r.stage = .prefillForward) :
    r.forwardEnd = r.promptTokensProcessed + r.currentChunkLen := by
  rw [ScheduledRequest.forwardEnd, if_neg (by simp [hstage]), h.chunkEnd_eq]

end Prompted

namespace Generating

variable (h : C.Generating m r)

include h

theorem length_sequence :
    r.sequenceCachePages.length = r.inputIds.length + r.outputIds.length := by
  rw [h.sequence_eq, List.length_append, h.length_allocated]
  exact h.length_kept

/-- The slot of a generated token fits. -/
theorem fits : r.FitsDecode := ⟨h.forward_eq ▸ h.length_allocated, h.length_sequence⟩

theorem forwardStart_eq (hstage : r.stage = .decodeForward) :
    r.forwardStart = r.keptSlots.length := by
  have hlen := h.length_kept
  rw [ScheduledRequest.forwardStart, if_pos hstage]
  omega

end Generating

/-! ### Ready -/

/-- **A request prepared for a prompt chunk is ready.** -/
theorem Prompted.ready (h : C.Prompted m r) (ht : r.Taken) (hstage : r.stage = .prefillForward)
    (hslots : ∀ x ∈ r.sequenceCachePages, x < C.slotCount) (hnodup : r.allocatedCachePages.Nodup)
    (hfresh : ∀ x ∈ r.allocatedCachePages, x ∉ r.keptSlots) : C.Ready m r := by
  have hstart := h.forwardStart_eq hstage
  have hdecode : r.stage ≠ .decodeForward := by simp [hstage]
  refine ⟨⟨.inl hstage, ⟨fun _ => h.fits ht hstage, fun hd => absurd hd hdecode⟩,
    fun hd => absurd hd hdecode⟩, hslots, ?_, fun x hx => ?_, fun hnot => ?_⟩
  · rw [hstart, ScheduledRequest.forwardSequence, if_neg hdecode, h.chunkEnd_eq]
    exact (h.held.of_prefix r.keptSlots_prefix).take (Nat.le_add_right _ _)
  · rw [hstart]
    exact (h.replay x hx).2
  · obtain hforward | ⟨x, hx⟩ := ht.forward (by simp [hstage])
    · rw [hforward]
      refine ⟨hnodup, fun x hx hmem => hfresh x hx ?_⟩
      -- the positions before the chunk have slots that are kept
      rw [hstart, ScheduledRequest.forwardSequence, if_neg hdecode, List.take_take, ht.seq_eq,
        List.take_append_of_le_length] at hmem
      · exact List.mem_of_mem_take hmem
      · exact (min_le_left _ _).trans ht.processed_le_kept
    · exact absurd hx (hnot x)

/-- **A request prepared for its next token is ready.** -/
theorem Generating.ready (h : C.Generating m r) (hstage : r.stage = .decodeForward)
    (hslots : ∀ x ∈ r.sequenceCachePages, x < C.slotCount) (hnodup : r.allocatedCachePages.Nodup)
    (hfresh : ∀ x ∈ r.allocatedCachePages, x ∉ r.keptSlots) : C.Ready m r := by
  have hstart := h.forwardStart_eq hstage
  have hprefill : r.stage ≠ .prefillForward := by simp [hstage]
  refine ⟨⟨.inr hstage, ⟨fun hp => absurd hp hprefill, fun _ => h.fits⟩,
    fun _ => h.outputs_ne_nil⟩, hslots, ?_, fun x hx => ?_, fun _ => ?_⟩
  · rw [hstart, ScheduledRequest.forwardSequence, if_pos hstage]
    exact h.held.of_prefix r.keptSlots_prefix
  · have hlength := h.length_allocated
    rw [hx.allocated_eq] at hlength
    cases hlength
  · rw [h.forward_eq, hstart, ScheduledRequest.forwardSequence, if_pos hstage, h.sequence_eq,
      List.take_left]
    exact ⟨hnodup, hfresh⟩

/-- **The requests of a formed batch are ready.** -/
theorem Served.ready (h : C.Served p m c) (hown : Ownership p c) {a : CachePageAllocator}
    (ha : c.scheduler.cachePageAllocator = some a) (hcapacity : a.slotCapacity ≤ C.slotCount)
    (hr : r ∈ c.taken) (hstage : r.stage = .prefillForward ∨ r.stage = .decodeForward) :
    C.Ready m r := by
  obtain ⟨i, hi, rfl⟩ := List.mem_iff_getElem.mp hr
  have hlive := c.live_perm hi
  have hslots (x : ℕ) (hx : x ∈ c.taken[i].sequenceCachePages) : x < C.slotCount := by
    refine (hown.lt_slotCapacity ha (.inr ⟨_, ?_, hx⟩)).trans_le hcapacity
    exact hlive.mem_iff.mpr List.mem_cons_self
  have hnodup := hown.nodup_allocated hlive hr
  have hfresh (x : ℕ) (hx : x ∈ c.taken[i].allocatedCachePages) : x ∉ c.taken[i].keptSlots :=
    (hown.fresh hlive hr hx).1
  have htakes := h.taken _ hr
  obtain hstage | hstage := hstage
  · exact (htakes.prompted hstage).ready (hown.taken _ hr) hstage hslots hnodup hfresh
  · exact (htakes.generating hstage).ready hstage hslots hnodup hfresh

/-! ### What forwarding does not disturb -/

theorem Waits.of_agrees (h : C.Waits m r)
    (hagrees : ∀ x ∈ r.sequenceCachePages, C.Agrees m m' x) : C.Waits m' r :=
  ⟨h.stage_eq, h.outputs_eq, h.allocated_eq, h.processed_le, h.prefix_le, h.uncached_eq,
    h.held.of_agrees fun x hx => hagrees x (List.mem_of_mem_take hx)⟩

theorem Awaits.of_agrees (h : C.Awaits m r)
    (hagrees : ∀ x ∈ r.sequenceCachePages, C.Agrees m m' x) : C.Awaits m' r :=
  ⟨h.outputs_ne_nil, h.length_sequence,
    h.held.of_agrees fun x hx => hagrees x (List.mem_of_mem_take hx)⟩

/-- **Forwarding a batch disturbs neither the queues nor the prefix cache.** -/
theorem Served.rests_of_forwarded (h : C.Served p m c) (hown : Ownership p c)
    {a : CachePageAllocator} (ha : c.scheduler.cachePageAllocator = some a)
    (hcapacity : a.slotCapacity ≤ C.slotCount)
    (hstage : ∀ r ∈ c.taken, r.stage ≠ .prefillWaiting)
    (hagrees : ∀ x < C.slotCount, (∀ r ∈ c.taken, ¬r.Writes x) → C.Agrees m m' x) :
    C.Rests m' c.scheduler := by
  have hkept {x : ℕ} (hx : c.scheduler.prefixCache.Holds x ∨
      ∃ r ∈ c.scheduler.waitingQueue ++ c.scheduler.decodeQueue, x ∈ r.sequenceCachePages) :
      C.Agrees m m' x := by
    have hlive : c.scheduler.prefixCache.Holds x ∨ ∃ r ∈ c.live, x ∈ r.sequenceCachePages := by
      refine hx.imp_right fun ⟨r, hr, hx⟩ => ⟨r, ?_, hx⟩
      rw [Config.mem_live, ← or_assoc, ← List.mem_append]
      exact .inl hr
    exact hagrees x ((hown.lt_slotCapacity ha hlive).trans_le hcapacity) fun r hr =>
      hown.not_writes hr (hstage r hr) hx
  refine ⟨fun w x hx => ?_, fun r hr => ?_, fun r hr => ?_⟩
  · exact (h.cache w x hx).of_agrees (hkept (.inl ⟨w, hx⟩))
  · exact (h.waiting r hr).of_agrees fun x hx =>
      hkept (.inr ⟨r, List.mem_append_left _ hr, hx⟩)
  · exact (h.decode r hr).of_agrees fun x hx =>
      hkept (.inr ⟨r, List.mem_append_right _ hr, hx⟩)

/-! ### After forwarding -/

/-- **A request whose chunk was forwarded.** -/
theorem Prompted.advanced (h : C.Prompted m r) (ht : r.Taken) (hstage : r.stage = .prefillForward)
    (hfresh : ∀ x ∈ r.allocatedCachePages, x ∉ r.keptSlots) (hne : r.forwardCachePages ≠ [])
    (haligned : Aligned r.forwardStart r.forwardCachePages r.forwardSequence)
    (hheld : C.HoldsFirst m' r.tokenAt r.forwardEnd r.forwardSequence) :
    C.Advanced m' r.advanceChunk := by
  have hprocessed := h.processed_advanceChunk
  have hdecode : r.stage ≠ .decodeForward := by simp [hstage]
  rw [h.forwardStart_eq hstage] at haligned
  rw [h.forwardEnd_eq hstage] at hheld
  rw [ScheduledRequest.forwardSequence, if_neg hdecode] at haligned hheld
  refine ⟨h.outputs_eq, ?_, ?_, ?_, fun hcomplete => ?_, ?_⟩
  · rw [hprocessed]
    exact h.prefix_le.trans (Nat.le_add_right _ _)
  · rw [hprocessed]
    exact h.chunk_le
  · rw [hprocessed]
    exact ht.chunk_le hstage
  · change decide (_ ≥ _) = true at hcomplete
    rw [hprocessed] at hcomplete
    change r.sequenceCachePages.length = r.inputIds.length
    have hchunk := h.chunk_le
    have hlen : r.promptTokensProcessed + r.currentChunkLen = r.inputIds.length := by
      exact le_antisymm hchunk (of_decide_eq_true hcomplete)
    obtain hforward | ⟨x, hx⟩ := ht.forward (by simp [hstage])
    · -- the first new slot follows the slots of the processed tokens
      have hpos := List.length_pos_iff.mpr hne
      obtain ⟨x, hx⟩ : ∃ x, r.forwardCachePages[0]? = some x := ⟨_, List.getElem?_eq_getElem hpos⟩
      have hat := List.mem_of_getElem? (hforward ▸ hx)
      have hseq := haligned 0 x hx
      have hkept : r.keptSlots.length ≤ r.promptTokensProcessed := by
        by_contra! hlt
        refine hfresh x hat (List.mem_of_getElem? (i := r.promptTokensProcessed) ?_)
        rw [List.getElem?_take] at hseq
        split_ifs at hseq
        rwa [ht.seq_eq, Nat.add_zero, List.getElem?_append_left hlt] at hseq
      have hprocessed_le := ht.processed_le_kept
      have hallocated := h.forward_eq
      rw [hforward] at hallocated
      rw [ht.seq_eq, List.length_append, hallocated]
      omega
    · exact (h.replay x hx).1
  · rw [hprocessed]
    exact hheld.of_prefix (List.take_prefix _ _)

/-- **A request whose token was forwarded.** -/
theorem Generating.complete (h : C.Generating m r) (hstage : r.stage = .decodeForward)
    (hheld : C.HoldsFirst m' r.tokenAt r.forwardEnd r.forwardSequence) : C.Complete m' r := by
  rw [ScheduledRequest.forwardEnd, ScheduledRequest.forwardSequence, if_pos hstage,
    if_pos hstage] at hheld
  exact ⟨h.length_sequence, h.length_sequence ▸ hheld⟩

theorem Advanced.complete (h : C.Advanced m r) (hc : r.isPrefillComplete = true) :
    C.Complete m r := by
  have hlen := h.length_eq hc
  have hprocessed : r.promptTokensProcessed = r.inputIds.length :=
    le_antisymm h.processed_le (of_decide_eq_true hc)
  refine ⟨?_, ?_⟩
  · rw [hlen, h.outputs_eq]
    rfl
  · rw [hlen, ← hprocessed]
    exact h.held

/-- A request waits for its next chunk. -/
theorem Advanced.waits (h : C.Advanced m r) (hc : r.isPrefillComplete = false) :
    C.Waits m r.awaitChunk := by
  refine ⟨rfl, h.outputs_eq, rfl, h.processed_le, h.prefix_le, fun hle => ?_, h.held⟩
  exact absurd (hc.symm.trans (decide_eq_true hle)) (by decide)

/-- A request waits for its next token. -/
theorem Complete.awaits (h : C.Complete m r) (tokenId : UInt32) :
    C.Awaits m (r.awaitDecode [tokenId]) := by
  refine ⟨?_, ?_, ?_⟩
  · exact List.append_ne_nil_of_right_ne_nil _ (List.cons_ne_nil _ _)
  · change r.sequenceCachePages.length + 1 = r.inputIds.length + (r.outputIds ++ [tokenId]).length
    rw [h.length_eq, List.length_append]
    rfl
  · intro i hi
    obtain ⟨x, hx, hholds⟩ := h.held i hi
    refine ⟨x, hx, (holds_congr fun j hj => ?_).mp hholds⟩
    have hlen := h.length_eq
    change _ = (r.inputIds ++ (r.outputIds ++ [tokenId])).getD j 0
    rw [← List.append_assoc, List.getD_append]
    · rfl
    · rw [List.length_append]
      change i < r.sequenceCachePages.length at hi
      omega

/-- **Publishing a forwarded prompt.** -/
theorem Caches.published {cache : RadixCache} (h : C.Caches m cache) (hr : C.Advanced m r) :
    C.Caches m (cache.published r r.promptTokensProcessed) := by
  intro w x hx
  obtain hold | ⟨i, hi, hslot, rfl⟩ :=
    RadixCache.slotAt_published hr.processed_le_slots hr.processed_le hx
  · exact h w x hold
  · have hle := hr.processed_le
    obtain ⟨y, hy, hholds⟩ := hr.held i hi
    obtain rfl : y = x := Option.some.inj (hy.symm.trans hslot)
    rw [List.length_take_of_le (by omega), Nat.add_sub_cancel]
    refine (holds_congr fun j hj => ?_).mp hholds
    rw [ScheduledRequest.tokenAt_of_lt (by omega), List.getD_eq_getElem?_getD,
      List.getD_eq_getElem?_getD, List.getElem?_take_of_lt (by omega)]

end CausalModel

end SglangRs
