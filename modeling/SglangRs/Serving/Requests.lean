import SglangRs.Model.BatchForward
import SglangRs.Scheduler.Identity
import SglangRs.Scheduler.Lengths

/-!
# Requests whose slots hold their entries

The scheduler decides which slots a request gets, the model which entries it writes to them. Between
two batches the memory of the model does not change, and the following holds of it: the slots of a
queued request hold the entries of the positions processed so far, and a slot in the prefix cache
holds the entries of the last token of the prefix that it stands for. Forming a batch keeps this,
and so does every other operation that executes nothing. In particular, a prefix found in the cache
may be attached to any request that begins with it.

## Main definitions

* `CausalModel.Waits`, `CausalModel.Prompted`, `CausalModel.Generating`, `CausalModel.Awaits`: a
  request at each stage.
* `CausalModel.Caches`: the prefix cache.
* `CausalModel.Served`: all of them.
* `Guard.still`: the moves that execute nothing.

## Main results

* `Move.served`: a move that executes nothing keeps what the slots hold.
-/

namespace SglangRs

open Scheduler

variable {W M X Q E L : Type}

namespace ScheduledRequest

variable {r : ScheduledRequest}

theorem tokenAt_of_lt {i : ℕ} (h : i < r.inputIds.length) : r.tokenAt i = r.inputIds.getD i 0 :=
  List.getD_append _ _ _ _ h

/-- The slots a request keeps come first. -/
theorem keptSlots_prefix (r : ScheduledRequest) : r.keptSlots <+: r.sequenceCachePages :=
  List.take_prefix _ _

end ScheduledRequest

namespace CausalModel

variable (C : CausalModel M X Q E L)

/-- A waiting request: the slots of the processed part of its prompt hold the entries. -/
structure Waits (m : M) (r : ScheduledRequest) : Prop where
  stage_eq : r.stage = .prefillWaiting
  outputs_eq : r.outputIds = []
  allocated_eq : r.allocatedCachePages = []
  processed_le : r.promptTokensProcessed ≤ r.inputIds.length
  prefix_le : r.prefixCachePages.length ≤ r.promptTokensProcessed
  uncached_eq : r.inputIds.length ≤ r.promptTokensProcessed → r.uncachedInputIds = []
  held : C.HoldsFirst m r.tokenAt r.promptTokensProcessed r.sequenceCachePages

/-- A request prepared for a prompt chunk: so do the slots that it keeps. If its last token is
replayed, the slot of this token holds its entries. -/
structure Prompted (m : M) (r : ScheduledRequest) : Prop where
  outputs_eq : r.outputIds = []
  chunk_le : r.promptTokensProcessed + r.currentChunkLen ≤ r.inputIds.length
  forward_eq : r.forwardCachePages.length = r.currentChunkLen
  prefix_le : r.prefixCachePages.length ≤ r.promptTokensProcessed
  uncached_eq : r.inputIds.length ≤ r.promptTokensProcessed → r.uncachedInputIds = []
  chunk_eq_zero : r.currentChunkLen = 0 → r.inputIds.length ≤ r.promptTokensProcessed
  held : C.HoldsFirst m r.tokenAt r.promptTokensProcessed r.keptSlots
  replay : ∀ x, r.ReplaysIn x → r.sequenceCachePages.length = r.inputIds.length ∧
    C.Holds m r.tokenAt r.promptTokensProcessed x

/-- A request prepared for its next token: the slots of all tokens but the last hold the entries. -/
structure Generating (m : M) (r : ScheduledRequest) : Prop where
  outputs_ne_nil : r.outputIds ≠ []
  forward_eq : r.forwardCachePages = r.allocatedCachePages
  length_allocated : r.allocatedCachePages.length = 1
  sequence_eq : r.sequenceCachePages = r.keptSlots ++ r.allocatedCachePages
  length_kept : r.keptSlots.length + 1 = r.inputIds.length + r.outputIds.length
  held : C.HoldsFirst m r.tokenAt r.keptSlots.length r.keptSlots

/-- A request on the decode queue. -/
structure Awaits (m : M) (r : ScheduledRequest) : Prop where
  outputs_ne_nil : r.outputIds ≠ []
  length_sequence : r.sequenceCachePages.length + 1 = r.inputIds.length + r.outputIds.length
  held : C.HoldsFirst m r.tokenAt r.sequenceCachePages.length r.sequenceCachePages

/-- A request of the batch being formed. -/
def Takes (m : M) (r : ScheduledRequest) : Prop :=
  match r.stage with
  | .prefillForward => C.Prompted m r
  | .decodeForward => C.Generating m r
  | _ => C.Waits m r

/-- A slot in the prefix cache holds the entries of the last token of its prefix. -/
def Caches (m : M) (cache : RadixCache) : Prop :=
  ∀ w x, cache.slotAt w = some x → C.Holds m (fun i => w.getD i 0) (w.length - 1) x

/-- What the memory holds of the requests and of the prefix cache. No prompt chunk is executed. -/
structure Served (p : ℕ) (m : M) (c : Config W) : Prop where
  plain : c.All fun r => r.disaggregatedParams = none
  pages : HasPages p c.scheduler.cachePageAllocator
  chunk_ne_zero : c.scheduler.chunkedPrefillSize ≠ some 0
  cache : C.Caches m c.scheduler.prefixCache
  waiting : ∀ r ∈ c.scheduler.waitingQueue, C.Waits m r
  decode : ∀ r ∈ c.scheduler.decodeQueue, C.Awaits m r
  taken : ∀ r ∈ c.taken, C.Takes m r
  executed : ∀ r ∈ c.executed, r.stage = .decodeForward

variable {C} {m m' : M} {r r' : ScheduledRequest} {s s' : Scheduler W} {p : ℕ}

/-! ### One request -/

theorem tokenAt_withPrefix : (s.withPrefix r).tokenAt = r.tokenAt := by
  funext i
  rw [ScheduledRequest.tokenAt, ScheduledRequest.tokenAt, inputIds_withPrefix,
    outputIds_withPrefix]

theorem HoldsFirst.of_prefix {tokens : ℕ → UInt32} {n : ℕ} {slots slots' : List ℕ}
    (h : C.HoldsFirst m tokens n slots) (hslots : slots <+: slots') :
    C.HoldsFirst m tokens n slots' := by
  intro i hi
  obtain ⟨rest, rfl⟩ := hslots
  obtain ⟨x, hx, hholds⟩ := h i hi
  exact ⟨x, (List.getElem?_append_left (List.getElem?_eq_some_iff.mp hx).1).trans hx, hholds⟩

theorem waits_new (n : NewRequest) : C.Waits m n.toScheduled :=
  ⟨rfl, rfl, rfl, Nat.zero_le _, le_rfl, fun h => List.eq_nil_of_length_eq_zero (Nat.le_zero.mp h),
    fun i hi => absurd hi i.not_lt_zero⟩

/-- The slots found in the prefix cache hold the entries of any prompt that is looked up. -/
theorem Caches.lookupPrefix (h : C.Caches m s.prefixCache) (hr : r.promptTokensProcessed = 0)
    {n : ℕ} (hn : n ≤ (s.lookupPrefix r.inputIds).matchedTokenCount) :
    C.HoldsFirst m r.tokenAt n (s.withPrefix r).sequenceCachePages := by
  intro i hi
  have hle := s.matchedTokenCount_lookupPrefix_le r.inputIds
  have hlt : i < (s.lookupPrefix r.inputIds).cachePages.length := by
    rw [s.length_lookupPrefix]
    omega
  rw [sequenceCachePages_withPrefix hr]
  refine ⟨_, List.getElem?_eq_getElem hlt, ?_⟩
  have hslot := (s.slotAt_of_lookupPrefix r.inputIds (List.getElem?_eq_getElem hlt)).2
  have hholds := h _ _ hslot
  rw [List.length_take_of_le (by omega), Nat.add_sub_cancel] at hholds
  refine (holds_congr fun j hj => ?_).mp hholds
  rw [ScheduledRequest.tokenAt_of_lt (by omega), List.getD_eq_getElem?_getD,
    List.getElem?_take_of_lt (by omega), ← List.getD_eq_getElem?_getD]

/-- Attaching a prefix that is not replayed. -/
theorem Waits.withPrefix (h : C.Waits m r) (hcache : C.Caches m s.prefixCache)
    (hnot : ¬s.Replays r) : C.Waits m (s.withPrefix r) := by
  by_cases h0 : r.promptTokensProcessed = 0
  · obtain ⟨hmatch, hrem⟩ := prefixMatch_withPrefix (s := s) h0
    have hprocessed : (s.withPrefix r).promptTokensProcessed =
        (s.lookupPrefix r.inputIds).matchedTokenCount := by
      obtain ⟨-, h⟩ | ⟨hrep, -⟩ := promptTokensProcessed_withPrefix (s := s) h0
      · exact h
      · exact absurd hrep hnot
    refine ⟨by simpa using h.stage_eq, by simpa using h.outputs_eq,
      by simpa using h.allocated_eq, ?_, hmatch.le, fun hle => ?_, ?_⟩
    · rw [hprocessed, inputIds_withPrefix]
      exact s.matchedTokenCount_lookupPrefix_le r.inputIds
    · rw [inputIds_withPrefix] at hle
      rw [ScheduledRequest.uncachedInputIds, hrem, List.drop_eq_nil_iff]
      exact hle
    · rw [tokenAt_withPrefix]
      exact hcache.lookupPrefix h0 hprocessed.le
  · rwa [withPrefix_of_ne h0]

/-- Preparing a chunk. -/
theorem Waits.prompted (h : C.Waits m r) (hcache : C.Caches m s.prefixCache)
    (hs : HasPages p s.cachePageAllocator) {k : ℕ} (hk : k ≠ 0)
    (hp : s.preparePrefillRequestChunk r k = (s', r', .ok ())) : C.Prompted m r' := by
  obtain ⟨hrep, rfl, -, rfl⟩ | ⟨hnot, slots, halloc, -, rfl⟩ | ⟨-, _, -, -, -, hres⟩ :=
    preparePrefillRequestChunk_cases hp
  · obtain ⟨h0, -, hne, hall⟩ := replays_iff.mp hrep
    obtain ⟨hmatch, -⟩ := prefixMatch_withPrefix (s := s') h0
    have hseq := sequenceCachePages_withPrefix (s := s') h0
    have hlen := s'.length_lookupPrefix r.inputIds
    have hpos := List.length_pos_of_ne_nil hne
    obtain ⟨hnot, -⟩ | ⟨-, hprocessed, x, hforward, hlast⟩ :=
      promptTokensProcessed_withPrefix (s := s') h0
    · exact absurd hrep hnot
    rw [hall] at hprocessed hlen
    have hallocated : (s'.withPrefix r).allocatedCachePages = [] := by
      simpa using h.allocated_eq
    have hheld := hcache.lookupPrefix (C := C) (m := m) (n := r.inputIds.length) h0 hall.ge
    rw [← tokenAt_withPrefix (s := s')] at hheld
    refine ⟨by simpa using h.outputs_eq, ?_, ?_, hmatch.le, fun hle => ?_,
      fun h1 => absurd h1 one_ne_zero, ?_, fun y hy => ⟨?_, ?_⟩⟩
    · simp only [hprocessed, inputIds_withPrefix]
      omega
    · simp [hforward]
    · simp only [inputIds_withPrefix, hprocessed] at hle
      omega
    · have hsequence : C.HoldsFirst m (s'.withPrefix r).tokenAt
          (s'.withPrefix r).promptTokensProcessed (s'.withPrefix r).sequenceCachePages :=
        fun i hi => hheld i (by simp only [hprocessed] at hi; omega)
      exact hsequence.of_prefix
        ((ScheduledRequest.keptSlots_of_nil hallocated).symm ▸ List.prefix_rfl)
    · simp only [hseq, hlen, inputIds_withPrefix]
    · -- the slot of the last token is the last one found
      obtain rfl : x = y := by
        have hyforward : (s'.withPrefix r).forwardCachePages = [y] := hy.forward_eq
        rw [hforward] at hyforward
        exact List.singleton_inj.mp hyforward
      obtain ⟨z, hz, hholds⟩ := hheld (r.inputIds.length - 1) (by omega)
      have hx : (s'.withPrefix r).sequenceCachePages[r.inputIds.length - 1]? = some x := by
        rw [← hlast, List.getLast?_eq_getElem?, hseq, hlen]
      simp only [hprocessed]
      exact Option.some.inj (hz.symm.trans hx) ▸ hholds
  · have hwait := h.withPrefix hcache hnot
    have hlength := ScheduledRequest.length_of_allocateForSequence hs halloc
    have hle := hwait.processed_le
    have hchunk : (s.withPrefix r).promptTokensProcessed +
        min (s.withPrefix r).remainingPromptTokens k ≤ (s.withPrefix r).inputIds.length := by
      unfold ScheduledRequest.remainingPromptTokens
      omega
    refine ⟨hwait.outputs_eq, hchunk, hlength, hwait.prefix_le, hwait.uncached_eq, fun h0 => ?_,
      ?_, fun x hx => ?_⟩
    · change min (s.withPrefix r).remainingPromptTokens k = 0 at h0
      change (s.withPrefix r).inputIds.length ≤ (s.withPrefix r).promptTokensProcessed
      unfold ScheduledRequest.remainingPromptTokens at h0
      omega
    · have hkept : ScheduledRequest.keptSlots { (s.withPrefix r).recordAllocation slots with
          currentChunkLen := min (s.withPrefix r).remainingPromptTokens k
          stage := .prefillForward } = (s.withPrefix r).sequenceCachePages :=
        ScheduledRequest.keptSlots_of_append rfl
      rw [hkept]
      exact hwait.held
    · -- a request with a slot to write is not replayed
      have hnil : slots = [] := hx.allocated_eq
      have hone : slots = [x] := hx.forward_eq
      rw [hnil] at hone
      exact nomatch hone
  · cases hres

/-- Undoing the preparation of a chunk. -/
theorem Prompted.clear (h : C.Prompted m r) :
    C.Waits m (r.clearForwardCacheAllocation.setStage .prefillWaiting) := by
  refine ⟨rfl, h.outputs_eq, rfl, (Nat.le_add_right _ _).trans h.chunk_le, h.prefix_le,
    h.uncached_eq, ?_⟩
  have hseq := ScheduledRequest.sequenceCachePages_clearForwardCacheAllocation (r := r)
  exact hseq.symm ▸ h.held

theorem Waits.clear (h : C.Waits m r) :
    C.Waits m (r.clearForwardCacheAllocation.setStage .prefillWaiting) := by
  refine ⟨rfl, h.outputs_eq, rfl, h.processed_le, h.prefix_le, h.uncached_eq, ?_⟩
  have hseq := ScheduledRequest.sequenceCachePages_clearForwardCacheAllocation (r := r)
  rw [ScheduledRequest.keptSlots_of_nil h.allocated_eq] at hseq
  exact hseq.symm ▸ h.held

/-- Preparing the next token. -/
theorem Awaits.generating (h : C.Awaits m r) (hs : HasPages p s.cachePageAllocator)
    (hp : s.prepareDecodeRequest r = (s', r', .ok ())) :
    C.Generating m (r'.setStage .decodeForward) := by
  obtain ⟨slots, halloc, rfl, -⟩ | ⟨_, -, -, -, hres⟩ := prepareDecodeRequest_cases hp
  · have hlength := ScheduledRequest.length_of_allocateForSequence hs halloc
    have hkept : ((r.recordAllocation slots).setStage .decodeForward).keptSlots =
        r.sequenceCachePages := ScheduledRequest.keptSlots_of_append rfl
    refine ⟨h.outputs_ne_nil, rfl, hlength, ?_, ?_, ?_⟩
    · rw [hkept]
      rfl
    · rw [hkept]
      exact h.length_sequence
    · rw [hkept]
      exact h.held
  · cases hres

/-- Undoing the preparation of the next token. -/
theorem Generating.clear (h : C.Generating m r) :
    C.Awaits m (r.clearForwardCacheAllocation.setStage .decodeWaiting) := by
  have hseq : (r.clearForwardCacheAllocation.setStage .decodeWaiting).sequenceCachePages =
      r.keptSlots := ScheduledRequest.sequenceCachePages_clearForwardCacheAllocation
  refine ⟨h.outputs_ne_nil, ?_, ?_⟩
  · rw [hseq]
    exact h.length_kept
  · rw [hseq]
    exact h.held

theorem Waits.takes (h : C.Waits m r) : C.Takes m r := by
  rw [Takes, h.stage_eq]
  exact h

theorem Takes.prompted (h : C.Takes m r) (hr : r.stage = .prefillForward) : C.Prompted m r := by
  rwa [Takes, hr] at h

theorem Takes.generating (h : C.Takes m r) (hr : r.stage = .decodeForward) : C.Generating m r := by
  rwa [Takes, hr] at h

theorem Takes.undoPrefill (h : C.Takes m r) (hr : r.stage ≠ .decodeForward) :
    C.Waits m (r.clearForwardCacheAllocation.setStage .prefillWaiting) := by
  unfold Takes at h
  cases hstage : r.stage with
  | prefillForward =>
    rw [hstage] at h
    exact h.clear
  | decodeForward => exact absurd hstage hr
  | prefillWaiting | decodeWaiting | finished =>
    rw [hstage] at h
    exact h.clear

end CausalModel

/-! ### Moves that execute nothing -/

/-- No batch is executed, and only plain requests are submitted. -/
def Guard.still : Guard W where
  submit n := n.disaggregatedParams = none
  publish _ _ := False
  skip _ _ := False
  park _ _ := False
  token _ := False

/-- **A move that executes nothing keeps what the slots hold.** -/
theorem Move.served {C : CausalModel M X Q E L} {p : ℕ} {m : M} {c c' : Config W}
    (h : Move Guard.still c c') (hc : C.Served p m c) : C.Served p m c' := by
  have hplain := h.all (P := fun r => r.disaggregatedParams = none)
    (fun x hx y hxy => hxy.disaggregatedParams_eq.trans hx) (fun n hn => hn) hc.plain
  have hpages := h.hasPages hc.pages
  have hchunk : c'.scheduler.chunkedPrefillSize ≠ some 0 := h.settings_eq.1 ▸ hc.chunk_ne_zero
  obtain ⟨hplain₀, hpages₀, hchunk₀, hcache, hwaiting, hdecode, htaken, hexecuted⟩ := hc
  cases h with
  | worker => exact ⟨hplain, hpages, hchunk, hcache, hwaiting, hdecode, htaken, hexecuted⟩
  | reorder s t d hw hd hp ht =>
    exact ⟨hplain, hpages, hchunk, hcache, fun r hr => hwaiting r (hw.mem_iff.mpr hr),
      fun r hr => hdecode r (hd.mem_iff.mpr hr), fun r hr => htaken r (ht.mem_iff.mpr hr),
      hexecuted⟩
  | enqueue s t d n hg =>
    refine ⟨hplain, hpages, hchunk, hcache, ?_, hdecode, htaken, hexecuted⟩
    exact List.forall_mem_append.mpr
      ⟨hwaiting, List.forall_mem_singleton.mpr (CausalModel.waits_new n)⟩
  | @takePrefill s t d r queue k s' r' hq hk hp =>
    obtain ⟨hr, hqueue⟩ := List.forall_mem_cons.mp (hq ▸ hwaiting)
    have hprompted := hr.prompted (s := { s with waitingQueue := queue }) hcache hpages₀
      (hk hchunk₀) hp
    have hstage := stage_of_preparePrefillRequestChunk hp
    obtain ⟨allocator, rfl⟩ := eq_with_allocator_of_preparePrefillRequestChunk hp
    refine ⟨hplain, hpages, hchunk, hcache, hqueue, hdecode,
      List.forall_mem_cons.mpr ⟨?_, htaken⟩, hexecuted⟩
    rw [CausalModel.Takes, hstage]
    exact hprompted
  | @takeFailed s t d r queue k s' r' error hq hp =>
    obtain ⟨hr, hqueue⟩ := List.forall_mem_cons.mp (hq ▸ hwaiting)
    obtain ⟨hnot, rfl, rfl⟩ := not_replays_of_preparePrefillRequestChunk hp
    exact ⟨hplain, hpages, hchunk, hcache, hqueue, hdecode,
      List.forall_mem_cons.mpr ⟨(hr.withPrefix hcache hnot).takes, htaken⟩, hexecuted⟩
  | @deferFailed s t d r queue k s' r' error hq hp =>
    obtain ⟨hr, hqueue⟩ := List.forall_mem_cons.mp (hq ▸ hwaiting)
    obtain ⟨hnot, rfl, rfl⟩ := not_replays_of_preparePrefillRequestChunk hp
    exact ⟨hplain, hpages, hchunk, hcache,
      List.forall_mem_cons.mpr ⟨hr.withPrefix hcache hnot, hqueue⟩, hdecode, htaken, hexecuted⟩
  | undoPrefill hr hg =>
    obtain ⟨hhead, htaken⟩ := List.forall_mem_cons.mp htaken
    exact ⟨hplain, hpages, hchunk, hcache,
      List.forall_mem_cons.mpr ⟨hhead.undoPrefill hr, hwaiting⟩, hdecode, htaken, hexecuted⟩
  | @takeDecode s t d r queue s' r' hq hp =>
    obtain ⟨hr, hqueue⟩ := List.forall_mem_cons.mp (hq ▸ hdecode)
    have hgenerating := hr.generating (s := { s with decodeQueue := queue }) hpages₀ hp
    obtain ⟨allocator, rfl⟩ := eq_with_allocator_of_prepareDecodeRequest hp
    exact ⟨hplain, hpages, hchunk, hcache, hwaiting, hqueue,
      List.forall_mem_cons.mpr ⟨hgenerating, htaken⟩, hexecuted⟩
  | undoDecode hr =>
    obtain ⟨hhead, htaken⟩ := List.forall_mem_cons.mp htaken
    exact ⟨hplain, hpages, hchunk, hcache, hwaiting,
      List.forall_mem_cons.mpr ⟨(hhead.generating hr).clear, hdecode⟩, htaken, hexecuted⟩
  | lose _ _ | fail _ =>
    exact ⟨hplain, hpages, hchunk, hcache, hwaiting, hdecode,
      (List.forall_mem_cons.mp htaken).2, hexecuted⟩
  | park hg | skipChunk _ _ hg | publishChunk _ _ hg | publishPending _ hg => exact False.elim hg
  | requeueToken _ _ hg | finish _ _ hg | finishError _ _ hg _ => exact False.elim hg
  | executeDecode hr =>
    exact ⟨hplain, hpages, hchunk, hcache, hwaiting, hdecode, (List.forall_mem_cons.mp htaken).2,
      List.forall_mem_cons.mpr ⟨hr, hexecuted⟩⟩
  | pendChunk _ _ hd | stageError _ hd _ =>
    exact absurd (hplain₀.taken _ List.mem_cons_self) hd
  | requeueChunk hr _ =>
    have hstage := hexecuted _ List.mem_cons_self
    rw [hr] at hstage
    cases hstage
  | abortWaiting hq =>
    have hqueue := (List.forall_mem_cons.mp (hq ▸ hwaiting)).2
    rw [releaseRequestCachePages_eq] at hplain hpages hchunk ⊢
    exact ⟨hplain, hpages, hchunk, hcache, hqueue, hdecode, htaken, hexecuted⟩
  | abortDecode hq | abortDecodePending hq _ _ =>
    have hqueue := (List.forall_mem_cons.mp (hq ▸ hdecode)).2
    rw [releaseRequestCachePages_eq] at hplain hpages hchunk ⊢
    exact ⟨hplain, hpages, hchunk, hcache, hwaiting, hqueue, htaken, hexecuted⟩
  | releasePending _ _ | losePending _ _ =>
    exact ⟨hplain, hpages, hchunk, hcache, hwaiting, hdecode, htaken, hexecuted⟩
  | failTransfer hq _ _ _ =>
    exact ⟨hplain, hpages, hchunk, hcache, hwaiting, (List.forall_mem_cons.mp (hq ▸ hdecode)).2,
      htaken, hexecuted⟩
  | @flush s hw hd =>
    rw [flushCache, if_neg (by simp [hw, hd])] at hplain hpages hchunk ⊢
    refine ⟨hplain, hpages, hchunk, fun w x hx => ?_, hwaiting, hdecode, htaken, hexecuted⟩
    have hx' : s.prefixCache.clear.slotAt w = some x := hx
    cases (RadixCache.slotAt_clear w).symm.trans hx'

end SglangRs
