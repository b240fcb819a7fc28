import SglangRs.Scheduler.Forming

/-!
# What preparing a request does

Specifications of the functions that prepare one request for a batch: the cached prefix is attached,
slots are allocated, or the slots run out. The formers and the invariants of the scheduler use
these lemmas and do not look into the functions again.

## Main definitions

* `Scheduler.withPrefix`, `Scheduler.Replays`: the prefix attached to a request.

## Main results

* `Scheduler.preparePrefillRequestChunk_cases`, `Scheduler.prepareDecodeRequest_cases`: the
  outcomes of preparing a request.
* `Scheduler.eq_outOfSlots_of_preparePrefillRequestChunk`: the only error is that slots run out.
* `Scheduler.sequenceCachePages_withPrefix`, `Scheduler.slotAt_of_lookupPrefix`: the slots attached
  are slots of the prefix cache.
-/

namespace SglangRs

namespace Scheduler

variable {W : Type} (s : Scheduler W)

/-! ### Outcomes -/

/-- The request once its cached prefix is attached: `prepare_prefill_request_chunk` looks the prefix
up only while no prompt token is processed. -/
def withPrefix (request : ScheduledRequest) : ScheduledRequest :=
  if request.promptTokensProcessed = 0 then (s.attachPrefixMatch request).1 else request

/-- The last token of a fully cached prompt is replayed. -/
def Replays (request : ScheduledRequest) : Prop :=
  request.promptTokensProcessed = 0 ∧ (s.attachPrefixMatch request).2 = true

variable {s} {s' : Scheduler W} {r r' : ScheduledRequest}

/-- **Preparing a chunk.** A fully cached prompt is replayed and nothing is allocated; otherwise
the slots of the chunk are allocated, or there are none and only the prefix is attached. -/
theorem preparePrefillRequestChunk_cases {k : ℕ} {result : Except SchedulerError Unit}
    (h : s.preparePrefillRequestChunk r k = (s', r', result)) :
    (s.Replays r ∧ s' = s ∧ result = .ok () ∧
      r' = { s.withPrefix r with currentChunkLen := 1, stage := .prefillForward }) ∨
    (¬s.Replays r ∧ ∃ slots,
      s.allocateForSequence (s.withPrefix r).sequenceCachePages
        (min (s.withPrefix r).remainingPromptTokens k) = .ok (s', slots) ∧ result = .ok () ∧
      r' = { (s.withPrefix r).recordAllocation slots with
              currentChunkLen := min (s.withPrefix r).remainingPromptTokens k
              stage := .prefillForward }) ∨
    (¬s.Replays r ∧ ∃ error,
      s.allocateForSequence (s.withPrefix r).sequenceCachePages
        (min (s.withPrefix r).remainingPromptTokens k) = .error error ∧
      s' = s ∧ r' = s.withPrefix r ∧ result = .error (.cacheAllocation error)) := by
  obtain ⟨replayed, hstart, hreplayed⟩ : ∃ replayed,
      (if r.promptTokensProcessed = 0 then s.attachPrefixMatch r else (r, false)) =
        (s.withPrefix r, replayed) ∧ (replayed = true ↔ s.Replays r) := by
    by_cases h0 : r.promptTokensProcessed = 0
    · exact ⟨(s.attachPrefixMatch r).2, by simp [withPrefix, h0], by simp [Replays, h0]⟩
    · exact ⟨false, by simp [withPrefix, h0], by simp [Replays, h0]⟩
  simp only [preparePrefillRequestChunk, hstart] at h
  by_cases hr : s.Replays r
  · rw [if_pos (hreplayed.mpr hr)] at h
    cases h
    exact .inl ⟨hr, rfl, rfl, rfl⟩
  · rw [if_neg (mt hreplayed.mp hr)] at h
    refine .inr ?_
    cases halloc : s.allocateForSequence (s.withPrefix r).sequenceCachePages
        (min (s.withPrefix r).remainingPromptTokens k) with
    | error error =>
      rw [halloc] at h
      cases h
      exact .inr ⟨hr, error, rfl, rfl, rfl, rfl⟩
    | ok allocation =>
      obtain ⟨s₁, slots⟩ := allocation
      rw [halloc] at h
      cases h
      exact .inl ⟨hr, slots, rfl, rfl, rfl⟩

/-- The allocator answers for the scheduler; without an allocator there is nothing to allocate. -/
theorem allocateForSequence_eq_ok {seq slots : List ℕ} {n : ℕ}
    (h : s.allocateForSequence seq n = .ok (s', slots)) :
    (s.cachePageAllocator = none ∧ s' = s ∧ slots = []) ∨
    ∃ a a', s.cachePageAllocator = some a ∧ a.allocateForSequence seq n = .ok (a', slots) ∧
      s' = { s with cachePageAllocator := some a' } := by
  unfold allocateForSequence at h
  split at h
  case h_1 hnone =>
    obtain ⟨rfl, rfl⟩ := Prod.mk.inj (Except.ok.inj h)
    exact .inl ⟨hnone, rfl, rfl⟩
  case h_2 a hsome =>
    split at h
    case h_1 => cases h
    case h_2 a' slots' halloc =>
      obtain ⟨rfl, rfl⟩ := Prod.mk.inj (Except.ok.inj h)
      exact .inr ⟨a, a', hsome, halloc, rfl⟩

theorem allocateForSequence_of_some {a : CachePageAllocator} (ha : s.cachePageAllocator = some a)
    {seq slots : List ℕ} {n : ℕ} (h : s.allocateForSequence seq n = .ok (s', slots)) :
    ∃ a', a.allocateForSequence seq n = .ok (a', slots) ∧
      s' = { s with cachePageAllocator := some a' } := by
  obtain ⟨hnone, -⟩ | ⟨a₀, a', ha₀, halloc, rfl⟩ := allocateForSequence_eq_ok h
  · rw [hnone] at ha
    cases ha
  · obtain rfl : a₀ = a := Option.some.inj (ha₀.symm.trans ha)
    exact ⟨a', halloc, rfl⟩

theorem allocateForSequence_eq_error {seq : List ℕ} {n : ℕ} {error : CacheAllocationError}
    (h : s.allocateForSequence seq n = .error error) :
    ∃ a, s.cachePageAllocator = some a ∧ a.allocateForSequence seq n = .error error := by
  unfold allocateForSequence at h
  split at h
  case h_1 => cases h
  case h_2 a hsome =>
    split at h
    case h_1 error' halloc => exact ⟨a, hsome, halloc.trans (congrArg _ (Except.error.inj h))⟩
    case h_2 => cases h

/-- A chunk that cannot be prepared is not replayed, and only its prefix is attached. -/
theorem not_replays_of_preparePrefillRequestChunk {k : ℕ} {error : SchedulerError}
    (h : s.preparePrefillRequestChunk r k = (s', r', .error error)) :
    ¬s.Replays r ∧ s' = s ∧ r' = s.withPrefix r := by
  obtain ⟨-, -, herr, -⟩ | ⟨-, _, -, herr, -⟩ | ⟨hnot, _, -, hs, hr, -⟩ :=
    preparePrefillRequestChunk_cases h
  · cases herr
  · cases herr
  · exact ⟨hnot, hs, hr⟩

/-- A chunk cannot be prepared only because the slots run out. -/
theorem eq_outOfSlots_of_preparePrefillRequestChunk {k : ℕ} {error : SchedulerError}
    (h : s.preparePrefillRequestChunk r k = (s', r', .error error)) :
    s' = s ∧ r' = s.withPrefix r ∧
      ∃ requested available, error = .cacheAllocation (.outOfSlots requested available) := by
  obtain ⟨-, -, herr, -⟩ | ⟨-, _, -, herr, -⟩ | ⟨-, e, halloc, hs, hr, herr⟩ :=
    preparePrefillRequestChunk_cases h
  · cases herr
  · cases herr
  · obtain ⟨a, -, ha⟩ := allocateForSequence_eq_error halloc
    obtain ⟨requested, available, rfl⟩ :=
      CachePageAllocator.eq_outOfSlots_of_allocateForSequence ha
    exact ⟨hs, hr, requested, available, Except.error.inj herr⟩

/-- **Preparing a decode request.** -/
theorem prepareDecodeRequest_cases {result : Except SchedulerError Unit}
    (h : s.prepareDecodeRequest r = (s', r', result)) :
    (∃ slots, s.allocateForSequence r.sequenceCachePages 1 = .ok (s', slots) ∧
      r' = r.recordAllocation slots ∧ result = .ok ()) ∨
    (∃ error, s.allocateForSequence r.sequenceCachePages 1 = .error error ∧ s' = s ∧ r' = r ∧
      result = .error (.cacheAllocation error)) := by
  unfold prepareDecodeRequest at h
  split at h
  case h_1 error halloc =>
    cases h
    exact .inr ⟨error, halloc, rfl, rfl, rfl⟩
  case h_2 s₁ slots halloc =>
    cases h
    exact .inl ⟨slots, halloc, rfl, rfl⟩

/-- Preparing a request changes nothing but the allocator. -/
theorem eq_with_allocator_of_preparePrefillRequestChunk {k : ℕ}
    {result : Except SchedulerError Unit}
    (h : s.preparePrefillRequestChunk r k = (s', r', result)) :
    ∃ allocator, s' = { s with cachePageAllocator := allocator } := by
  obtain ⟨-, rfl, -⟩ | ⟨-, slots, halloc, -⟩ | ⟨-, -, -, rfl, -⟩ :=
    preparePrefillRequestChunk_cases h
  · exact ⟨_, rfl⟩
  · obtain ⟨-, rfl, -⟩ | ⟨a, a', -, -, rfl⟩ := allocateForSequence_eq_ok halloc
    · exact ⟨_, rfl⟩
    · exact ⟨_, rfl⟩
  · exact ⟨_, rfl⟩

theorem eq_with_allocator_of_prepareDecodeRequest {result : Except SchedulerError Unit}
    (h : s.prepareDecodeRequest r = (s', r', result)) :
    ∃ allocator, s' = { s with cachePageAllocator := allocator } := by
  obtain ⟨slots, halloc, -⟩ | ⟨-, -, rfl, -⟩ := prepareDecodeRequest_cases h
  · obtain ⟨-, rfl, -⟩ | ⟨a, a', -, -, rfl⟩ := allocateForSequence_eq_ok halloc
    · exact ⟨_, rfl⟩
    · exact ⟨_, rfl⟩
  · exact ⟨_, rfl⟩

theorem stage_of_preparePrefillRequestChunk {k : ℕ}
    (h : s.preparePrefillRequestChunk r k = (s', r', .ok ())) : r'.stage = .prefillForward := by
  obtain ⟨-, -, -, rfl⟩ | ⟨-, _, -, -, rfl⟩ | ⟨-, _, -, -, -, hres⟩ :=
    preparePrefillRequestChunk_cases h
  · rfl
  · rfl
  · cases hres

/-! ### The prefix attached to a request -/

section Prefix

variable (s) (inputIds : List UInt32)

@[simp] theorem length_lookupPrefix :
    (s.lookupPrefix inputIds).cachePages.length =
      (s.lookupPrefix inputIds).matchedTokenCount := by
  unfold lookupPrefix
  split
  · exact RadixCache.length_cachePages_aligned _ _ _
  · rfl

theorem matchedTokenCount_lookupPrefix_le :
    (s.lookupPrefix inputIds).matchedTokenCount ≤ inputIds.length := by
  unfold lookupPrefix
  split
  · exact RadixCache.matchedTokenCount_aligned_le_length _ _ _
  · exact Nat.zero_le _

theorem pageSize_dvd_lookupPrefix :
    s.pageSize ∣ (s.lookupPrefix inputIds).matchedTokenCount := by
  unfold lookupPrefix
  split
  · exact RadixCache.dvd_matchedTokenCount_aligned _ _ _
  · exact Nat.dvd_zero _

theorem remainingInputIds_lookupPrefix :
    (s.lookupPrefix inputIds).remainingInputIds =
      inputIds.drop (s.lookupPrefix inputIds).matchedTokenCount := by
  unfold lookupPrefix
  split
  · rfl
  · rfl

/-- A slot matched is held by the prefix cache for the prefix it ends. -/
theorem slotAt_of_lookupPrefix {i x : ℕ}
    (hx : (s.lookupPrefix inputIds).cachePages[i]? = some x) :
    s.prefixCachePolicy = .enabled ∧ s.prefixCache.slotAt (inputIds.take (i + 1)) = some x := by
  have hi : i < (s.lookupPrefix inputIds).matchedTokenCount := by
    rw [← length_lookupPrefix]
    exact (List.getElem?_eq_some_iff.mp hx).1
  unfold lookupPrefix at hx hi
  cases hpol : s.prefixCachePolicy with
  | enabled =>
    rw [hpol] at hx hi
    exact ⟨rfl, (RadixCache.getElem?_matchPrefixPageAligned _ _ _ hi).symm.trans hx⟩
  | disabled =>
    rw [hpol] at hi
    exact absurd hi (Nat.not_lt_zero _)

end Prefix

theorem withPrefix_of_ne (h : r.promptTokensProcessed ≠ 0) : s.withPrefix r = r := if_neg h

/-- A request is replayed when its prompt, not empty, is cached as a whole. -/
theorem replays_iff : s.Replays r ↔ r.promptTokensProcessed = 0 ∧ r.disaggregatedParams = none ∧
    r.inputIds ≠ [] ∧ (s.lookupPrefix r.inputIds).matchedTokenCount = r.inputIds.length := by
  have hle := s.matchedTokenCount_lookupPrefix_le r.inputIds
  have hnil : (s.lookupPrefix r.inputIds).remainingInputIds = [] ↔
      (s.lookupPrefix r.inputIds).matchedTokenCount = r.inputIds.length := by
    rw [remainingInputIds_lookupPrefix, List.drop_eq_nil_iff]
    omega
  unfold Replays attachPrefixMatch
  dsimp only
  split_ifs with hcond
  · simp [hcond.1, hcond.2.1, hnil.mp hcond.2.2]
  · simp only [and_false, false_iff]
    rintro ⟨-, hdis, hne, hall⟩
    exact hcond ⟨hdis, hne, hnil.mpr hall⟩

/-- The slots attached to a request are the slots matched, replayed or not. -/
theorem sequenceCachePages_withPrefix (h : r.promptTokensProcessed = 0) :
    (s.withPrefix r).sequenceCachePages = (s.lookupPrefix r.inputIds).cachePages := by
  unfold withPrefix attachPrefixMatch
  rw [if_pos h]
  dsimp only
  split_ifs with hcond
  · have hne : (s.lookupPrefix r.inputIds).cachePages ≠ [] := by
      intro hnil
      have hlen := s.length_lookupPrefix r.inputIds
      have hrem := hcond.2.2
      rw [hnil, List.length_nil] at hlen
      rw [remainingInputIds_lookupPrefix, ← hlen, List.drop_zero] at hrem
      exact hcond.2.1 hrem
    dsimp only
    rw [List.getLast?_eq_some_getLast hne, Option.getD_some, List.dropLast_append_getLast]
  · rfl

theorem cacheHitTokenCount_withPrefix (h : r.promptTokensProcessed = 0) :
    (s.withPrefix r).cacheHitTokenCount = (s.lookupPrefix r.inputIds).matchedTokenCount := by
  unfold withPrefix attachPrefixMatch
  rw [if_pos h]
  dsimp only
  split_ifs <;> rfl

theorem promptTokensProcessed_withPrefix (h : r.promptTokensProcessed = 0) :
    (¬s.Replays r ∧ (s.withPrefix r).promptTokensProcessed =
      (s.lookupPrefix r.inputIds).matchedTokenCount) ∨
    (s.Replays r ∧ (s.withPrefix r).promptTokensProcessed =
      (s.lookupPrefix r.inputIds).matchedTokenCount - 1 ∧
      ∃ x, (s.withPrefix r).forwardCachePages = [x] ∧
        (s.withPrefix r).sequenceCachePages.getLast? = some x) := by
  unfold withPrefix Replays attachPrefixMatch
  rw [if_pos h]
  dsimp only
  split_ifs with hcond
  · exact .inr ⟨⟨h, rfl⟩, rfl, _, rfl, by simp⟩
  · exact .inl ⟨by simp, rfl⟩

/-- The prefix match kept with a request stands for the processed part of the prompt. -/
theorem prefixMatch_withPrefix (h : r.promptTokensProcessed = 0) :
    (s.withPrefix r).prefixMatch.cachePages.length = (s.withPrefix r).promptTokensProcessed ∧
      (s.withPrefix r).prefixMatch.remainingInputIds =
        r.inputIds.drop (s.withPrefix r).promptTokensProcessed := by
  have hlen := s.length_lookupPrefix r.inputIds
  unfold withPrefix attachPrefixMatch
  rw [if_pos h]
  dsimp only
  split_ifs with hcond
  · obtain ⟨-, hne, hrem⟩ := hcond
    have hle := s.matchedTokenCount_lookupPrefix_le r.inputIds
    have hall : (s.lookupPrefix r.inputIds).matchedTokenCount = r.inputIds.length := by
      rw [remainingInputIds_lookupPrefix, List.drop_eq_nil_iff] at hrem
      omega
    refine ⟨by simp [hlen], ?_⟩
    dsimp only
    rw [hrem, hall, List.nil_append, List.getLast?_eq_some_getLast hne, Option.toList_some,
      List.drop_length_sub_one hne]
  · exact ⟨hlen, s.remainingInputIds_lookupPrefix r.inputIds⟩

section Unchanged

variable (s) (r)

/-- Attaching a prefix leaves the other fields of a request alone. -/
theorem withPrefix_eq : s.withPrefix r =
    { r with
      forwardCachePages := (s.withPrefix r).forwardCachePages
      sequenceCachePages := (s.withPrefix r).sequenceCachePages
      cacheHitTokenCount := (s.withPrefix r).cacheHitTokenCount
      prefixMatch := (s.withPrefix r).prefixMatch
      promptTokensProcessed := (s.withPrefix r).promptTokensProcessed } := by
  unfold withPrefix attachPrefixMatch
  dsimp only
  split_ifs <;> rfl

@[simp] theorem inputIds_withPrefix : (s.withPrefix r).inputIds = r.inputIds := by
  rw [withPrefix_eq]

@[simp] theorem outputIds_withPrefix : (s.withPrefix r).outputIds = r.outputIds := by
  rw [withPrefix_eq]

@[simp] theorem requestId_withPrefix : (s.withPrefix r).requestId = r.requestId := by
  rw [withPrefix_eq]

@[simp] theorem sampling_withPrefix : (s.withPrefix r).sampling = r.sampling := by
  rw [withPrefix_eq]

@[simp] theorem allocatedCachePages_withPrefix :
    (s.withPrefix r).allocatedCachePages = r.allocatedCachePages := by
  rw [withPrefix_eq]

@[simp] theorem disaggregatedParams_withPrefix :
    (s.withPrefix r).disaggregatedParams = r.disaggregatedParams := by
  rw [withPrefix_eq]

@[simp] theorem stage_withPrefix : (s.withPrefix r).stage = r.stage := by
  rw [withPrefix_eq]

end Unchanged

end Scheduler

end SglangRs
