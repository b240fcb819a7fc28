import SglangRs.Scheduler.Refinement

/-!
# Forming a batch on an error

A former pops requests and allocates slots one request at a time. When it has to give up it is
meant to leave the scheduler as it was: the queues with the same requests in the same order and the
same pages free and allocated. The prefill former and the decode former with a caller's readiness
check do so. The formers that ask the worker whether a request is ready restore the scheduler when
the slots run out, but not when the worker's answer is an error: the requests already taken are
dropped and their slots stay allocated.

## Main definitions

* `Scheduler.Restored`: a scheduler as it was before a former was called.
* `Former.Interrupted`: a question to the worker fails after requests have been taken.

## Main results

* `restored_iff_of_form_error`: a former that returns an error has restored the scheduler exactly
  if it was not interrupted.
-/

namespace SglangRs

open Paging Transition

variable {W : Type}

namespace Scheduler

/-- What a caller can tell of a request: its id and its outputs. -/
def tag (r : ScheduledRequest) : RequestId × List UInt32 := (r.requestId, r.outputIds)

/-- The free and the allocated pages. -/
def pages (s : Scheduler W) : Option (Finset ℕ × Finset ℕ) :=
  s.cachePageAllocator.map fun a => (a.freePageIndices.toFinset, a.allocatedPageIndices)

/-- The queues hold the requests of `s` in the same order, and the same pages are free and
allocated. -/
structure Restored (s s' : Scheduler W) : Prop where
  waiting_eq : s'.waitingQueue.map tag = s.waitingQueue.map tag
  decode_eq : s'.decodeQueue.map tag = s.decodeQueue.map tag
  pages_eq : s'.pages = s.pages

/-- What the formers rely on: the allocator is consistent and waiting requests carry no chunk. -/
structure Sound (s : Scheduler W) : Prop where
  valid : ∀ a, s.cachePageAllocator = some a → a.Valid
  allocated_eq : ∀ r ∈ s.waitingQueue, r.allocatedCachePages = []

end Scheduler

/-! ### Allocating and releasing -/

namespace CachePageAllocator

/-- The free pages are the pages that are not allocated. -/
theorem Valid.mem_free_iff {a : CachePageAllocator} (ha : a.Valid) {g : ℕ} :
    g ∈ a.freePageIndices ↔ g < a.slotCapacity / a.pageSize ∧ g ∉ a.allocatedPageIndices := by
  rw [← ha.mem_or_mem g]
  constructor
  · exact fun hg => ⟨.inl hg, ha.free_notMem g hg⟩
  · rintro ⟨hg | hg, hnot⟩
    · exact hg
    · exact absurd hg hnot

/-- The allocator `a` has allocated, beyond `a₀`, the pages the chunks of `requests` start. -/
structure Reserved (a₀ a : CachePageAllocator) (requests : List ScheduledRequest) : Prop where
  valid : a.Valid
  pageSize_eq : a.pageSize = a₀.pageSize
  slotCapacity_eq : a.slotCapacity = a₀.slotCapacity
  mem_iff : ∀ g, g ∈ a.allocatedPageIndices ↔ g ∈ a₀.allocatedPageIndices ∨
    ∃ r ∈ requests, g ∈ firstPages a₀.pageSize r.allocatedCachePages
  fresh : ∀ r ∈ requests, ∀ g ∈ firstPages a₀.pageSize r.allocatedCachePages,
    g ∉ a₀.allocatedPageIndices

namespace Reserved

variable {a₀ a a' : CachePageAllocator} {requests : List ScheduledRequest} {r : ScheduledRequest}

theorem nil (ha : a.Valid) : Reserved a a [] := ⟨ha, rfl, rfl, by simp, by simp⟩

theorem perm (h : Reserved a₀ a requests) {requests' : List ScheduledRequest}
    (hperm : requests.Perm requests') : Reserved a₀ a requests' :=
  ⟨h.valid, h.pageSize_eq, h.slotCapacity_eq, fun g => by
    rw [h.mem_iff]
    simp only [hperm.mem_iff], fun r hr => h.fresh r (hperm.mem_iff.mpr hr)⟩

theorem append_of_nil (h : Reserved a₀ a requests) (hr : r.allocatedCachePages = []) :
    Reserved a₀ a (requests ++ [r]) := by
  refine ⟨h.valid, h.pageSize_eq, h.slotCapacity_eq, fun g => ?_, fun x hx => ?_⟩
  · rw [h.mem_iff]
    simp [or_and_right, exists_or, hr]
  · rcases List.mem_append.mp hx with hx | hx
    · exact h.fresh x hx
    · rw [List.mem_singleton.mp hx, hr]
      simp

theorem append (h : Reserved a₀ a requests) {seq : List ℕ} {n : ℕ}
    (halloc : a.allocateForSequence seq n = .ok (a', r.allocatedCachePages)) :
    Reserved a₀ a' (requests ++ [r]) := by
  obtain ⟨fresh, hfresh⟩ := allocates_of_allocateForSequence h.valid.pageSize_pos halloc
  have hpages : firstPages a₀.pageSize r.allocatedCachePages = fresh := by
    rw [← h.pageSize_eq]
    exact hfresh.firstPages_slots h.valid.pageSize_pos
  refine ⟨hfresh.valid h.valid, hfresh.pageSize_eq.trans h.pageSize_eq,
    hfresh.slotCapacity_eq.trans h.slotCapacity_eq, fun g => ?_, fun x hx g hg => ?_⟩
  · rw [hfresh.mem_allocated, h.mem_iff]
    simp [or_and_right, exists_or, hpages, or_assoc]
  · rcases List.mem_append.mp hx with hx | hx
    · exact h.fresh x hx g hg
    · rw [List.mem_singleton.mp hx, hpages] at hg
      exact fun hmem => hfresh.fresh_notMem h.valid hg ((h.mem_iff g).mpr (.inl hmem))

theorem foldl_release (requests : List ScheduledRequest) (ha : a.Valid) :
    (requests.foldl (fun a r => a.release r.allocatedCachePages) a).Valid ∧
      (requests.foldl (fun a r => a.release r.allocatedCachePages) a).pageSize = a.pageSize ∧
      (requests.foldl (fun a r => a.release r.allocatedCachePages) a).slotCapacity =
        a.slotCapacity ∧
      ∀ g, g ∈ (requests.foldl (fun a r => a.release r.allocatedCachePages) a).allocatedPageIndices
        ↔ g ∈ a.allocatedPageIndices ∧
          ∀ r ∈ requests, g ∉ firstPages a.pageSize r.allocatedCachePages := by
  induction requests generalizing a with
  | nil => exact ⟨ha, rfl, rfl, by simp⟩
  | cons r requests ih =>
    obtain ⟨hv, hp, hc, hmem⟩ := ih (ha.release r.allocatedCachePages)
    refine ⟨hv, hp, hc, fun g => ?_⟩
    rw [List.foldl_cons, hmem, ha.mem_allocated_release]
    simp [and_assoc]

/-- **Releasing what was reserved restores the pages.** -/
theorem release_requests (h : Reserved a₀ a requests) (ha₀ : a₀.Valid) :
    let a' := requests.foldl (fun a r => a.release r.allocatedCachePages) a
    a'.freePageIndices.toFinset = a₀.freePageIndices.toFinset ∧
      a'.allocatedPageIndices = a₀.allocatedPageIndices := by
  intro a'
  obtain ⟨hv, hp, hc, hmem⟩ := foldl_release requests h.valid
  have hallocated : a'.allocatedPageIndices = a₀.allocatedPageIndices := by
    ext g
    rw [hmem, h.mem_iff, h.pageSize_eq]
    constructor
    · rintro ⟨hg | ⟨r, hr, hg⟩, hnot⟩
      · exact hg
      · exact absurd hg (hnot r hr)
    · exact fun hg => ⟨.inl hg, fun r hr hpage => h.fresh r hr g hpage hg⟩
  refine ⟨?_, hallocated⟩
  ext g
  rw [List.mem_toFinset, List.mem_toFinset, hv.mem_free_iff, ha₀.mem_free_iff, hp, hc,
    h.pageSize_eq, h.slotCapacity_eq]
  change _ ∧ g ∉ a'.allocatedPageIndices ↔ _
  rw [hallocated]

end Reserved

end CachePageAllocator

namespace Scheduler

/-- The scheduler `s` holds, beyond the pages of `s₀`, those of the chunks of `requests`. -/
def Holding (s₀ s : Scheduler W) (requests : List ScheduledRequest) : Prop :=
  (s₀.cachePageAllocator = none ∧ s.cachePageAllocator = none) ∨
    ∃ a₀ a, s₀.cachePageAllocator = some a₀ ∧ s.cachePageAllocator = some a ∧ a₀.Valid ∧
      CachePageAllocator.Reserved a₀ a requests

namespace Holding

variable {s₀ s s' : Scheduler W} {requests : List ScheduledRequest} {r : ScheduledRequest}

theorem refl (hs : s.Sound) : Holding s s [] := by
  cases ha : s.cachePageAllocator with
  | none => exact .inl ⟨ha, ha⟩
  | some a => exact .inr ⟨a, a, ha, ha, hs.valid a ha, .nil (hs.valid a ha)⟩

theorem perm (h : Holding s₀ s requests) {requests' : List ScheduledRequest}
    (hperm : requests.Perm requests') : Holding s₀ s requests' := by
  obtain ⟨h₀, h⟩ | ⟨a₀, a, h₀, ha, hv, hres⟩ := h
  · exact .inl ⟨h₀, h⟩
  · exact .inr ⟨a₀, a, h₀, ha, hv, hres.perm hperm⟩

theorem of_allocator_eq (h : Holding s₀ s requests)
    (heq : s'.cachePageAllocator = s.cachePageAllocator) : Holding s₀ s' requests := by
  unfold Holding
  rw [heq]
  exact h

theorem append_of_nil (h : Holding s₀ s requests) (hr : r.allocatedCachePages = []) :
    Holding s₀ s (requests ++ [r]) := by
  obtain ⟨h₀, h⟩ | ⟨a₀, a, h₀, ha, hv, hres⟩ := h
  · exact .inl ⟨h₀, h⟩
  · exact .inr ⟨a₀, a, h₀, ha, hv, hres.append_of_nil hr⟩

theorem append (h : Holding s₀ s requests) {seq : List ℕ} {n : ℕ}
    (halloc : s.allocateForSequence seq n = .ok (s', r.allocatedCachePages)) :
    Holding s₀ s' (requests ++ [r]) := by
  obtain ⟨h₀, h⟩ | ⟨a₀, a, h₀, ha, hv, hres⟩ := h
  · obtain ⟨-, rfl, -⟩ | ⟨a, -, ha, -⟩ := allocateForSequence_eq_ok halloc
    · exact .inl ⟨h₀, h⟩
    · rw [h] at ha
      cases ha
  · obtain ⟨a', halloc', rfl⟩ := allocateForSequence_of_some ha halloc
    exact .inr ⟨a₀, a', h₀, rfl, hv, hres.append halloc'⟩

/-- Releasing the chunks restores the pages. -/
theorem pages_eq (h : Holding s₀ s requests)
    (hs' : s'.cachePageAllocator = s.cachePageAllocator.map fun a =>
      requests.foldl (fun a r => a.release r.allocatedCachePages) a) : s'.pages = s₀.pages := by
  unfold pages
  obtain ⟨h₀, h⟩ | ⟨a₀, a, h₀, ha, hv, hres⟩ := h
  · simp [hs', h₀, h]
  · obtain ⟨hfree, hallocated⟩ := hres.release_requests hv
    simp [hs', h₀, ha, hfree, hallocated]

theorem pages_eq_of_nil (h : Holding s₀ s []) : s.pages = s₀.pages :=
  h.pages_eq (by cases s.cachePageAllocator <;> rfl)

end Holding

section Tags

variable {s s' : Scheduler W} {r r' : ScheduledRequest}

theorem tag_of_preparePrefillRequestChunk {k : ℕ} {result : Except SchedulerError Unit}
    (h : s.preparePrefillRequestChunk r k = (s', r', result)) : tag r' = tag r := by
  have htag : tag (s.withPrefix r) = tag r := by simp [tag]
  obtain ⟨-, -, -, rfl⟩ | ⟨-, _, -, -, rfl⟩ | ⟨-, _, -, -, rfl, -⟩ :=
    preparePrefillRequestChunk_cases h
  all_goals exact htag

theorem tag_of_prepareDecodeRequest {result : Except SchedulerError Unit}
    (h : s.prepareDecodeRequest r = (s', r', result)) : tag r' = tag r := by
  obtain ⟨_, -, rfl, -⟩ | ⟨_, -, -, rfl, -⟩ := prepareDecodeRequest_cases h
  all_goals rfl

@[simp] theorem tag_clear (stage : RequestStage) :
    tag (r.clearForwardCacheAllocation.setStage stage) = tag r := rfl

@[simp] theorem map_tag_clear (requests : List ScheduledRequest) (stage : RequestStage) :
    (requests.map fun r => r.clearForwardCacheAllocation.setStage stage).map tag =
      requests.map tag := by
  simp [Function.comp_def]

end Tags

/-! ### Prefill batches -/

/-- A scan of the waiting queue keeps its requests in order and holds the pages of those it took. -/
theorem scanPrefill_spec (m u k : ℕ) (queue : List ScheduledRequest) (s₀ s : Scheduler W)
    (requests : List ScheduledRequest) (n : ℕ) (hq : s.waitingQueue = queue)
    (hqueue : ∀ r ∈ queue, r.allocatedCachePages = []) (hold : Holding s₀ s requests) :
    let scan := scanPrefill m u k queue s requests n
    Holding s₀ scan.scheduler (scan.requests ++ scan.exit.held) ∧
      (scan.requests ++ scan.exit.held ++ scan.scheduler.waitingQueue).map tag =
        (requests ++ queue).map tag ∧
      scan.scheduler.decodeQueue = s.decodeQueue := by
  induction queue generalizing s requests n with
  | nil => simpa [scanPrefill, PrefillExit.held, hq] using hold
  | cons r queue ih =>
    unfold scanPrefill
    split
    case isFalse => simpa [PrefillExit.held, hq] using hold
    case isTrue =>
      have hr := hqueue r List.mem_cons_self
      split
      case h_1 s' r' error hp =>
        have htag := tag_of_preparePrefillRequestChunk hp
        obtain ⟨rfl, rfl, -⟩ := eq_outOfSlots_of_preparePrefillRequestChunk hp
        refine ⟨?_, by simp [PrefillExit.held, htag], rfl⟩
        exact (hold.append_of_nil (by simpa using hr)).of_allocator_eq rfl
      case h_2 s' r' hp =>
        have htag := tag_of_preparePrefillRequestChunk hp
        have hold' : Holding s₀ s' (requests ++ [r']) := by
          obtain ⟨-, rfl, -, rfl⟩ | ⟨-, slots, halloc, -, rfl⟩ | ⟨-, _, -, -, -, hres⟩ :=
            preparePrefillRequestChunk_cases hp
          · exact (hold.append_of_nil (by simpa using hr)).of_allocator_eq rfl
          · have hold₁ : Holding s₀ { s with waitingQueue := queue } requests :=
              hold.of_allocator_eq rfl
            exact hold₁.append halloc
          · cases hres
        obtain ⟨allocator, rfl⟩ := eq_with_allocator_of_preparePrefillRequestChunk hp
        split_ifs
        · exact ⟨hold', by simp [PrefillExit.held, htag], rfl⟩
        · obtain ⟨hhold, htags, hdecode⟩ := ih _ (requests ++ [r']) (n + r'.currentChunkLen) rfl
            (fun x hx => hqueue x (List.mem_cons_of_mem _ hx)) hold'
          exact ⟨hhold, htags.trans (by simp [htag]), hdecode⟩

/-- A prefill batch of no request is an error only if the head of the queue cannot be prepared. -/
theorem ClosesPrefill.restored {s s' : Scheduler W} {k : ℕ} {requests : List ScheduledRequest}
    {error : SchedulerError} (h : s.ClosesPrefill k requests s' (.error error)) :
    requests = [] ∧ s.Restored s' := by
  cases h with
  | empty _ => exact ⟨rfl, rfl, rfl, rfl⟩
  | failed hq hp =>
    have htag := tag_of_preparePrefillRequestChunk hp
    obtain ⟨rfl, -, -⟩ := eq_outOfSlots_of_preparePrefillRequestChunk hp
    exact ⟨rfl, by simp [hq, htag], rfl, rfl⟩

theorem Restored.trans {s s' s'' : Scheduler W} (h : s.Restored s') (h' : s'.Restored s'') :
    s.Restored s'' :=
  ⟨h'.waiting_eq.trans h.waiting_eq, h'.decode_eq.trans h.decode_eq, h'.pages_eq.trans h.pages_eq⟩

/-- The prefill former restores the scheduler whenever it returns an error. -/
theorem restored_of_nextPrefillBatch_error {s s' : Scheduler W} (hs : s.Sound) {m u : ℕ}
    {error : SchedulerError}
    (h : s.nextPrefillBatchWithTokenBudget m u = (s', .error error)) : s.Restored s' := by
  have hscan (remaining : ℕ) := scanPrefill_spec (min m remaining) u
    (s.chunkedPrefillSize.getD usizeMax) s.waitingQueue s s [] 0 rfl hs.allocated_eq (.refl hs)
  cases formsPrefill h with
  | idle _ | full _ => exact ⟨rfl, rfl, rfl⟩
  | @failed remaining r error _ _ hexit =>
    obtain ⟨hold, htags, hdecode⟩ := hscan remaining
    rw [hexit] at hold htags
    rw [restoreFailedPrefillAttempt_eq]
    simp only [PrefillExit.held] at hold htags
    exact ⟨by simpa [Function.comp_def] using htags, by simp [hdecode],
      (hold.perm (List.perm_append_singleton r _)).pages_eq rfl⟩
  | @closed remaining s' result _ _ hexit hclose =>
    obtain ⟨hold, htags, hdecode⟩ := hscan remaining
    obtain ⟨hnil, hclosed⟩ := hclose.restored
    rw [hexit, hnil] at hold htags
    simp only [PrefillExit.held, List.append_nil, List.nil_append] at hold htags
    have hrestored : s.Restored (s.prefillScan m u remaining).scheduler :=
      ⟨htags, by rw [hdecode], hold.pages_eq_of_nil⟩
    exact hrestored.trans hclosed

/-! ### Decode batches -/

/-- A scan of the decode queue keeps its requests in order and holds the slots of those it took. -/
theorem scanDecode_spec (probe : W → ℕ → ScheduledRequest → W × ProbeAnswer) (limit : ℕ)
    (queue : List ScheduledRequest) (s₀ s : Scheduler W) (requests : List ScheduledRequest)
    (hq : s.decodeQueue = queue) (hold : Holding s₀ s requests) :
    let scan := scanDecode probe limit queue s requests
    Holding s₀ scan.scheduler scan.requests ∧
      (scan.requests ++ (scan.scheduler.unpop scan.exit).decodeQueue).map tag =
        (requests ++ queue).map tag ∧
      scan.scheduler.waitingQueue = s.waitingQueue := by
  induction queue generalizing s requests with
  | nil => simpa [scanDecode, unpop, hq] using hold
  | cons r queue ih =>
    unfold scanDecode
    split
    case isFalse => simpa [unpop, hq] using hold
    case isTrue =>
      split
      case h_1 worker error hprobe =>
        exact ⟨hold.of_allocator_eq rfl, by simp [unpop, hq], rfl⟩
      case h_2 worker hprobe =>
        exact ⟨hold.of_allocator_eq rfl, by simp [unpop, hq], rfl⟩
      case h_3 worker hprobe =>
        have hold₁ : Holding s₀ { s with worker, decodeQueue := queue } requests :=
          hold.of_allocator_eq rfl
        split
        case h_1 s' r' error hp =>
          obtain ⟨_, -, -, hres⟩ | ⟨-, -, rfl, rfl, -⟩ := prepareDecodeRequest_cases hp
          · cases hres
          · exact ⟨hold₁, by simp [unpop], rfl⟩
        case h_2 s' r' hp =>
          have htag := tag_of_prepareDecodeRequest hp
          have hold' : Holding s₀ s' (requests ++ [r'.setStage .decodeForward]) := by
            obtain ⟨slots, halloc, rfl, -⟩ | ⟨_, -, -, -, hres⟩ := prepareDecodeRequest_cases hp
            · exact hold₁.append halloc
            · cases hres
          obtain ⟨allocator, rfl⟩ := eq_with_allocator_of_prepareDecodeRequest hp
          obtain ⟨hhold, htags, hwaiting⟩ := ih _ _ rfl hold'
          refine ⟨hhold, htags.trans ?_, hwaiting⟩
          have htag' : tag (r'.setStage .decodeForward) = tag r := htag
          simp [htag']

theorem length_le_scanDecode (probe : W → ℕ → ScheduledRequest → W × ProbeAnswer) (limit : ℕ)
    (queue : List ScheduledRequest) (s : Scheduler W) (requests : List ScheduledRequest) :
    requests.length ≤ (scanDecode probe limit queue s requests).requests.length := by
  induction queue generalizing s requests with
  | nil => exact le_rfl
  | cons r queue ih =>
    unfold scanDecode
    split
    case isFalse => exact le_rfl
    case isTrue =>
      split
      case h_1 => exact le_rfl
      case h_2 => exact le_rfl
      case h_3 =>
        split
        case h_1 => exact le_rfl
        case h_2 => exact le_trans (by simp) (ih _ _)

/-- The decode formers restore the scheduler unless a probe fails after requests were taken. -/
theorem restored_of_scanDecode_failed {s : Scheduler W} (hs : s.Sound)
    {probe : W → ℕ → ScheduledRequest → W × ProbeAnswer} {limit : ℕ} {r : ScheduledRequest}
    {error : SchedulerError}
    (hexit : (scanDecode probe limit s.decodeQueue s []).exit = .failed r error) :
    s.Restored ((scanDecode probe limit s.decodeQueue s []).scheduler.restoreFailedDecodeAttempt
      (scanDecode probe limit s.decodeQueue s []).requests r) := by
  obtain ⟨hold, htags, hwaiting⟩ :=
    scanDecode_spec probe limit s.decodeQueue s s [] rfl (.refl hs)
  rw [hexit] at htags
  rw [restoreFailedDecodeAttempt_eq]
  exact ⟨by simp [hwaiting], by simpa [unpop, Function.comp_def] using htags, hold.pages_eq rfl⟩

theorem restored_of_scanDecode_nil {s : Scheduler W} (hs : s.Sound)
    {probe : W → ℕ → ScheduledRequest → W × ProbeAnswer} {limit : ℕ}
    (hunpop : (s.decodeScan probe limit).scheduler.unpop (s.decodeScan probe limit).exit =
      (s.decodeScan probe limit).scheduler)
    (hnil : (s.decodeScan probe limit).requests = []) :
    s.Restored (s.decodeScan probe limit).scheduler := by
  obtain ⟨hold, htags, hwaiting⟩ :=
    scanDecode_spec probe limit s.decodeQueue s s [] rfl (.refl hs)
  rw [hnil] at hold
  refine ⟨by rw [hwaiting], ?_, hold.pages_eq_of_nil⟩
  rw [hunpop] at htags
  simpa [hnil] using htags

/-- Requests dropped by a failed probe are missing from the decode queue. -/
theorem restored_iff_of_probeFailed {s : Scheduler W} (hs : s.Sound)
    {probe : W → ℕ → ScheduledRequest → W × ProbeAnswer} {limit : ℕ} {error : SchedulerError}
    (hexit : (scanDecode probe limit s.decodeQueue s []).exit = .probeFailed error) :
    s.Restored (scanDecode probe limit s.decodeQueue s []).scheduler ↔
      (scanDecode probe limit s.decodeQueue s []).requests = [] := by
  constructor
  · intro hrestored
    obtain ⟨-, htags, -⟩ := scanDecode_spec probe limit s.decodeQueue s s [] rfl (.refl hs)
    rw [hexit] at htags
    have hlength := congrArg List.length htags
    have hdecode := congrArg List.length hrestored.decode_eq
    simp only [unpop, List.length_map, List.length_append, List.nil_append] at hlength hdecode
    exact List.eq_nil_of_length_eq_zero (by omega)
  · exact restored_of_scanDecode_nil hs (by rw [hexit]; rfl)

section Interrupted

variable [WorkerExecutor W]

/-- The worker reports the first `k` requests of the queue ready, one slot can be reserved for each
of them, and it answers the question about the next request with an error or a failed transfer. -/
def FailsAfter : ℕ → List ScheduledRequest → Scheduler W → Prop
  | _, [], _ => False
  | 0, r :: _, s => ∃ worker error, workerProbe s.worker 0 r = (worker, .failed error)
  | k + 1, r :: queue, s =>
      ∃ worker s' slots, workerProbe s.worker 0 r = (worker, .ready) ∧
        { s with worker, decodeQueue := queue }.allocateForSequence r.sequenceCachePages 1 =
          .ok (s', slots) ∧
        FailsAfter k queue s'

theorem FailsAfter.lt_length {k : ℕ} {queue : List ScheduledRequest} {s : Scheduler W}
    (h : FailsAfter k queue s) : k < queue.length := by
  induction queue generalizing k s with
  | nil => exact absurd h (by simp [FailsAfter])
  | cons r queue ih =>
    cases k with
    | zero => simp
    | succ k =>
      obtain ⟨worker, s', slots, -, -, hrest⟩ := h
      simpa using ih hrest

/-- The scan stops with a failed probe after taking `k` requests exactly if the worker fails after
`k` requests. -/
theorem scanDecode_probeFailed_iff (limit : ℕ) (queue : List ScheduledRequest) (s : Scheduler W)
    (requests : List ScheduledRequest) (k : ℕ) :
    ((∃ error, (scanDecode workerProbe limit queue s requests).exit = .probeFailed error) ∧
      (scanDecode workerProbe limit queue s requests).requests.length = requests.length + k) ↔
    requests.length + k < limit ∧ FailsAfter k queue s := by
  induction queue generalizing s requests k with
  | nil => simp [scanDecode, FailsAfter]
  | cons r queue ih =>
    have hprobe₀ : workerProbe s.worker requests.length r = workerProbe s.worker 0 r := rfl
    unfold scanDecode
    split
    case isFalse hlimit =>
      simp only [reduceCtorEq, exists_false, false_and, false_iff, not_and]
      omega
    case isTrue hlimit =>
      split
      case h_1 worker error hprobe =>
        cases k with
        | zero => simp [FailsAfter, ← hprobe₀, hprobe, hlimit]
        | succ k => simp [FailsAfter, ← hprobe₀, hprobe]
      case h_2 worker hprobe =>
        cases k with
        | zero => simp [FailsAfter, ← hprobe₀, hprobe]
        | succ k => simp [FailsAfter, ← hprobe₀, hprobe]
      case h_3 worker hprobe =>
        cases halloc : { s with worker, decodeQueue := queue }.allocateForSequence
            r.sequenceCachePages 1 with
        | error error =>
          have hp : { s with worker, decodeQueue := queue }.prepareDecodeRequest r =
              ({ s with worker, decodeQueue := queue }, r, .error (.cacheAllocation error)) := by
            rw [prepareDecodeRequest, halloc]
          rw [hp]
          cases k with
          | zero => simp [FailsAfter, ← hprobe₀, hprobe]
          | succ k => simp [FailsAfter, ← hprobe₀, hprobe, halloc]
        | ok allocation =>
          obtain ⟨s', slots⟩ := allocation
          have hp : { s with worker, decodeQueue := queue }.prepareDecodeRequest r =
              (s', r.recordAllocation slots, .ok ()) := by
            rw [prepareDecodeRequest, halloc]
          rw [hp]
          dsimp only
          cases k with
          | zero =>
            have hle := length_le_scanDecode workerProbe limit queue s'
              (requests ++ [(r.recordAllocation slots).setStage .decodeForward])
            simp only [List.length_append, List.length_singleton] at hle
            simp only [FailsAfter, ← hprobe₀, hprobe, Prod.mk.injEq, reduceCtorEq, and_false,
              exists_false, iff_false, not_and]
            omega
          | succ k =>
            have hih := ih s' (requests ++ [(r.recordAllocation slots).setStage .decodeForward]) k
            simp only [List.length_append, List.length_singleton] at hih
            rw [← add_assoc, add_right_comm, hih]
            simp [FailsAfter, ← hprobe₀, hprobe, halloc, add_right_comm]

end Interrupted

/-! ### Soundness of the states of a run -/

theorem New.sound {s : Scheduler W} (h : s.New) : s.Sound := by
  refine ⟨fun a ha => ?_, by simp [h.waiting_eq]⟩
  obtain ⟨slotCapacity, pageSize, hnew⟩ := h.allocator a ha
  exact CachePageAllocator.valid_withPageSize hnew

end Scheduler

open Scheduler in
/-- Every move keeps what the formers rely on. -/
theorem Move.sound {G : Guard W} {c c' : Config W} (h : Move G c c') (hc : c.scheduler.Sound) :
    c'.scheduler.Sound where
  valid := h.used.valid hc.valid
  allocated_eq := h.waiting (fun _ => rfl)
    (fun s r hr => (s.allocatedCachePages_withPrefix r).trans hr) (fun _ => rfl) (fun _ => rfl)
    hc.allocated_eq

variable [WorkerExecutor W]

theorem sound_of_run {s : Scheduler W} (hs : s.New) (ops : List (Operation W)) :
    (ops.foldl Scheduler.step s).Sound := by
  have hadmits : Along Scheduler.step (Guard.submitting fun _ => True).Admits s ops :=
    along_of_forall (fun s op => Guard.admits_submitting s op (fun _ _ => trivial)) s ops
  exact (run_invariant (J := fun c => c.scheduler.Sound) (fun _ _ => Move.sound) hadmits
    (by simp [Scheduler.WaitingStaged, hs.waiting_eq]) hs.sound).2

/-! ### The formers -/

/-- Before the former is done, the worker fails on a request after others have been taken. -/
def Former.Interrupted (s : Scheduler W) : Former → Prop
  | .prefill _ _ => False
  | .decodeWhenReady _ _ => False
  | .decode maxBatchSize => ∃ k, 1 ≤ k ∧ k < maxBatchSize ∧ Scheduler.FailsAfter k s.decodeQueue s
  | .mixed maxBatchSize tokenBudget =>
      ∃ k, 1 ≤ k ∧ k < min maxBatchSize tokenBudget ∧ Scheduler.FailsAfter k s.decodeQueue s

section Formers

variable {s s' : Scheduler W} {error : SchedulerError}

open Scheduler

/-- A decode loop over at most `limit` requests drops some exactly if the worker fails within them
after some were taken. -/
theorem decodeLost_ne_nil_iff (limit : ℕ) :
    s.decodeLost workerProbe limit ≠ [] ↔
      ∃ k, 1 ≤ k ∧ k < limit ∧ FailsAfter k s.decodeQueue s := by
  have hiff := scanDecode_probeFailed_iff limit s.decodeQueue s []
  simp only [List.length_nil, zero_add] at hiff
  unfold decodeLost
  dsimp only
  constructor
  · intro hne
    split at hne
    case h_1 error hexit =>
      obtain ⟨hlimit, hfails⟩ := (hiff _).mp ⟨⟨error, hexit⟩, rfl⟩
      exact ⟨_, List.length_pos_of_ne_nil hne, hlimit, hfails⟩
    case h_2 => exact absurd rfl hne
  · rintro ⟨k, hk, hlimit, hfails⟩
    obtain ⟨⟨error, hexit⟩, hlength⟩ := (hiff k).mpr ⟨hlimit, hfails⟩
    rw [hexit]
    exact List.ne_nil_of_length_pos (hlength.symm ▸ hk)

omit [WorkerExecutor W] in
/-- A decode former that returns an error has restored the scheduler exactly if it dropped no
request. -/
theorem restored_iff_of_nextDecodeBatchWith_error (hs : s.Sound)
    {probe : W → ℕ → ScheduledRequest → W × ProbeAnswer} {m : ℕ}
    (h : s.nextDecodeBatchWith probe m = (s', .error error)) :
    s.Restored s' ↔ s.decodeLost probe (min m s.decodeQueue.length) = [] := by
  cases formsDecode h with
  | idle hidle =>
    refine iff_of_true ⟨rfl, rfl, rfl⟩ ?_
    have hlimit : min m s.decodeQueue.length = 0 := by
      rcases hidle with hidle | rfl
      · simp [List.isEmpty_iff.mp hidle]
      · simp
    rw [hlimit, decodeLost]
    cases s.decodeQueue <;> simp [scanDecode]
  | notReady hlimit hexit hnil =>
    rw [← hlimit]
    exact iff_of_true (restored_of_scanDecode_nil hs (by rw [hexit]; rfl) hnil)
      (decodeLost_eq_nil (by simp [hexit]))
  | probeFailed hlimit hexit =>
    rw [← hlimit, decodeLost_of_probeFailed hexit]
    exact restored_iff_of_probeFailed hs hexit
  | failed hlimit hexit =>
    rw [← hlimit]
    exact iff_of_true (restored_of_scanDecode_failed hs hexit)
      (decodeLost_eq_nil (by simp [hexit]))

omit [WorkerExecutor W] in
/-- Adding no prompt chunk to no request leaves the scheduler as it was. -/
theorem restored_of_addPrefillChunks_error {requests : List ScheduledRequest} {m b : ℕ}
    (h : s.addPrefillChunks requests m b = (s', .error error)) :
    requests = [] ∧ s.Restored s' := by
  obtain ⟨rfl, hnil⟩ := addPrefillChunks_eq_error h
  obtain ⟨hrequests, hsame | ⟨r, rest, r', _, _, hq, hp, hscan⟩⟩ :=
    scanPiggyback_nil _ _ _ _ _ _ _ rfl hnil
  · rw [hsame]
    exact ⟨hrequests, rfl, rfl, rfl⟩
  · have htag := tag_of_preparePrefillRequestChunk hp
    rw [hscan]
    exact ⟨hrequests, by simp [hq, htag], rfl, rfl⟩

/-- The mixed former that returns an error has restored the scheduler exactly if it dropped no
request. -/
theorem restored_iff_of_nextMixedBatch_error (hs : s.Sound) {m b : ℕ}
    (h : s.nextMixedBatch m b = (s', .error error)) :
    s.Restored s' ↔ s.decodeLost workerProbe (min m b) = [] := by
  cases formsMixed h with
  | idle hidle =>
    refine iff_of_true ⟨rfl, rfl, rfl⟩ ?_
    rw [decodeLost]
    rcases hidle with ⟨hidle, -⟩ | rfl
    · rw [List.isEmpty_iff.mp hidle]
      simp [scanDecode]
    · cases s.decodeQueue <;> simp [scanDecode]
  | probeFailed hexit =>
    rw [decodeLost_of_probeFailed hexit]
    exact restored_iff_of_probeFailed hs hexit
  | failed hexit =>
    exact iff_of_true (restored_of_scanDecode_failed hs hexit)
      (decodeLost_eq_nil (by simp [hexit]))
  | extended hunpop hlost hadd =>
    obtain ⟨hnil, hrest⟩ := restored_of_addPrefillChunks_error hadd
    exact iff_of_true ((restored_of_scanDecode_nil hs hunpop hnil).trans hrest)
      (decodeLost_eq_nil hlost)

end Formers

/-- **Forming a batch is atomic on an error unless it is interrupted.** In every state a run
reaches, a former that returns an error leaves both queues with the same requests in the same order
and the same pages free and allocated if and only if the worker did not fail on a request after
others had been taken. -/
theorem restored_iff_of_form_error {s : Scheduler W} (hs : s.New) (ops : List (Operation W))
    (former : Former) {s' : Scheduler W} {error : SchedulerError}
    (h : former.form (ops.foldl Scheduler.step s) = (s', .error error)) :
    (ops.foldl Scheduler.step s).Restored s' ↔
      ¬former.Interrupted (ops.foldl Scheduler.step s) := by
  have hsound := sound_of_run hs ops
  cases former with
  | prefill m u => exact iff_of_true (Scheduler.restored_of_nextPrefillBatch_error hsound h) id
  | decode m =>
    rw [restored_iff_of_nextDecodeBatchWith_error hsound h, ← not_ne_iff, decodeLost_ne_nil_iff]
    refine not_congr (exists_congr fun k => and_congr_right fun _ => ?_)
    constructor
    · exact fun hk => ⟨by omega, hk.2⟩
    · exact fun hk => ⟨lt_min hk.1 hk.2.lt_length, hk.2⟩
  | decodeWhenReady m isReady =>
    refine iff_of_true ((restored_iff_of_nextDecodeBatchWith_error hsound h).mpr ?_) id
    exact decodeLost_closureProbe _ isReady _
  | mixed m b =>
    rw [restored_iff_of_nextMixedBatch_error hsound h, ← not_ne_iff, decodeLost_ne_nil_iff]
    rfl

/-- Two requests wait for their next token; the worker is ready for the first and fails on the
second. The first is gone afterwards and its slot stays allocated. -/
theorem not_restored_of_failure_on_second_request :
    let s := [.submit "a" [1] 3, .submit "b" [2] 3, .dispatch (.prefill 2 8)].foldl Scheduler.step
      (Scheduler.scripted { states := [.ok .ready, .error (.runtime "lost")] } 1 8)
    ∃ s', (Former.decode 2).form s = (s', .error (.worker (.runtime "lost"))) ∧
      s.decodeQueue.map Scheduler.tag = [(⟨"a"⟩, [7]), (⟨"b"⟩, [7])] ∧
      s'.decodeQueue.map Scheduler.tag = [(⟨"b"⟩, [7])] ∧ s'.pages ≠ s.pages ∧ ¬s.Restored s' := by
  intro s
  have hqueue : s.decodeQueue.map Scheduler.tag = [(⟨"a"⟩, [7]), (⟨"b"⟩, [7])] := by decide
  have hqueue' : ((Former.decode 2).form s).1.decodeQueue.map Scheduler.tag = [(⟨"b"⟩, [7])] := by
    decide
  refine ⟨((Former.decode 2).form s).1, rfl, hqueue, hqueue', by decide, fun h => ?_⟩
  have heq := h.decode_eq
  rw [hqueue, hqueue'] at heq
  exact absurd heq (by decide)

/-- The theorem applied to a worker that is not ready for the only request. -/
theorem restored_of_request_not_ready :
    let s := [.submit "a" [1] 3, .dispatch (.prefill 2 8)].foldl Scheduler.step
      (Scheduler.scripted { states := [.ok .pending] } 1 8)
    ∃ s', (Former.decode 2).form s = (s', .error (.decodeNotReady ⟨"a"⟩)) ∧ s.Restored s' := by
  intro s
  have hnew : (Scheduler.scripted { states := [.ok .pending] } 1 8).New := by
    refine ⟨rfl, rfl, rfl, fun a ha => ⟨8, 1, ?_⟩⟩
    rw [← Option.some.inj ha]
    rfl
  have hform : (Former.decode 2).form s =
      (((Former.decode 2).form s).1, .error (.decodeNotReady ⟨"a"⟩)) := rfl
  refine ⟨_, hform, (restored_iff_of_form_error hnew _ _ hform).mpr ?_⟩
  rintro ⟨k, hk, -, hfails⟩
  have hlt : k < 1 := hfails.lt_length
  omega

end SglangRs
