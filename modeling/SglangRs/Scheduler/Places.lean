import SglangRs.Scheduler.Moves
import SglangRs.Scheduler.Preparation

/-!
# The places of a request

A request is in one of four places: the waiting queue, the decode queue, the batch being formed or
executed, and the requests executed. A move takes one request from a place to another, changes it on
the way and leaves the others alone. So if every place has a property of its own, and if what the
moves do to a request leads from the property of one place to that of the next, then after every
sequence of moves every request has the property of its place. The invariants that speak about one
request at a time are instances; they differ in the properties and in what they need to know of the
prefix cache, the allocator and the chunk size when a request is prepared.

## Main definitions

* `Places`, `Places.Hold`: a property for each place.
* `Places.Carried`: what the moves do to a request leads from place to place.
* `Used`, `HasPages`: what becomes of an allocator, and an allocator in a consistent state.

## Main results

* `Move.places`: every move keeps the properties of the places.
* `Move.settings_eq`, `Move.used`: what a move does to the settings and to the allocator.
-/

namespace SglangRs

open Scheduler

variable {W : Type}

/-- A property of requests for each place. -/
structure Places where
  waiting : ScheduledRequest → Prop
  decode : ScheduledRequest → Prop
  taken : ScheduledRequest → Prop
  executed : ScheduledRequest → Prop

namespace Places

/-- Every request has the property of its place. -/
structure Hold (P : Places) (c : Config W) : Prop where
  waiting : ∀ r ∈ c.scheduler.waitingQueue, P.waiting r
  decode : ∀ r ∈ c.scheduler.decodeQueue, P.decode r
  taken : ∀ r ∈ c.taken, P.taken r
  executed : ∀ r ∈ c.executed, P.executed r

/-- What the moves that meet the guard `G` do to a request leads from the property of one place to
that of the next, as long as the prefix cache, the allocator and the chunk size satisfy `I`. -/
structure Carried (P : Places) (G : Guard W)
    (I : RadixCache → Option CachePageAllocator → Option ℕ → Prop) : Prop where
  submit : ∀ n, G.submit n → P.waiting n.toScheduled
  prepare : ∀ {s s' : Scheduler W} {r r' k}, s.preparePrefillRequestChunk r k = (s', r', .ok ()) →
    I s.prefixCache s.cachePageAllocator s.chunkedPrefillSize →
    (s.chunkedPrefillSize ≠ some 0 → k ≠ 0) → P.waiting r → P.taken r'
  attach : ∀ {s : Scheduler W} {r}, ¬s.Replays r →
    I s.prefixCache s.cachePageAllocator s.chunkedPrefillSize →
    P.waiting r → P.waiting (s.withPrefix r)
  wait : ∀ {r}, P.waiting r → P.taken r
  undoPrefill : ∀ {r}, r.stage ≠ .decodeForward → G.rollBack r → P.taken r →
    P.waiting (r.clearForwardCacheAllocation.setStage .prefillWaiting)
  prepareDecode : ∀ {s s' : Scheduler W} {r r'}, s.prepareDecodeRequest r = (s', r', .ok ()) →
    I s.prefixCache s.cachePageAllocator s.chunkedPrefillSize → P.decode r →
    P.taken (r'.setStage .decodeForward)
  undoDecode : ∀ {r}, r.stage = .decodeForward → P.taken r →
    P.decode (r.clearForwardCacheAllocation.setStage .decodeWaiting)
  park : ∀ {s r}, G.park s r → P.taken r → P.decode r
  executeDecode : ∀ {r}, r.stage = .decodeForward → P.taken r → P.executed r
  chunk : ∀ {r}, r.stage = .prefillForward → P.taken r → P.executed r.advanceChunk
  stageError : ∀ {s r}, G.stageError s r.advanceChunk → P.taken r → P.decode r.advanceChunk
  requeueChunk : ∀ {r}, r.stage = .prefillForward → r.isPrefillComplete = false → P.executed r →
    P.waiting r.awaitChunk
  requeueToken : ∀ {r tokenIds}, (r.stage = .prefillForward → r.isPrefillComplete = true) →
    G.token tokenIds → P.executed r → P.decode (r.awaitDecode tokenIds)
  finishError : ∀ {r tokenIds}, (r.stage = .prefillForward → r.isPrefillComplete = true) →
    G.token tokenIds → P.executed r → P.decode (r.finish tokenIds)

end Places

/-- **Every move keeps the properties of the places.** -/
theorem Move.places {P : Places} {G : Guard W}
    {I : RadixCache → Option CachePageAllocator → Option ℕ → Prop} {c c' : Config W}
    (h : Move G c c') (hP : P.Carried G I)
    (hI : I c.scheduler.prefixCache c.scheduler.cachePageAllocator c.scheduler.chunkedPrefillSize)
    (hc : P.Hold c) : P.Hold c' := by
  obtain ⟨hwaiting, hdecode, htaken, hexecuted⟩ := hc
  cases h with
  | worker => exact ⟨hwaiting, hdecode, htaken, hexecuted⟩
  | reorder s t d hw hd hp ht =>
    exact ⟨fun r hr => hwaiting r (hw.mem_iff.mpr hr), fun r hr => hdecode r (hd.mem_iff.mpr hr),
      fun r hr => htaken r (ht.mem_iff.mpr hr), hexecuted⟩
  | enqueue s t d n hg =>
    refine ⟨?_, hdecode, htaken, hexecuted⟩
    exact List.forall_mem_append.mpr ⟨hwaiting, List.forall_mem_singleton.mpr (hP.submit n hg)⟩
  | takePrefill hq hk hp =>
    obtain ⟨hr, hqueue⟩ := List.forall_mem_cons.mp (hq ▸ hwaiting)
    have hprepared := hP.prepare hp hI hk hr
    obtain ⟨allocator, rfl⟩ := eq_with_allocator_of_preparePrefillRequestChunk hp
    exact ⟨hqueue, hdecode, List.forall_mem_cons.mpr ⟨hprepared, htaken⟩, hexecuted⟩
  | takeFailed hq hp =>
    obtain ⟨hr, hqueue⟩ := List.forall_mem_cons.mp (hq ▸ hwaiting)
    obtain ⟨hnot, rfl, rfl⟩ := not_replays_of_preparePrefillRequestChunk hp
    exact ⟨hqueue, hdecode,
      List.forall_mem_cons.mpr ⟨hP.wait (hP.attach hnot hI hr), htaken⟩, hexecuted⟩
  | deferFailed hq hp =>
    obtain ⟨hr, hqueue⟩ := List.forall_mem_cons.mp (hq ▸ hwaiting)
    obtain ⟨hnot, rfl, rfl⟩ := not_replays_of_preparePrefillRequestChunk hp
    exact ⟨List.forall_mem_cons.mpr ⟨hP.attach hnot hI hr, hqueue⟩, hdecode, htaken, hexecuted⟩
  | undoPrefill hr hg =>
    obtain ⟨hhead, htaken⟩ := List.forall_mem_cons.mp htaken
    exact ⟨List.forall_mem_cons.mpr ⟨hP.undoPrefill hr hg hhead, hwaiting⟩, hdecode, htaken,
      hexecuted⟩
  | takeDecode hq hp =>
    obtain ⟨hr, hqueue⟩ := List.forall_mem_cons.mp (hq ▸ hdecode)
    have hprepared := hP.prepareDecode hp hI hr
    obtain ⟨allocator, rfl⟩ := eq_with_allocator_of_prepareDecodeRequest hp
    exact ⟨hwaiting, hqueue, List.forall_mem_cons.mpr ⟨hprepared, htaken⟩, hexecuted⟩
  | undoDecode hr =>
    obtain ⟨hhead, htaken⟩ := List.forall_mem_cons.mp htaken
    exact ⟨hwaiting, List.forall_mem_cons.mpr ⟨hP.undoDecode hr hhead, hdecode⟩, htaken,
      hexecuted⟩
  | lose _ _ => exact ⟨hwaiting, hdecode, (List.forall_mem_cons.mp htaken).2, hexecuted⟩
  | park hg =>
    obtain ⟨hhead, htaken⟩ := List.forall_mem_cons.mp htaken
    refine ⟨hwaiting, List.forall_mem_append.mpr ⟨hdecode, ?_⟩, htaken, hexecuted⟩
    exact List.forall_mem_singleton.mpr (hP.park hg hhead)
  | fail _ => exact ⟨hwaiting, hdecode, (List.forall_mem_cons.mp htaken).2, hexecuted⟩
  | executeDecode hr =>
    obtain ⟨hhead, htaken⟩ := List.forall_mem_cons.mp htaken
    exact ⟨hwaiting, hdecode, htaken,
      List.forall_mem_cons.mpr ⟨hP.executeDecode hr hhead, hexecuted⟩⟩
  | skipChunk hr _ _ | pendChunk hr _ _ =>
    obtain ⟨hhead, htaken⟩ := List.forall_mem_cons.mp htaken
    exact ⟨hwaiting, hdecode, htaken, List.forall_mem_cons.mpr ⟨hP.chunk hr hhead, hexecuted⟩⟩
  | publishChunk hr _ _ =>
    obtain ⟨hhead, htaken⟩ := List.forall_mem_cons.mp htaken
    rw [publishPrefillChunkCachePages_eq]
    exact ⟨hwaiting, hdecode, htaken, List.forall_mem_cons.mpr ⟨hP.chunk hr hhead, hexecuted⟩⟩
  | stageError _ _ hg =>
    obtain ⟨hhead, htaken⟩ := List.forall_mem_cons.mp htaken
    refine ⟨hwaiting, List.forall_mem_append.mpr ⟨hdecode, ?_⟩, htaken, hexecuted⟩
    exact List.forall_mem_singleton.mpr (hP.stageError hg hhead)
  | requeueChunk hr hcomplete =>
    obtain ⟨hhead, hexecuted⟩ := List.forall_mem_cons.mp hexecuted
    exact ⟨List.forall_mem_cons.mpr ⟨hP.requeueChunk hr hcomplete hhead, hwaiting⟩, hdecode, htaken,
      hexecuted⟩
  | requeueToken tokenIds hcomplete hg =>
    obtain ⟨hhead, hexecuted⟩ := List.forall_mem_cons.mp hexecuted
    refine ⟨hwaiting, List.forall_mem_append.mpr ⟨hdecode, ?_⟩, htaken, hexecuted⟩
    exact List.forall_mem_singleton.mpr (hP.requeueToken hcomplete hg hhead)
  | finishError tokenIds hcomplete hg _ =>
    obtain ⟨hhead, hexecuted⟩ := List.forall_mem_cons.mp hexecuted
    refine ⟨hwaiting, List.forall_mem_append.mpr ⟨hdecode, ?_⟩, htaken, hexecuted⟩
    exact List.forall_mem_singleton.mpr (hP.finishError hcomplete hg hhead)
  | finish tokenIds _ _ =>
    rw [releaseRequestCachePages_eq]
    exact ⟨hwaiting, hdecode, htaken, (List.forall_mem_cons.mp hexecuted).2⟩
  | abortWaiting hq =>
    rw [releaseRequestCachePages_eq]
    exact ⟨(List.forall_mem_cons.mp (hq ▸ hwaiting)).2, hdecode, htaken, hexecuted⟩
  | abortDecode hq | abortDecodePending hq _ _ =>
    rw [releaseRequestCachePages_eq]
    exact ⟨hwaiting, (List.forall_mem_cons.mp (hq ▸ hdecode)).2, htaken, hexecuted⟩
  | publishPending _ _ =>
    rw [publishPrefillChunkCachePages_eq]
    exact ⟨hwaiting, hdecode, htaken, hexecuted⟩
  | releasePending _ _ | losePending _ _ => exact ⟨hwaiting, hdecode, htaken, hexecuted⟩
  | failTransfer hq _ _ _ =>
    exact ⟨hwaiting, (List.forall_mem_cons.mp (hq ▸ hdecode)).2, htaken, hexecuted⟩
  | flush hw hd =>
    rw [flushCache, if_neg (by simp [hw, hd])]
    exact ⟨hwaiting, hdecode, htaken, hexecuted⟩

/-- A property of waiting requests that holds again whenever a request is put back. -/
theorem Move.waiting {Q : ScheduledRequest → Prop} {G : Guard W} {c c' : Config W} (h : Move G c c')
    (hsubmit : ∀ n : NewRequest, Q n.toScheduled)
    (hattach : ∀ (s : Scheduler W) (r), Q r → Q (s.withPrefix r))
    (hclear : ∀ r : ScheduledRequest, Q (r.clearForwardCacheAllocation.setStage .prefillWaiting))
    (hawait : ∀ r : ScheduledRequest, Q r.awaitChunk)
    (hc : ∀ r ∈ c.scheduler.waitingQueue, Q r) : ∀ r ∈ c'.scheduler.waitingQueue, Q r := by
  have hcarried : Places.Carried ⟨Q, fun _ => True, fun _ => True, fun _ => True⟩ G
      fun _ _ _ => True :=
    { submit := fun n _ => hsubmit n
      prepare := fun _ _ _ _ => trivial
      attach := fun {s r} _ _ hr => hattach s r hr
      wait := fun _ => trivial
      undoPrefill := fun {r} _ _ _ => hclear r
      prepareDecode := fun _ _ _ => trivial
      undoDecode := fun _ _ => trivial
      park := fun _ _ => trivial
      executeDecode := fun _ _ => trivial
      chunk := fun _ _ => trivial
      stageError := fun _ _ => trivial
      requeueChunk := fun {r} _ _ _ => hawait r
      requeueToken := fun _ _ _ => trivial
      finishError := fun _ _ _ => trivial }
  exact (h.places hcarried trivial
    ⟨hc, fun _ _ => trivial, fun _ _ => trivial, fun _ _ => trivial⟩).waiting

/-! ### The settings and the allocator -/

/-- Every move keeps the settings of the scheduler. -/
theorem Move.settings_eq {G : Guard W} {c c' : Config W} (h : Move G c c') :
    c'.scheduler.chunkedPrefillSize = c.scheduler.chunkedPrefillSize ∧
      c'.scheduler.maxRunningRequests = c.scheduler.maxRunningRequests := by
  cases h with
  | takePrefill _ _ hp | takeFailed _ hp | deferFailed _ hp =>
    obtain ⟨allocator, rfl⟩ := eq_with_allocator_of_preparePrefillRequestChunk hp
    exact ⟨rfl, rfl⟩
  | takeDecode _ hp =>
    obtain ⟨allocator, rfl⟩ := eq_with_allocator_of_prepareDecodeRequest hp
    exact ⟨rfl, rfl⟩
  | publishChunk _ _ _ | publishPending _ _ =>
    rw [publishPrefillChunkCachePages_eq]
    exact ⟨rfl, rfl⟩
  | finish _ _ _ | abortWaiting _ | abortDecode _ | abortDecodePending _ _ _ =>
    rw [releaseRequestCachePages_eq]
    exact ⟨rfl, rfl⟩
  | flush hw hd =>
    rw [flushCache, if_neg (by simp [hw, hd])]
    exact ⟨rfl, rfl⟩
  | _ => exact ⟨rfl, rfl⟩

/-- An allocator after some use: the page size is the same, and it is consistent if it was. -/
structure Used (allocator allocator' : Option CachePageAllocator) : Prop where
  pageSize_eq : allocator'.map (·.pageSize) = allocator.map (·.pageSize)
  valid : (∀ a, allocator = some a → a.Valid) → ∀ a, allocator' = some a → a.Valid

section Used

variable {s s' : Scheduler W} {allocator : Option CachePageAllocator}

theorem Used.refl (allocator : Option CachePageAllocator) : Used allocator allocator :=
  ⟨rfl, id⟩

/-- A consistent allocator gives a consistent one by a function that keeps the page size. -/
theorem Used.map (h : Used allocator s.cachePageAllocator)
    {f : CachePageAllocator → CachePageAllocator} (hsize : ∀ a, (f a).pageSize = a.pageSize)
    (hvalid : ∀ a, a.Valid → (f a).Valid) : Used allocator (s.cachePageAllocator.map f) := by
  refine ⟨?_, fun hv a ha => ?_⟩
  · rw [← h.pageSize_eq, Option.map_map]
    exact congrArg (Option.map · _) (funext hsize)
  · obtain ⟨a₀, ha₀, rfl⟩ := Option.map_eq_some_iff.mp ha
    exact hvalid a₀ (h.valid hv a₀ ha₀)

theorem Used.release (h : Used allocator s.cachePageAllocator) (slots : List ℕ) :
    Used allocator (s.release slots).cachePageAllocator :=
  h.map (fun _ => rfl) fun _ ha => ha.release slots

theorem Used.allocate {seq slots : List ℕ} {n : ℕ}
    (h : s.allocateForSequence seq n = .ok (s', slots)) :
    Used s.cachePageAllocator s'.cachePageAllocator := by
  obtain ⟨-, rfl, -⟩ | ⟨a, a', ha, halloc, rfl⟩ := allocateForSequence_eq_ok h
  · exact .refl _
  · rw [ha]
    refine ⟨congrArg some (CachePageAllocator.pageSize_allocateForSequence halloc),
      fun hv b hb => ?_⟩
    obtain rfl : a' = b := Option.some.inj hb
    have hvalid := hv a rfl
    obtain ⟨fresh, hfresh⟩ := CachePageAllocator.allocates_of_allocateForSequence
      hvalid.pageSize_pos halloc
    exact hfresh.valid hvalid

theorem Used.preparePrefill {r r' : ScheduledRequest} {k : ℕ}
    (h : s.preparePrefillRequestChunk r k = (s', r', .ok ())) :
    Used s.cachePageAllocator s'.cachePageAllocator := by
  obtain ⟨-, rfl, -⟩ | ⟨-, slots, halloc, -⟩ | ⟨-, _, -, -, -, hres⟩ :=
    preparePrefillRequestChunk_cases h
  · exact .refl _
  · exact .allocate halloc
  · cases hres

theorem Used.prepareDecode {r r' : ScheduledRequest}
    (h : s.prepareDecodeRequest r = (s', r', .ok ())) :
    Used s.cachePageAllocator s'.cachePageAllocator := by
  obtain ⟨slots, halloc, -⟩ | ⟨_, -, -, -, hres⟩ := prepareDecodeRequest_cases h
  · exact .allocate halloc
  · cases hres

end Used

/-- **Every move uses the allocator**, if it changes it at all. -/
theorem Move.used {G : Guard W} {c c' : Config W} (h : Move G c c') :
    Used c.scheduler.cachePageAllocator c'.scheduler.cachePageAllocator := by
  cases h with
  | takePrefill _ _ hp =>
    have hused := Used.preparePrefill hp
    exact hused
  | takeFailed _ hp | deferFailed _ hp =>
    obtain ⟨-, rfl, -⟩ := not_replays_of_preparePrefillRequestChunk hp
    exact .refl _
  | takeDecode _ hp =>
    have hused := Used.prepareDecode hp
    exact hused
  | undoPrefill _ _ | undoDecode _ | fail _ | releasePending _ _ | failTransfer _ _ _ _ =>
    exact (Used.refl _).release _
  | publishChunk _ _ _ | publishPending _ _ =>
    rw [publishPrefillChunkCachePages_eq]
    exact .refl _
  | finish _ _ _ | abortWaiting _ | abortDecode _ =>
    rw [releaseRequestCachePages_eq]
    exact (Used.refl _).release _
  | abortDecodePending _ _ _ =>
    rw [releaseRequestCachePages_eq]
    exact ((Used.refl _).release _).release _
  | flush hw hd =>
    rw [flushCache, if_neg (by simp [hw, hd])]
    exact (Used.refl _).map (fun _ => rfl) fun _ ha => ha.reset
  | _ => exact .refl _

/-- An allocator of pages of `p` slots, in a consistent state. -/
def HasPages (p : ℕ) (allocator : Option CachePageAllocator) : Prop :=
  ∃ a, allocator = some a ∧ a.Valid ∧ a.pageSize = p

namespace HasPages

variable {p : ℕ} {s s' : Scheduler W}

theorem pageSize_eq (h : HasPages p s.cachePageAllocator) : s.pageSize = p := by
  obtain ⟨a, ha, -, hp⟩ := h
  rw [pageSize, ha]
  exact hp

theorem ne_none {allocator : Option CachePageAllocator} (h : HasPages p allocator) :
    allocator ≠ none := by
  obtain ⟨a, rfl, -⟩ := h
  exact Option.some_ne_none a

/-- The allocation behind the slots given to a sequence. -/
theorem allocates (h : HasPages p s.cachePageAllocator) {seq slots : List ℕ} {n : ℕ}
    (halloc : s.allocateForSequence seq n = .ok (s', slots)) :
    ∃ a a' fresh, a.Valid ∧ a.pageSize = p ∧
      CachePageAllocator.Allocates a seq n a' slots fresh := by
  obtain ⟨a, ha, hv, hp⟩ := h
  obtain ⟨a', halloc', rfl⟩ := allocateForSequence_of_some ha halloc
  obtain ⟨fresh, hfresh⟩ := CachePageAllocator.allocates_of_allocateForSequence hv.pageSize_pos
    halloc'
  exact ⟨a, a', fresh, hv, hp, hfresh⟩

end HasPages

/-- Every move keeps the allocator consistent, and its page size. -/
theorem Move.hasPages {p : ℕ} {G : Guard W} {c c' : Config W} (h : Move G c c')
    (hc : HasPages p c.scheduler.cachePageAllocator) :
    HasPages p c'.scheduler.cachePageAllocator := by
  obtain ⟨a, ha, hv, hp⟩ := hc
  have hused := h.used
  have hsize := hused.pageSize_eq
  rw [ha, Option.map_some, hp] at hsize
  obtain ⟨a', ha', hp'⟩ := Option.map_eq_some_iff.mp hsize
  refine ⟨a', ha', hused.valid (fun b hb => ?_) a' ha', hp'⟩
  obtain rfl : a = b := Option.some.inj (ha.symm.trans hb)
  exact hv

end SglangRs
