import SglangRs.Scheduler.Identity
import SglangRs.Scheduler.OwnershipMoves

/-!
# No use after free, no aliasing

Plain requests, those without a KV transfer, are never published through a pending insert, so the
exception of the ownership invariant does not arise for them: over plain requests the invariant
holds in every reachable state, whatever the worker does. It follows that every slot the prefix
cache or a queued request refers to lies on an allocated page, and that the slots a batch is going
to write are written by one request only and read by no other.

## Main definitions

* `Operation.Plain`: no disaggregated request is submitted.
* `Config.Plain`: no disaggregated request is known.

## Main results

* `ownership_of_plain_run`, `ownership_of_plain_form`: the invariant holds after every run over
  plain requests, and when a batch formed then is executed.
* `plain_run_slots_allocated_and_unaliased`: no use after free and no aliasing.
-/

namespace SglangRs

open Paging Transition

variable {W : Type} {p : ℕ}

/-- No request with disaggregated parameters is submitted. -/
def Operation.Plain : Operation W → Prop
  | .enqueue request => request.disaggregatedParams = none
  | _ => True

/-- There are no disaggregated requests and no pending inserts. -/
structure Config.Plain (c : Config W) : Prop where
  all : c.All fun r => r.disaggregatedParams = none
  pending_eq : c.scheduler.pendingPrefixCacheInserts = []

/-- The guard that lets only plain requests in. -/
def Guard.plain : Guard W := Guard.submitting fun n => n.disaggregatedParams = none

theorem Move.plain {c c' : Config W} (h : Move Guard.plain c c') (hc : c.Plain) : c'.Plain := by
  refine ⟨h.all (fun x hx y hxy => hxy.disaggregatedParams_eq.trans hx) (fun n hn => hn) hc.all, ?_⟩
  have hnil := hc.pending_eq
  have hcons {s : Scheduler W} {e : ScheduledRequest} {pending : List ScheduledRequest}
      (hs : s.pendingPrefixCacheInserts = [])
      (hp : s.pendingPrefixCacheInserts = e :: pending) : False := by
    rw [hs] at hp
    cases hp
  cases h with
  | reorder s t d hw hd hp ht => exact List.nil_perm.mp (hnil ▸ hp)
  | takePrefill hq _ hp =>
    obtain ⟨allocator, rfl⟩ := Scheduler.eq_with_allocator_of_preparePrefillRequestChunk hp
    exact hnil
  | takeFailed hq hp =>
    obtain ⟨allocator, rfl⟩ := Scheduler.eq_with_allocator_of_preparePrefillRequestChunk hp
    exact hnil
  | deferFailed hq hp =>
    obtain ⟨allocator, rfl⟩ := Scheduler.eq_with_allocator_of_preparePrefillRequestChunk hp
    exact hnil
  | takeDecode hq hp =>
    obtain ⟨allocator, rfl⟩ := Scheduler.eq_with_allocator_of_prepareDecodeRequest hp
    exact hnil
  | publishChunk _ _ _ =>
    rw [Scheduler.publishPrefillChunkCachePages_eq]
    exact hnil
  | pendChunk _ _ hd => exact absurd (hc.all.taken _ List.mem_cons_self) hd
  | finish _ _ _ =>
    rw [Scheduler.releaseRequestCachePages_eq]
    exact hnil
  | abortWaiting _ =>
    rw [Scheduler.releaseRequestCachePages_eq]
    exact hnil
  | abortDecode _ =>
    rw [Scheduler.releaseRequestCachePages_eq]
    exact hnil
  | abortDecodePending _ hp _ => exact absurd hp (hcons hnil)
  | publishPending hp _ => exact absurd hp (hcons hnil)
  | releasePending hp _ => exact absurd hp (hcons hnil)
  | failTransfer _ hp _ _ => exact absurd hp (hcons hnil)
  | losePending hp _ => exact absurd hp (hcons hnil)
  | flush hw hd =>
    rw [Scheduler.flushCache, if_neg (by simp [hw, hd])]
    rfl
  | _ => exact hnil

/-! ### Runs -/

variable [WorkerExecutor W]

omit [WorkerExecutor W] in
/-- A new scheduler satisfies the invariant. -/
theorem ownership_withCacheResourcesAndPolicy (worker : W) {slotCapacity pageSize : ℕ}
    {a : CachePageAllocator} (ha : CachePageAllocator.withPageSize slotCapacity pageSize = .ok a)
    (policy : PrefixCachePolicy) {chunk : Option ℕ} (hchunk : chunk ≠ some 0)
    (maxRunning : Option ℕ) :
    Ownership pageSize
      (Scheduler.withCacheResourcesAndPolicy worker a policy chunk maxRunning).idle := by
  have hshared : (Scheduler.withCacheResourcesAndPolicy worker a policy chunk
      maxRunning).idle.shared = ∅ := by
    refine Set.subset_empty_iff.mp (Config.shared_subset ?_ ?_ ?_)
    · exact fun x hx => absurd hx (RadixCache.not_holds_default x)
    · exact fun r hr => absurd hr (by simp [Config.live, Scheduler.idle,
        Scheduler.withCacheResourcesAndPolicy])
    · exact fun r hr => absurd hr (by simp [Scheduler.idle, Scheduler.withCacheResourcesAndPolicy])
  refine ⟨⟨a, rfl, CachePageAllocator.valid_withPageSize ha,
    CachePageAllocator.pageSize_withPageSize ha, ?_⟩, hchunk, ?_, ?_, ?_, ?_, ?_, ?_,
    fun _ => hshared⟩
  · rw [hshared]
    exact Exclusive.nil_empty _ _
  all_goals
    simp [Config.live, Scheduler.idle, Scheduler.withCacheResourcesAndPolicy]

/-- **Ownership over plain requests.** The invariant holds after every run. -/
theorem ownership_of_plain_run {s : Scheduler W} {ops : List (Operation W)}
    (hops : ∀ op ∈ ops, op.Plain) (hs : s.WaitingStaged) (hplain : s.idle.Plain)
    (h : Ownership p s.idle) :
    (ops.foldl Scheduler.step s).WaitingStaged ∧ (ops.foldl Scheduler.step s).idle.Plain ∧
      Ownership p (ops.foldl Scheduler.step s).idle := by
  have hadmits : Along Scheduler.step (Guard.plain (W := W)).Admits s ops :=
    along_of_forall_mem (fun op hop s => Guard.admits_submitting s op
      fun n hn => by have := hops op hop; rwa [hn] at this) s
  exact run_invariant (J := fun c => c.Plain ∧ Ownership p c)
    (fun c c' hmove hc => ⟨hmove.plain hc.1,
      hmove.ownership (fun hne => absurd hc.1.pending_eq hne) hc.2⟩) hadmits hs ⟨hplain, h⟩

/-- **Ownership when a batch is executed.** The invariant holds with the requests of a formed batch
taken. -/
theorem ownership_of_plain_form {s s' : Scheduler W} (hs : s.WaitingStaged)
    (hplain : s.idle.Plain) (h : Ownership p s.idle) {former : Former} {batch : ScheduleBatch}
    (hform : former.form s = (s', .ok batch)) : Ownership p ⟨s', batch.requests, []⟩ := by
  have hadmits : Guard.plain.AdmitsForm s former :=
    (Guard.admits_submitting s (.dispatch former) (by simp)).1
  have hmoves := moves_form s former hs hadmits
  rw [hform] at hmoves
  exact (hmoves.invariant (J := fun c => c.Plain ∧ Ownership p c)
    (fun c c' hmove hc => ⟨hmove.plain hc.1,
      hmove.ownership (fun hne => absurd hc.1.pending_eq hne) hc.2⟩) ⟨hplain, h⟩).2

omit [WorkerExecutor W] in
/-- A new scheduler knows no disaggregated request. -/
theorem plain_withCacheResourcesAndPolicy (worker : W) (a : CachePageAllocator)
    (policy : PrefixCachePolicy) (chunk maxRunning : Option ℕ) :
    (Scheduler.withCacheResourcesAndPolicy worker a policy chunk maxRunning).idle.Plain :=
  ⟨⟨by simp [Scheduler.idle, Scheduler.withCacheResourcesAndPolicy],
    by simp [Scheduler.idle, Scheduler.withCacheResourcesAndPolicy], by simp [Scheduler.idle],
    by simp [Scheduler.idle]⟩, rfl⟩

omit [WorkerExecutor W] in
/-- Every slot the prefix cache or a live request refers to lies on an allocated page. -/
theorem Ownership.page_allocated {c : Config W} (h : Ownership p c) {a : CachePageAllocator}
    (ha : c.scheduler.cachePageAllocator = some a) {x : ℕ}
    (hx : c.scheduler.prefixCache.Holds x ∨ ∃ r ∈ c.live, x ∈ r.sequenceCachePages) :
    x / p ∈ a.allocatedPageIndices ∧ x / p ∉ a.freePageIndices := by
  obtain ⟨a', ha', hv, hpa, hex⟩ := h.exclusive
  obtain rfl : a = a' := Option.some.inj (ha.symm.trans ha')
  have hmem : x / p ∈ a.allocatedPageIndices := by
    rcases hx with hx | ⟨r, hr, hx⟩
    · exact hex.shared_allocated x (.inl hx)
    · rw [← List.take_append_drop r.cacheHitTokenCount r.sequenceCachePages] at hx
      rcases List.mem_append.mp hx with hx | hx
      · exact hex.shared_allocated x (.inr (.inl ⟨r, hr, hx⟩))
      · have ho : r.owner ∈ c.live.map ScheduledRequest.owner := List.mem_map_of_mem hr
        exact hex.owned_allocated _ ho _
          ((hex.paged _ ho).page_mem_firstPages (hpa ▸ hv.pageSize_pos) hx)
  exact ⟨hmem, fun hfree => hv.free_notMem _ hfree hmem⟩

omit [WorkerExecutor W] in
/-- The slots a request of a batch is going to write are no other live request's, unless it replays
a cached token. -/
theorem Ownership.forward_unaliased {c : Config W} (h : Ownership p c) {r : ScheduledRequest}
    {rest : List ScheduledRequest} (hlive : c.live.Perm (r :: rest)) (hr : r ∈ c.taken)
    (hstage : r.stage ≠ .prefillWaiting) {x : ℕ} (hx : x ∈ r.forwardCachePages) :
    r.ReplaysIn x ∨ ∀ r' ∈ rest, x ∉ r'.sequenceCachePages := by
  have ht := h.taken r hr
  obtain ⟨a, -, hv, hpa, hex⟩ := h.exclusive_cons hlive
  rcases ht.forward hstage with hfwd | ⟨y, hy⟩
  · right
    rw [hfwd] at hx
    obtain ⟨hshared, hother⟩ := hex.notMem_of_unpublished (hpa ▸ hv.pageSize_pos) ht.owner_slots
      ht.published_le hx
    intro r' hr' hx'
    rw [← List.take_append_drop r'.cacheHitTokenCount r'.sequenceCachePages] at hx'
    rcases List.mem_append.mp hx' with hx' | hx'
    · exact hshared (.inr (.inl ⟨r', hlive.mem_iff.mpr (List.mem_cons_of_mem _ hr'), hx'⟩))
    · exact hother _ (List.mem_map_of_mem hr') hx'
  · left
    have : x = y := by simpa [hy.forward_eq] using hx
    exact this ▸ hy

omit [WorkerExecutor W] in
theorem Ownership.forward_subset {c : Config W} (h : Ownership p c) {r : ScheduledRequest}
    (hr : r ∈ c.taken) (hstage : r.stage ≠ .prefillWaiting) {x : ℕ}
    (hx : x ∈ r.forwardCachePages) : x ∈ r.sequenceCachePages := by
  have ht := h.taken r hr
  rcases ht.forward hstage with hfwd | ⟨y, hy⟩
  · rw [ht.seq_eq]
    exact List.mem_append_right _ (hfwd ▸ hx)
  · have : x = y := by simpa [hy.forward_eq] using hx
    exact List.mem_of_getLast? (this ▸ hy.last_eq)

/-- **No use after free and no aliasing of slots.** After any run over plain requests, whatever the
worker answers, every slot reachable in the prefix cache and every slot of a queued request lies on
an allocated page, which is not in the free list; and in every batch formed then, a slot one request
is going to write is neither one that another request of the batch is going to write nor a slot of
another live request, except for the slot in which the last token of a fully cached prompt is
replayed. -/
theorem plain_run_slots_allocated_and_unaliased (worker : W) {slotCapacity pageSize : ℕ}
    {a : CachePageAllocator} (ha : CachePageAllocator.withPageSize slotCapacity pageSize = .ok a)
    (policy : PrefixCachePolicy) {chunk : Option ℕ} (hchunk : chunk ≠ some 0)
    (maxRunning : Option ℕ) {ops : List (Operation W)} (hops : ∀ op ∈ ops, op.Plain) :
    let s := ops.foldl Scheduler.step
      (Scheduler.withCacheResourcesAndPolicy worker a policy chunk maxRunning)
    (∃ a', s.cachePageAllocator = some a' ∧
      (∀ x, s.prefixCache.Holds x →
        x / pageSize ∈ a'.allocatedPageIndices ∧ x / pageSize ∉ a'.freePageIndices) ∧
      ∀ r ∈ s.waitingQueue ++ s.decodeQueue, ∀ x ∈ r.sequenceCachePages,
        x / pageSize ∈ a'.allocatedPageIndices ∧ x / pageSize ∉ a'.freePageIndices) ∧
    ∀ (former : Former) (s' : Scheduler W) (batch : ScheduleBatch),
      former.form s = (s', .ok batch) →
      ∀ (r : ScheduledRequest) (before after : List ScheduledRequest),
        batch.requests = before ++ r :: after → ∀ x ∈ r.forwardCachePages,
          ((∃ r' ∈ before ++ after, x ∈ r'.forwardCachePages) ∨
            ∃ r' ∈ before ++ after ++ (s'.waitingQueue ++ s'.decodeQueue),
              x ∈ r'.sequenceCachePages) → r.ReplaysIn x := by
  intro s
  obtain ⟨hstaged, hplain, hown⟩ := ownership_of_plain_run hops
    (s := Scheduler.withCacheResourcesAndPolicy worker a policy chunk maxRunning) (p := pageSize)
    (by simp [Scheduler.WaitingStaged, Scheduler.withCacheResourcesAndPolicy])
    (plain_withCacheResourcesAndPolicy worker a policy chunk maxRunning)
    (ownership_withCacheResourcesAndPolicy worker ha policy hchunk maxRunning)
  refine ⟨?_, fun former s' batch hform r before after hsplit x hx hother => ?_⟩
  · obtain ⟨a', ha', -⟩ := hown.exclusive
    refine ⟨a', ha', fun x hx => hown.page_allocated ha' (.inl hx), fun r hr x hx => ?_⟩
    exact hown.page_allocated ha' (.inr ⟨r, by simpa [Config.live, Scheduler.idle] using hr, hx⟩)
  · have hown' := ownership_of_plain_form hstaged hplain hown hform
    have hstages := staged_form s former hstaged hform
    have hwaiting {y : ScheduledRequest} (hy : y ∈ batch.requests) : y.stage ≠ .prefillWaiting := by
      rcases hstages y hy with h | h <;> simp [h]
    have hmem : r ∈ batch.requests := by simp [hsplit]
    have hlive : (⟨s', batch.requests, []⟩ : Config W).live.Perm
        (r :: (before ++ after ++ (s'.waitingQueue ++ s'.decodeQueue))) := by
      simp only [Config.live, List.append_nil, hsplit]
      refine List.perm_append_comm.trans ?_
      rw [List.append_assoc, List.cons_append, List.append_assoc]
      exact List.perm_middle
    rcases hown'.forward_unaliased hlive hmem (hwaiting hmem) hx with hrep | hfree
    · exact hrep
    · exfalso
      rcases hother with ⟨r', hr', hx'⟩ | ⟨r', hr', hx'⟩
      · have hmem' : r' ∈ batch.requests := by
          rw [hsplit]
          rcases List.mem_append.mp hr' with h | h
          · exact List.mem_append_left _ h
          · exact List.mem_append_right _ (List.mem_cons_of_mem _ h)
        exact hfree r' (List.mem_append_left _ hr')
          (hown'.forward_subset hmem' (hwaiting hmem') hx')
      · exact hfree r' hr' hx'

/-- The theorem applied to two requests that share a prefix, the first forwarded in chunks. -/
theorem plain_run_slots_of_shared_prefix :
    ∃ a', (Scheduler.cachePageAllocator <|
        [.submit "a" [1, 2, 3] 2, .dispatch (.prefill 1 8), .submit "b" [1, 2, 4] 2,
          .dispatch (.mixed 4 8)].foldl Scheduler.step
          (Scheduler.scripted {} 2 4 .enabled (some 2))) = some a' ∧
      ∀ x, (Scheduler.prefixCache <|
        [.submit "a" [1, 2, 3] 2, .dispatch (.prefill 1 8), .submit "b" [1, 2, 4] 2,
          .dispatch (.mixed 4 8)].foldl Scheduler.step
          (Scheduler.scripted {} 2 4 .enabled (some 2))).Holds x →
        x / 2 ∈ a'.allocatedPageIndices ∧ x / 2 ∉ a'.freePageIndices := by
  have hops : ∀ op ∈ ([.submit "a" [1, 2, 3] 2, .dispatch (.prefill 1 8), .submit "b" [1, 2, 4] 2,
      .dispatch (.mixed 4 8)] : List (Operation ScriptedWorker)), op.Plain := by
    simp [Operation.Plain, Operation.submit]
  have ha : CachePageAllocator.withPageSize 8 2 = .ok ⟨8, 2, List.range 4, ∅⟩ := rfl
  have hchunk : some 2 ≠ some 0 := by decide
  obtain ⟨⟨a', ha', hcache, -⟩, -⟩ := plain_run_slots_allocated_and_unaliased
    ({} : ScriptedWorker) ha .enabled
    hchunk none hops
  exact ⟨a', ha', hcache⟩

end SglangRs
