import SglangRs.Cache.CachedPages
import SglangRs.Scheduler.Safety

/-!
# The page tables of scheduled sequences

The slots of a sequence are those of its cached prefix followed by those allocated for it
(`scheduler.rs`, lines 625–698). Kernels address them by blocks of a page, so every block has to lie
on one page. The allocated slots do, as long as nobody releases a page of a live request. The cached
ones do as long as every publication keeps the cached pages: the prompt is inserted token by token,
and where it parts inside a page from a cached prompt it gives new slots to tokens before the parting
while those behind it stay.

## Main definitions

* `Guard.keepsPages`: publications keep the cached pages, and pending inserts are released only when
  nothing refers to their pages.
* `PageTables`: the invariant, with the cached prefixes of the requests in `prefixPlaces`.

## Main results

* `Move.mem_pending`, `Move.prefixCache_cases`: what moves do to the pending inserts and the cache.
* `Move.pageTables`: every move that meets the guard keeps the invariant.
* `formed_sequences_on_pages`: the sequences of formed batches.
-/

namespace SglangRs

open Paging Scheduler Transition

variable {W : Type} {p : ℕ}

/-! ### Publications -/

/-- The processed part of the prompt of `e` may be published: `e` is a pending insert, or its chunk
is executed. -/
def Config.Publishes (c : Config W) (e : ScheduledRequest) : Prop :=
  e ∈ c.scheduler.pendingPrefixCacheInserts ∨
    ∃ r ∈ c.taken, r.stage = .prefillForward ∧ e = r.advanceChunk

/-- A pending insert after a move was one before, or the move has executed its chunk. -/
theorem Move.mem_pending {G : Guard W} {c c' : Config W} (h : Move G c c') {e : ScheduledRequest}
    (he : e ∈ c'.scheduler.pendingPrefixCacheInserts) : c.Publishes e := by
  cases h with
  | reorder s t d hw hd hp ht => exact .inl (hp.mem_iff.mpr he)
  | takePrefill _ _ hp | takeFailed _ hp | deferFailed _ hp =>
    obtain ⟨allocator, rfl⟩ := eq_with_allocator_of_preparePrefillRequestChunk hp
    exact .inl he
  | takeDecode _ hp =>
    obtain ⟨allocator, rfl⟩ := eq_with_allocator_of_prepareDecodeRequest hp
    exact .inl he
  | publishChunk _ _ _ =>
    rw [publishPrefillChunkCachePages_eq] at he
    exact .inl he
  | pendChunk hr _ _ =>
    rcases List.mem_append.mp he with he | he
    · exact .inl he
    · exact .inr ⟨_, List.mem_cons_self, hr, List.mem_singleton.mp he⟩
  | finish _ _ _ | abortWaiting _ | abortDecode _ =>
    rw [releaseRequestCachePages_eq] at he
    exact .inl he
  | abortDecodePending _ hp _ =>
    rw [releaseRequestCachePages_eq] at he
    exact .inl (hp ▸ List.mem_cons_of_mem _ he)
  | publishPending hp _ =>
    rw [publishPrefillChunkCachePages_eq] at he
    exact .inl (hp ▸ List.mem_cons_of_mem _ he)
  | releasePending hp _ | failTransfer _ hp _ _ | losePending hp _ =>
    exact .inl (hp ▸ List.mem_cons_of_mem _ he)
  | flush hw hd =>
    rw [flushCache, if_neg (by simp [hw, hd])] at he
    exact absurd he List.not_mem_nil
  | _ => exact .inl he

/-- A move leaves the prefix cache alone, clears it, or publishes a prompt. -/
theorem Move.prefixCache_cases {G : Guard W} {c c' : Config W} (h : Move G c c') :
    c'.scheduler.prefixCache = c.scheduler.prefixCache ∨ c'.scheduler.prefixCache = {} ∨
      ∃ e s, c.Publishes e ∧ G.publish s e ∧ s.prefixCache = c.scheduler.prefixCache ∧
        s.cachePageAllocator = c.scheduler.cachePageAllocator ∧
        c'.scheduler.prefixCache =
          c.scheduler.prefixCache.published e e.promptTokensProcessed := by
  cases h with
  | takePrefill _ _ hp | takeFailed _ hp | deferFailed _ hp =>
    obtain ⟨allocator, rfl⟩ := eq_with_allocator_of_preparePrefillRequestChunk hp
    exact .inl rfl
  | takeDecode _ hp =>
    obtain ⟨allocator, rfl⟩ := eq_with_allocator_of_prepareDecodeRequest hp
    exact .inl rfl
  | publishChunk hr _ hg =>
    rw [publishPrefillChunkCachePages_eq]
    exact .inr (.inr ⟨_, _, .inr ⟨_, List.mem_cons_self, hr, rfl⟩, hg, rfl, rfl, rfl⟩)
  | finish _ _ _ | abortWaiting _ | abortDecode _ | abortDecodePending _ _ _ =>
    rw [releaseRequestCachePages_eq]
    exact .inl rfl
  | publishPending hp hg =>
    rw [publishPrefillChunkCachePages_eq]
    exact .inr (.inr ⟨_, _, .inl (hp ▸ List.mem_cons_self), hg, rfl, rfl, rfl⟩)
  | flush hw hd =>
    rw [flushCache, if_neg (by simp [hw, hd])]
    exact .inr (.inl rfl)
  | _ => exact .inl rfl

/-- A publication keeps the pages in the prefix cache, and pending inserts are released only when no
slot in use lies on their pages. -/
def Guard.keepsPages : Guard W where
  publish s e :=
    s.prefixCache.KeepsPages s.pageSize (e.inputIds.take e.promptTokensProcessed)
      e.sequenceCachePages
  releasePending s e := s.Unreferenced e

/-! ### Cached prefixes -/

/-- The cached prefix of every request lies on pages, by the place of the request. -/
def prefixPlaces (p : ℕ) : Places where
  waiting r := r.allocatedCachePages = [] ∧
    BeginsOnPages p r.cacheHitTokenCount r.sequenceCachePages
  decode r := BeginsOnPages p r.cacheHitTokenCount r.sequenceCachePages
  taken r := BeginsOnPages p r.cacheHitTokenCount r.keptSlots
  executed r := BeginsOnPages p r.cacheHitTokenCount r.sequenceCachePages

/-- The prefix attached to a request has been matched in the prefix cache. -/
theorem beginsOnPages_withPrefix {s : Scheduler W} (hs : HasPages p s.cachePageAllocator)
    (hcache : s.prefixCache.WholePages p) {r : ScheduledRequest}
    (hr : BeginsOnPages p r.cacheHitTokenCount r.sequenceCachePages) :
    BeginsOnPages p (s.withPrefix r).cacheHitTokenCount (s.withPrefix r).sequenceCachePages := by
  by_cases h0 : r.promptTokensProcessed = 0
  · rw [sequenceCachePages_withPrefix h0, cacheHitTokenCount_withPrefix h0]
    refine ⟨(s.length_lookupPrefix r.inputIds).ge, OnPages.take ?_ _⟩
    unfold lookupPrefix
    split
    · rw [hs.pageSize_eq]
      obtain ⟨a, ha, hvalid, rfl⟩ := hs
      exact hcache.onPages hvalid.pageSize_pos r.inputIds
    · exact .nil p
  · rw [withPrefix_of_ne h0]
    exact hr

/-- A chunk given up leaves the slots of the request before it. -/
theorem beginsOnPages_clear {r : ScheduledRequest}
    (hr : BeginsOnPages p r.cacheHitTokenCount r.keptSlots) :
    BeginsOnPages p r.cacheHitTokenCount r.clearForwardCacheAllocation.sequenceCachePages := by
  rw [ScheduledRequest.sequenceCachePages_clearForwardCacheAllocation]
  exact hr

/-- What a move does to a request keeps its cached prefix on pages. -/
theorem prefixPlaces_carried (G : Guard W) (p : ℕ) :
    (prefixPlaces p).Carried G fun cache allocator _ =>
      cache.WholePages p ∧ HasPages p allocator where
  submit n _ := ⟨rfl, Nat.le_refl 0, .nil p⟩
  prepare {s s' r r' k} hp hs _ hr := by
    have hwhole := beginsOnPages_withPrefix hs.2 hs.1 hr.2
    have hnil := (s.allocatedCachePages_withPrefix r).trans hr.1
    obtain ⟨-, -, -, rfl⟩ | ⟨-, slots, -, -, rfl⟩ | ⟨-, _, -, -, -, hres⟩ :=
      preparePrefillRequestChunk_cases hp
    · show BeginsOnPages p (s.withPrefix r).cacheHitTokenCount (s.withPrefix r).keptSlots
      rwa [ScheduledRequest.keptSlots_of_nil hnil]
    · show BeginsOnPages p (s.withPrefix r).cacheHitTokenCount
        ((s.withPrefix r).recordAllocation slots).keptSlots
      rwa [ScheduledRequest.keptSlots_of_append rfl]
    · cases hres
  attach {s r} _ hs hr :=
    ⟨(s.allocatedCachePages_withPrefix r).trans hr.1, beginsOnPages_withPrefix hs.2 hs.1 hr.2⟩
  wait {r} hr := by
    show BeginsOnPages p r.cacheHitTokenCount r.keptSlots
    rw [ScheduledRequest.keptSlots_of_nil hr.1]
    exact hr.2
  undoPrefill {r} _ _ hr := ⟨rfl, beginsOnPages_clear (r := r) hr⟩
  prepareDecode {s s' r r'} hp _ hr := by
    obtain ⟨slots, -, rfl, -⟩ | ⟨_, -, -, -, hres⟩ := prepareDecodeRequest_cases hp
    · show BeginsOnPages p r.cacheHitTokenCount (r.recordAllocation slots).keptSlots
      rw [ScheduledRequest.keptSlots_of_append rfl]
      exact hr
    · cases hres
  undoDecode {r} _ hr := beginsOnPages_clear (r := r) hr
  park _ hr := BeginsOnPages.of_take hr
  executeDecode _ hr := BeginsOnPages.of_take hr
  chunk _ hr := BeginsOnPages.of_take hr
  stageError _ hr := BeginsOnPages.of_take hr
  requeueChunk _ _ hr := ⟨rfl, hr⟩
  requeueToken _ _ hr := hr
  finishError _ _ hr := hr

/-! ### The invariant -/

/-- **The invariant of the page tables.** The own slots of the requests are owned exclusively, and
their cached prefixes, the prefix cache and the pending inserts lie on pages. -/
structure PageTables (p : ℕ) (c : Config W) : Prop where
  ownership : Ownership p c
  prefixes : (prefixPlaces p).Hold c
  cache : c.scheduler.prefixCache.WholePages p
  pending : ∀ e ∈ c.scheduler.pendingPrefixCacheInserts, OnPages p e.sequenceCachePages

namespace PageTables

variable {c : Config W}

theorem hasPages (h : PageTables p c) : HasPages p c.scheduler.cachePageAllocator := by
  obtain ⟨a, ha, hvalid, hp, -⟩ := h.ownership.exclusive
  exact ⟨a, ha, hvalid, hp⟩

theorem pageSize_pos (h : PageTables p c) : 0 < p := by
  obtain ⟨a, -, hvalid, rfl⟩ := h.hasPages
  exact hvalid.pageSize_pos

/-- **The sequence of every request lies on pages.** The cached prefix ends where the slots of the
request itself start a page. -/
theorem onPages (h : PageTables p c) {r : ScheduledRequest} (hr : r ∈ c.live) :
    OnPages p r.sequenceCachePages := by
  have hbegins : BeginsOnPages p r.cacheHitTokenCount r.sequenceCachePages := by
    rcases Config.mem_live.mp hr with hr | hr | hr | hr
    · exact (h.prefixes.waiting r hr).2
    · exact h.prefixes.decode r hr
    · exact BeginsOnPages.of_take (h.prefixes.taken r hr)
    · exact h.prefixes.executed r hr
  obtain ⟨a, -, -, -, hexclusive⟩ := h.ownership.exclusive
  have hown : Paged p r.owner.slots := hexclusive.paged _ (List.mem_map_of_mem hr)
  exact onPages_of_take_drop h.pageSize_pos (h.ownership.placed r hr).hit_dvd hbegins.onPages
    hown.onPages

/-- The slots of a prompt that may be published lie on pages. -/
theorem publishes (h : PageTables p c) {e : ScheduledRequest} (he : c.Publishes e) :
    e.Placed p ∧ OnPages p e.sequenceCachePages := by
  rcases he with he | ⟨r, hr, hstage, rfl⟩
  · exact ⟨h.ownership.pending e he, h.pending e he⟩
  · have hlive : r ∈ c.live := Config.mem_live.mpr (.inr (.inr (.inl hr)))
    have hplaced := h.ownership.placed r hlive
    have hpages := h.onPages hlive
    exact ⟨ScheduledRequest.placed_advanceChunk hplaced
      ((h.ownership.taken r hr).advance_le hplaced hstage), hpages⟩

end PageTables

/-- **Every move that meets the guard keeps the page tables.** -/
theorem Move.pageTables {c c' : Config W} (h : Move Guard.keepsPages c c') (hc : PageTables p c) :
    PageTables p c' := by
  refine ⟨h.ownership (fun _ _ _ hg => hg) hc.ownership,
    h.places (prefixPlaces_carried _ p) ⟨hc.cache, hc.hasPages⟩ hc.prefixes, ?_,
    fun e he => (hc.publishes (h.mem_pending he)).2⟩
  rcases h.prefixCache_cases with hcache | hcache | ⟨e, s, he, hkeeps, hs, ha, hcache⟩
  · rw [hcache]
    exact hc.cache
  · rw [hcache]
    exact RadixCache.wholePages_default p
  · obtain ⟨hplaced, hpages⟩ := hc.publishes he
    have hsize : s.pageSize = p := HasPages.pageSize_eq (ha ▸ hc.hasPages)
    change s.prefixCache.KeepsPages s.pageSize _ _ at hkeeps
    rw [hs, hsize] at hkeeps
    rw [hcache]
    exact hc.cache.of_keepsPages
      (RadixCache.slotAt_published_eq hplaced.processed_le hplaced.processed_le_input)
      (hpages.take _) hkeeps

/-! ### Formed batches -/

section Runs

variable [WorkerExecutor W] (worker : W) {slotCapacity pageSize : ℕ} {a : CachePageAllocator}
  (policy : PrefixCachePolicy) {chunk : Option ℕ} (maxRunning : Option ℕ)

omit [WorkerExecutor W] in
/-- A new scheduler satisfies the invariant. -/
theorem pageTables_withCacheResourcesAndPolicy
    (ha : CachePageAllocator.withPageSize slotCapacity pageSize = .ok a) (hchunk : chunk ≠ some 0) :
    PageTables pageSize
      (Scheduler.withCacheResourcesAndPolicy worker a policy chunk maxRunning).idle := by
  refine ⟨ownership_withCacheResourcesAndPolicy worker ha policy hchunk maxRunning, ?_,
    RadixCache.wholePages_default pageSize, ?_⟩
  · constructor <;> simp [Scheduler.idle, withCacheResourcesAndPolicy]
  · simp [Scheduler.idle, withCacheResourcesAndPolicy]

/-- **The sequences of formed batches lie on pages.** In every run in which publications keep the
pages in the prefix cache and pending inserts are released only when no slot in use lies on their
pages, with a chunk size other than zero, every block of the sequence of every request of a formed
batch starts at the first slot of a page and goes on with the slots after it.

Source: `scheduler.rs`, lines 625–698 and 1181–1208; `cache.rs`, lines 397–447 and 485–540. -/
theorem formed_sequences_on_pages
    (ha : CachePageAllocator.withPageSize slotCapacity pageSize = .ok a) (hchunk : chunk ≠ some 0)
    {ops : List (Operation W)} (hops : Along Scheduler.step Guard.keepsPages.Admits
      (Scheduler.withCacheResourcesAndPolicy worker a policy chunk maxRunning) ops)
    {former : Former} {s' : Scheduler W} {batch : ScheduleBatch}
    (hform : former.form (ops.foldl Scheduler.step
      (Scheduler.withCacheResourcesAndPolicy worker a policy chunk maxRunning)) =
        (s', .ok batch)) :
    ∀ r ∈ batch.requests, ∀ k j, j < pageSize →
      k * pageSize + j < r.sequenceCachePages.length →
        pageSize ∣ r.sequenceCachePages.getD (k * pageSize) 0 ∧
          r.sequenceCachePages.getD (k * pageSize + j) 0 =
            r.sequenceCachePages.getD (k * pageSize) 0 + j := by
  have hmove (c c' : Config W) (h : Move Guard.keepsPages c c') (hc : PageTables pageSize c) :
      PageTables pageSize c' := h.pageTables hc
  obtain ⟨hstaged, hrun⟩ := run_invariant hmove hops
    (by simp [WaitingStaged, withCacheResourcesAndPolicy])
    (pageTables_withCacheResourcesAndPolicy worker policy maxRunning ha hchunk)
  have hadmits (s : Scheduler W) : Guard.keepsPages.AdmitsForm s former := by
    cases former with
    | decodeWhenReady => trivial
    | _ => exact fun _ _ => trivial
  have hmoves := moves_form _ former hstaged (hadmits _)
  rw [hform] at hmoves
  have hformed : PageTables pageSize ⟨s', batch.requests, []⟩ := hmoves.invariant hmove hrun
  intro r hr
  exact (onPages_iff hformed.pageSize_pos).mp
    (hformed.onPages (Config.mem_live.mpr (.inr (.inr (.inl hr)))))

end Runs

/-- The prompt `[1, 2]` is cached on page `0` and the prompt `[1]`, prefilled on page `1`, is
published over it. The cached page now has the slots `2` and `1`, and the next prompt that begins
with `[1, 2]` gets them. -/
theorem formed_sequence_off_pages_after_overwrite :
    let s := [.submit "a" [1, 2] 1, .dispatch (.prefill 1 8), .submit "b" [1] 1,
      .dispatch (.prefill 1 8), .submit "c" [1, 2, 3] 1].foldl Scheduler.step
      (Scheduler.scripted {} 2 8)
    ∃ s' batch, (Former.prefill 1 8).form s = (s', .ok batch) ∧
      ∃ r ∈ batch.requests, r.sequenceCachePages = [2, 1, 4] ∧
        ¬∀ k j, j < 2 → k * 2 + j < r.sequenceCachePages.length →
          2 ∣ r.sequenceCachePages.getD (k * 2) 0 ∧
            r.sequenceCachePages.getD (k * 2 + j) 0 = r.sequenceCachePages.getD (k * 2) 0 + j := by
  refine ⟨_, _, rfl, _, List.mem_cons_self, rfl, fun h => ?_⟩
  have hsecond := h 0 1 (by decide) (by decide)
  exact absurd hsecond.2 (by decide)

/-- The theorem applied to a prompt that goes on behind the one cached. -/
theorem formed_sequence_on_pages_behind_prefix :
    let s := [.submit "a" [1, 2] 1, .dispatch (.prefill 1 8), .submit "b" [1, 2, 3] 1].foldl
      Scheduler.step (Scheduler.scripted {} 2 8)
    ∃ s' batch, (Former.prefill 1 8).form s = (s', .ok batch) ∧
      ∃ r ∈ batch.requests, r.sequenceCachePages = [0, 1, 2] ∧
        ∀ k j, j < 2 → k * 2 + j < r.sequenceCachePages.length →
          2 ∣ r.sequenceCachePages.getD (k * 2) 0 ∧
            r.sequenceCachePages.getD (k * 2 + j) 0 = r.sequenceCachePages.getD (k * 2) 0 + j := by
  have ha : CachePageAllocator.withPageSize 16 2 = .ok ⟨16, 2, List.range 8, ∅⟩ := rfl
  have hops : Along Scheduler.step Guard.keepsPages.Admits (Scheduler.scripted {} 2 8)
      [.submit "a" [1, 2] 1, .dispatch (.prefill 1 8), .submit "b" [1, 2, 3] 1] := by
    refine ⟨trivial, ⟨fun _ _ => trivial, ?_⟩, trivial, trivial⟩
    exact ⟨⟨RadixCache.keepsPages_default 2 _ _, fun _ => ⟨trivial, fun _ => trivial⟩⟩, trivial⟩
  refine ⟨_, _, rfl, _, List.mem_cons_self, rfl, ?_⟩
  exact @formed_sequences_on_pages ScriptedWorker _ {} 16 2 _ .enabled none none ha (by decide) _
    hops (.prefill 1 8) _ _ rfl _ List.mem_cons_self

end SglangRs
