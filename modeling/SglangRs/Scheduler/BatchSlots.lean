import SglangRs.Cache.AllocatorRuns
import SglangRs.Model.BatchForward
import SglangRs.Scheduler.Safety

/-!
# The slots of a batch

The slots that a request of a batch has newly been given are its own: they are not among those it
had before, nobody else refers to them, and the prefix cache does not hold them. All slots in use
lie within the capacity of the allocator, which never changes.

## Main results

* `Ownership.fresh`: new slots are the request's own.
* `Ownership.not_writes`, `Ownership.pairwise_apart`: a batch writes no slot in the prefix cache or
  of a queued request, and no request of it writes a slot of another.
* `Ownership.lt_slotCapacity`, `Move.slotCapacity_eq`: slots lie within the capacity.
* `Moves.ownership`: moves over plain requests keep ownership and capacity.
-/

namespace SglangRs

open Paging Scheduler

variable {W : Type} {p : ℕ} {c c' : Config W} {r : ScheduledRequest}
  {rest : List ScheduledRequest}

/-! ### The capacity -/

theorem Scheduler.slotCapacity_allocateForSequence {s s' : Scheduler W} {seq slots : List ℕ}
    {n : ℕ} (hs : HasPages p s.cachePageAllocator)
    (h : s.allocateForSequence seq n = .ok (s', slots)) :
    s'.cachePageAllocator.map (·.slotCapacity) = s.cachePageAllocator.map (·.slotCapacity) := by
  obtain ⟨-, rfl, -⟩ | ⟨a, a', ha, halloc, rfl⟩ := allocateForSequence_eq_ok h
  · rfl
  · obtain ⟨b, hb, hv, -⟩ := hs
    obtain rfl : a = b := Option.some.inj (ha.symm.trans hb)
    obtain ⟨fresh, hfresh⟩ := CachePageAllocator.allocates_of_allocateForSequence
      hv.pageSize_pos halloc
    rw [ha]
    exact congrArg some hfresh.slotCapacity_eq

/-- **Every move keeps the capacity.** -/
theorem Move.slotCapacity_eq {G : Guard W} (h : Move G c c')
    (hc : HasPages p c.scheduler.cachePageAllocator) :
    c'.scheduler.cachePageAllocator.map (·.slotCapacity) =
      c.scheduler.cachePageAllocator.map (·.slotCapacity) := by
  have hrelease (s : Scheduler W) (slots : List ℕ) :
      (s.release slots).cachePageAllocator.map (·.slotCapacity) =
        s.cachePageAllocator.map (·.slotCapacity) := by
    change (s.cachePageAllocator.map fun a => a.release slots).map (·.slotCapacity) = _
    rw [Option.map_map]
    rfl
  cases h with
  | @takePrefill s t d r queue k s' r' hq _ hp =>
    obtain ⟨-, rfl, -⟩ | ⟨-, slots, halloc, -⟩ | ⟨-, _, -, -, -, hres⟩ :=
      preparePrefillRequestChunk_cases hp
    · rfl
    · exact slotCapacity_allocateForSequence (s := { s with waitingQueue := queue }) hc halloc
    · cases hres
  | takeFailed _ hp | deferFailed _ hp =>
    obtain ⟨-, rfl, -⟩ := not_replays_of_preparePrefillRequestChunk hp
    rfl
  | @takeDecode s t d r queue s' r' _ hp =>
    obtain ⟨slots, halloc, -⟩ | ⟨_, -, -, -, hres⟩ := prepareDecodeRequest_cases hp
    · exact slotCapacity_allocateForSequence (s := { s with decodeQueue := queue }) hc halloc
    · cases hres
  | undoPrefill _ _ | undoDecode _ | fail _ | releasePending _ _ | failTransfer _ _ _ _ =>
    exact hrelease _ _
  | publishChunk _ _ _ => rw [publishPrefillChunkCachePages_eq]
  | publishPending _ _ =>
    rw [publishPrefillChunkCachePages_eq]
    rfl
  | finish _ _ _ | abortWaiting _ | abortDecode _ =>
    rw [releaseRequestCachePages_eq]
    exact hrelease _ _
  | abortDecodePending _ _ _ =>
    rw [releaseRequestCachePages_eq]
    exact (hrelease _ _).trans (hrelease _ _)
  | flush hw hd =>
    rw [flushCache, if_neg (by simp [hw, hd])]
    exact Option.map_map _ _ _
  | _ => rfl

/-- Moves over plain requests keep the ownership of slots and the capacity. -/
theorem Moves.ownership (h : Moves Guard.plain c c') (hplain : c.Plain) (hown : Ownership p c) :
    c'.Plain ∧ Ownership p c' ∧
      c'.scheduler.cachePageAllocator.map (·.slotCapacity) =
        c.scheduler.cachePageAllocator.map (·.slotCapacity) := by
  refine h.invariant (J := fun d => d.Plain ∧ Ownership p d ∧
    d.scheduler.cachePageAllocator.map (·.slotCapacity) =
      c.scheduler.cachePageAllocator.map (·.slotCapacity)) ?_ ⟨hplain, hown, rfl⟩
  rintro d d' hmove ⟨hplain, hown, hcapacity⟩
  obtain ⟨a, ha, hv, hp, -⟩ := hown.exclusive
  exact ⟨hmove.plain hplain, hmove.ownership (fun hne => absurd hplain.pending_eq hne) hown,
    (hmove.slotCapacity_eq ⟨a, ha, hv, hp⟩).trans hcapacity⟩

/-- A request of a batch and the other live requests. -/
theorem Config.live_perm (c : Config W) {i : ℕ} (hi : i < c.taken.length) :
    c.live.Perm (c.taken[i] :: (c.taken.eraseIdx i ++
      (c.scheduler.waitingQueue ++ c.scheduler.decodeQueue ++ c.executed))) := by
  rw [← List.cons_append]
  refine List.Perm.trans ?_ ((List.getElem_cons_eraseIdx_perm hi).symm.append_right _)
  rw [live, List.append_assoc]
  refine List.perm_append_comm.trans ?_
  rw [List.append_assoc]
  exact List.perm_append_comm.append_left _

namespace Ownership

/-- Every slot in use lies within the capacity. -/
theorem lt_slotCapacity (h : Ownership p c) {a : CachePageAllocator}
    (ha : c.scheduler.cachePageAllocator = some a) {x : ℕ}
    (hx : c.scheduler.prefixCache.Holds x ∨ ∃ r ∈ c.live, x ∈ r.sequenceCachePages) :
    x < a.slotCapacity := by
  have hpage := (h.page_allocated ha hx).1
  obtain ⟨b, hb, hv, rfl, -⟩ := h.exclusive
  obtain rfl : a = b := Option.some.inj (ha.symm.trans hb)
  exact hv.lt_slotCapacity ((hv.mem_or_mem _).mp (.inr hpage))

/-! ### New slots -/

theorem hasPages (h : Ownership p c) : HasPages p c.scheduler.cachePageAllocator := by
  obtain ⟨a, ha, hv, hp, -⟩ := h.exclusive
  exact ⟨a, ha, hv, hp⟩

theorem nodup_allocated (h : Ownership p c) (hlive : c.live.Perm (r :: rest)) (hr : r ∈ c.taken) :
    r.allocatedCachePages.Nodup := by
  obtain ⟨a, -, hv, hpa, hex⟩ := h.exclusive_cons hlive
  have hnodup := (hex.paged _ List.mem_cons_self).nodup (hpa ▸ hv.pageSize_pos)
    (hex.nodup_of_mem List.mem_cons_self)
  rw [(h.taken r hr).owner_slots] at hnodup
  exact (List.nodup_append.mp hnodup).2.1

/-- **New slots are the request's own**: they are not among the slots it had before, not in the
prefix cache, and not among the slots of another request. -/
theorem fresh (h : Ownership p c) (hlive : c.live.Perm (r :: rest)) (hr : r ∈ c.taken) {x : ℕ}
    (hx : x ∈ r.allocatedCachePages) : x ∉ r.keptSlots ∧ ¬c.scheduler.prefixCache.Holds x ∧
      ∀ r' ∈ rest, x ∉ r'.sequenceCachePages := by
  have ht := h.taken r hr
  obtain ⟨a, -, hv, hpa, hex⟩ := h.exclusive_cons hlive
  have hp := hpa ▸ hv.pageSize_pos
  obtain ⟨hshared, hother⟩ := hex.notMem_of_unpublished hp ht.owner_slots ht.published_le hx
  refine ⟨fun hkept => ?_, fun hcache => hshared (.inl hcache), fun r' hr' hx' => ?_⟩
  · rw [← List.take_append_drop r.cacheHitTokenCount r.keptSlots] at hkept
    rcases List.mem_append.mp hkept with hkept | hkept
    · rw [ht.take_keptSlots] at hkept
      exact hshared (.inr (.inl ⟨r, hlive.mem_iff.mpr List.mem_cons_self, hkept⟩))
    · have hnodup := (hex.paged _ List.mem_cons_self).nodup hp
        (hex.nodup_of_mem List.mem_cons_self)
      rw [ht.owner_slots] at hnodup
      exact (List.disjoint_of_nodup_append hnodup) hkept hx
  · rw [← List.take_append_drop r'.cacheHitTokenCount r'.sequenceCachePages] at hx'
    rcases List.mem_append.mp hx' with hx' | hx'
    · exact hshared (.inr (.inl ⟨r', hlive.mem_iff.mpr (List.mem_cons_of_mem _ hr'), hx'⟩))
    · exact hother _ (List.mem_map_of_mem hr') hx'

/-- The slots whose cells a request may change are new. -/
theorem mem_allocated_of_writes (h : Ownership p c) (hr : r ∈ c.taken)
    (hstage : r.stage ≠ .prefillWaiting) {x : ℕ} (hx : r.Writes x) : x ∈ r.allocatedCachePages := by
  obtain hforward | ⟨y, hy⟩ := (h.taken r hr).forward hstage
  · exact hforward ▸ hx.1
  · exact absurd hy (hx.2 y)

/-- A slot that a request of a batch writes is neither in the prefix cache nor a slot of a queued
request. -/
theorem not_writes (h : Ownership p c) (hr : r ∈ c.taken) (hstage : r.stage ≠ .prefillWaiting)
    {x : ℕ} (hx : c.scheduler.prefixCache.Holds x ∨
      ∃ r' ∈ c.scheduler.waitingQueue ++ c.scheduler.decodeQueue, x ∈ r'.sequenceCachePages) :
    ¬r.Writes x := by
  intro hwrites
  obtain ⟨i, hi, rfl⟩ := List.mem_iff_getElem.mp hr
  obtain ⟨-, hcache, hother⟩ := h.fresh (c.live_perm hi) hr
    (h.mem_allocated_of_writes hr hstage hwrites)
  obtain hx | ⟨r', hr', hx⟩ := hx
  · exact hcache hx
  · exact hother r' (List.mem_append_right _ (List.mem_append_left _ hr')) hx

/-- **No request of a batch writes a slot of another.** -/
theorem pairwise_apart (h : Ownership p c) (hstage : ∀ r ∈ c.taken, r.stage ≠ .prefillWaiting) :
    c.taken.Pairwise fun r r' => (∀ s ∈ r'.sequenceCachePages, ¬r.Writes s) ∧
      ∀ s ∈ r.sequenceCachePages, ¬r'.Writes s := by
  -- the others are those at another index
  have hapart {i j : ℕ} (hi : i < c.taken.length) (hj : j < c.taken.length) (hne : i ≠ j) (s : ℕ)
      (hs : s ∈ c.taken[j].sequenceCachePages) : ¬c.taken[i].Writes s := by
    intro hwrites
    have hmem := List.getElem_mem hi
    have hnew := h.mem_allocated_of_writes hmem (hstage _ hmem) hwrites
    refine (h.fresh (c.live_perm hi) hmem hnew).2.2 _ (List.mem_append_left _ ?_) hs
    exact List.mem_eraseIdx_iff_getElem.mpr ⟨j, hj, Ne.symm hne, rfl⟩
  refine List.pairwise_iff_getElem.mpr fun i j hi hj hlt => ⟨?_, ?_⟩
  · exact fun s hs => hapart hi hj hlt.ne s hs
  · exact fun s hs => hapart hj hi hlt.ne' s hs

end Ownership

end SglangRs
