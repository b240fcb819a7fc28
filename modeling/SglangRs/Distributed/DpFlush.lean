import SglangRs.Distributed.DpOwnership

/-!
# Flushing the data-parallel scheduler

`DpScheduler::flush_cache` forgets the prefix cache and resets the allocators of all ranks
(`dp_scheduler.rs`, lines 146–151). Unlike its counterpart for a single rank (`scheduler.rs`, lines
533–545) it does not ask whether requests are queued, and the router reports success in any case
(`router.rs`, lines 1273–1292). The pages of live requests are then free, and a later allocation
hands them out again.

This file shows that a flush is harmless exactly if no live request holds a slot, and that the
discipline of `SglangRs.Distributed.DpOwnership` survives in runs with such flushes.

## Main definitions

* `DpScheduler.LiveAllocated`: the slots of live requests lie on allocated pages.
* `DpScheduler.GivenFresh`: slots that were handed out last are used by nobody else.
* `DpScheduler.FlushesUnused`: a flush happens only while no live request holds a slot.

## Main results

* `DpScheduler.liveAllocated_flushCache_iff`: what a flush does to the pages of live requests.
* `DpScheduler.Kept.flushCache`: a flush while no live request holds a slot keeps the discipline.
* `DpScheduler.dp_flush_keeps_live_pages_iff`: which flushes free no live page.
-/

namespace SglangRs

open Paging Transition

namespace DpScheduler

variable {s : DpScheduler}

/-- Every slot of a live request lies on a page that the rank it comes from has allocated. -/
def LiveAllocated (s : DpScheduler) : Prop :=
  ∀ q ∈ s.live, ∀ (k x : ℕ), q.request.sequenceCachePages[k]? = some x →
    ∃ rank, q.origins[k]? = some rank ∧ s.Allocated rank x

/-- The slots last handed out to a running request are neither held by the prefix cache nor used by
another live request. -/
def GivenFresh (s : DpScheduler) : Prop :=
  ∀ l₁ q l₂, s.runningBatches.flatMap (·.batch.requests) = l₁ ++ q :: l₂ →
    ∀ x ∈ q.request.allocatedCachePages, ∀ rank, q.PinnedTo rank →
      x ∉ s.cachedSlots rank ∧
        ∀ q' ∈ s.waitingQueue ++ s.decodeQueue ++ (l₁ ++ l₂), x ∉ q'.slotsFrom rank

/-- No live request holds a slot. -/
def NoLiveSlots (s : DpScheduler) : Prop := ∀ q ∈ s.live, q.request.sequenceCachePages = []

/-- A flush happens only while no live request holds a slot. -/
def FlushesUnused (s : DpScheduler) (op : DpOperation) : Prop := op = .flushCache → s.NoLiveSlots

/-! ### One flush -/

theorem not_allocated_flushCache (rank x : ℕ) : ¬s.flushCache.Allocated rank x := by
  rintro ⟨allocator, hrank, hx⟩
  obtain ⟨a, -, rfl⟩ := List.mem_map.mp (List.mem_of_getElem? hrank)
  simp at hx

/-- **A flush frees the pages of all live requests.** It frees none of them exactly if there are
none. -/
theorem liveAllocated_flushCache_iff : s.flushCache.LiveAllocated ↔ s.NoLiveSlots := by
  constructor
  · intro h q hq
    cases hslots : q.request.sequenceCachePages with
    | nil => rfl
    | cons x slots =>
      obtain ⟨rank, -, hallocated⟩ := h q hq 0 x (by rw [hslots]; rfl)
      exact absurd hallocated (not_allocated_flushCache rank x)
  · intro h q hq k x hslot
    rw [h q hq] at hslot
    cases hslot

/-- Requests without slots own no pages. -/
theorem owned_of_noSlots {p : ℕ} (hp : 0 < p) (pages : ℕ → Finset ℕ) {cached : ℕ → Set ℕ}
    (hcached : ∀ rank, cached rank = ∅) {live : List DpRequest} (hlaid : ∀ q ∈ live, q.Laid p)
    (hslots : ∀ q ∈ live, q.request.sequenceCachePages = []) : Owned p pages cached live := by
  induction live with
  | nil =>
    refine ⟨by simp, fun rank => ?_⟩
    have hempty : sharedOn cached [] rank = ∅ := by simp [sharedOn, hcached]
    rw [hempty]
    exact Exclusive.nil_empty p _
  | cons q live ih =>
    have hnil := hslots q List.mem_cons_self
    have hrest := ih (fun q' hq' => hlaid q' (List.mem_cons_of_mem _ hq'))
      fun q' hq' => hslots q' (List.mem_cons_of_mem _ hq')
    refine hrest.join hp (hlaid q List.mem_cons_self) (by simp [DpRequest.ownSlots, hnil]) ?_
    rintro rank x ⟨k, -, hslot, -⟩
    rw [hnil] at hslot
    cases hslot

theorem Kept.flushCache (h : Kept s 0 []) (hunused : s.NoLiveSlots) : Kept s.flushCache 0 [] where
  located := ⟨fun _ => rfl, h.located.waiting, h.located.decode, h.located.running, by simp,
    h.located.releases⟩
  pages := by
    refine ⟨h.pages.pageSize_pos, fun allocator hallocator => ?_, ?_, fun w x hslot => ?_⟩
    · obtain ⟨a, ha, rfl⟩ := List.mem_map.mp hallocator
      exact ⟨(h.pages.valid a ha).1.reset, (h.pages.valid a ha).2⟩
    · refine owned_of_noSlots h.pages.pageSize_pos _ (fun rank => ?_) h.pages.owned.laid ?_
      · ext x
        simp [cachedSlots, DpScheduler.flushCache]
      · intro q hq
        rw [List.append_nil] at hq
        exact hunused q hq
    · exact absurd (hslot.symm.trans (RadixCache.slotAt_default w)) (by simp)
  staged := ⟨h.staged.waiting, h.staged.decode, h.staged.running, by simp⟩

/-! ### Runs -/

/-- The invariant in runs with flushes. -/
theorem kept_run (hnew : s.IsNew) {ops : List DpOperation}
    (hkeeps : Along DpScheduler.apply (StepAlong KeepsPages) s ops)
    (hunused : Along DpScheduler.apply FlushesUnused s ops) : Kept (s.run ops) 0 [] := by
  have hinv := foldl_invariant (I := fun s : DpScheduler =>
      Pooled s.workerPool s.runningBatches [] ∧ Kept s 0 [])
    (fun s op hop h => ⟨h.1.apply op, ?_⟩) (hkeeps.and hunused) ⟨pooled_new hnew, kept_new hnew⟩
  · exact hinv.2
  · by_cases hflush : op = .flushCache
    · subst hflush
      exact h.2.flushCache (hop.2 rfl)
    · exact h.2.apply h.1 op hflush hop.1

/-- **A flush frees live pages unless there are none.** In every reachable state, the slots of live
requests lie on allocated pages after a flush exactly if no live request holds a slot. In a run in
which finished requests start no page in use, they lie on allocated pages throughout exactly if
every flush happens in such a state, and then no slot that is handed out is in use. -/
theorem dp_flush_keeps_live_pages_iff (hnew : s.IsNew) (ops : List DpOperation) :
    ((s.run ops).flushCache.LiveAllocated ↔ (s.run ops).NoLiveSlots) ∧
    (Along DpScheduler.apply (StepAlong KeepsPages) s ops →
      ((∀ before, before <+: ops → (s.run before).LiveAllocated) ↔
        Along DpScheduler.apply FlushesUnused s ops) ∧
      (Along DpScheduler.apply FlushesUnused s ops →
        ∀ before, before <+: ops → (s.run before).GivenFresh)) := by
  refine ⟨liveAllocated_flushCache_iff, fun hkeeps => ⟨⟨fun h => ?_, fun hunused => ?_⟩,
    fun hunused => ?_⟩⟩
  · by_contra hnot
    obtain ⟨before, op, after, rfl, -, hop⟩ := exists_first hnot
    unfold FlushesUnused at hop
    push Not at hop
    obtain ⟨rfl, hslots⟩ := hop
    have hnext := h (before ++ [.flushCache]) (by simp)
    rw [run, List.foldl_append] at hnext
    exact hslots (liveAllocated_flushCache_iff.mp hnext)
  · rintro before ⟨after, rfl⟩ q hq k x hslot
    have hkept := kept_run hnew ((along_append s before after).mp hkeeps).1
      ((along_append s before after).mp hunused).1
    exact hkept.allocated_of_live hq hslot
  · rintro before ⟨after, rfl⟩ l₁ q l₂ heq x hx rank hrank
    have hkept := kept_run hnew ((along_append s before after).mp hkeeps).1
      ((along_append s before after).mp hunused).1
    exact hkept.notMem_of_running heq hx hrank

/-- The theorem applied to a flush while a request waits that has not been started. -/
theorem dp_flush_keeps_live_pages_of_new_request :
    ∃ s, IsNew s ∧
      let s := s.run [.enqueue ⟨"a"⟩ [1, 2] ⟨4⟩ none 0, .flushCache, .step]
      s.live.map (·.request.sequenceCachePages) = [[0, 1]] ∧ s.LiveAllocated ∧ s.GivenFresh := by
  have hnew : IsNew _ := ⟨1, _, [⟨4, 1, [0, 1, 2, 3], ∅⟩], 4, 1, none, rfl, fun allocator h => ⟨4, by
      rw [List.mem_singleton.mp h]
      rfl⟩, rfl⟩
  refine ⟨_, hnew, by decide, ?_⟩
  have hrun := (dp_flush_keeps_live_pages_iff hnew
    [.enqueue ⟨"a"⟩ [1, 2] ⟨4⟩ none 0, .flushCache, .step]).2
  refine (fun hkeeps hunused => ⟨(hrun hkeeps).1.mpr hunused _ List.prefix_rfl,
    (hrun hkeeps).2 hunused _ List.prefix_rfl⟩) ?_ ?_
  · refine ⟨trivial, trivial, ⟨trivial, fun _ => ?_⟩, trivial⟩
    refine And.intro ⟨fun allocator h => ?_, fun _ _ _ _ _ => trivial⟩ fun _ => trivial
    intro hlen hchunk matched a' slots halloc
    exact ⟨fun hne => absurd rfl hne, trivial⟩
  · refine ⟨nofun, fun _ q hq => ?_, nofun, trivial⟩
    rw [List.mem_singleton.mp hq]
    rfl

/-- A flush while a prompt is being processed: its pages are free, and when the next batch is formed
its second slot is given to another request. -/
theorem dp_flush_frees_live_pages :
    ∃ s, IsNew s ∧
      ¬(s.run [.enqueue ⟨"a"⟩ [1, 2] ⟨4⟩ none 0, .step]).flushCache.LiveAllocated ∧
      (s.run [.enqueue ⟨"a"⟩ [1, 2] ⟨4⟩ none 0, .step, .flushCache,
        .complete 0 (.ok ⟨[⟨[7], false⟩]⟩), .enqueue ⟨"b"⟩ [5] ⟨4⟩ none 0, .step]).live.map
          (fun q => (q.request.requestId, q.request.sequenceCachePages)) =
        [(⟨"a"⟩, [0, 1, 0]), (⟨"b"⟩, [1])] := by
  refine ⟨_, ⟨1, _, [⟨4, 1, [0, 1, 2, 3], ∅⟩], 4, 1, none, rfl, fun allocator h => ⟨4, ?_⟩, rfl⟩, ?_,
    by decide⟩
  · rw [List.mem_singleton.mp h]
    rfl
  · intro h
    exact absurd (liveAllocated_flushCache_iff.mp h _ List.mem_cons_self) (by decide)

end DpScheduler

end SglangRs
