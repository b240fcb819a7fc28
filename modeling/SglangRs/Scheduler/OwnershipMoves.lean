import SglangRs.Scheduler.Ownership

/-!
# Every move keeps the ownership invariant

For each move of `SglangRs.Scheduler.Moves` this file shows that the invariant `Ownership` holds
after it. Most moves replace one live request by another (`Ownership.replace`) or remove one
(`Ownership.remove`), so that only that request and the pages it owns have to be looked at; the
exceptions are the moves that publish slots and those that release pending inserts.

## Main results

* `Ownership.replace`, `Ownership.remove`: one live request changes or leaves.
* `Ownership.exclusive_retire`: what a request releases when it leaves is used by nobody else.
* `Move.ownership`: every move keeps the invariant.
-/

namespace SglangRs

open Paging

variable {W : Type} {p : ℕ}

/-! ### Moves between the lists -/

namespace Ownership

open ScheduledRequest

variable {s : Scheduler W} {t d : List ScheduledRequest} {r r' : ScheduledRequest}

theorem reorder (h : Ownership p ⟨s, t, d⟩)
    {waitingQueue decodeQueue pendingPrefixCacheInserts t' : List ScheduledRequest}
    (hw : s.waitingQueue.Perm waitingQueue) (hd : s.decodeQueue.Perm decodeQueue)
    (hp : s.pendingPrefixCacheInserts.Perm pendingPrefixCacheInserts) (ht : t.Perm t') :
    Ownership p
      ⟨{ s with waitingQueue, decodeQueue, pendingPrefixCacheInserts }, t', d⟩ := by
  have hlive : (⟨s, t, d⟩ : Config W).live.Perm
      (⟨{ s with waitingQueue, decodeQueue, pendingPrefixCacheInserts }, t', d⟩ : Config W).live :=
    ((hw.append hd).append ht).append_right d
  obtain ⟨a, ha, hv, hpa, hex⟩ := h.exclusive
  have hshared : (⟨{ s with waitingQueue, decodeQueue, pendingPrefixCacheInserts }, t', d⟩ :
      Config W).shared ⊆ (⟨s, t, d⟩ : Config W).shared :=
    Config.shared_mono rfl (fun r hr => hlive.mem_iff.mpr hr) (fun e he => hp.mem_iff.mpr he)
  refine ⟨⟨a, ha, hv, hpa, (hex.perm (hlive.map _)).mono hshared⟩, h.chunk_ne_zero, ?_, ?_, ?_,
    h.executed, h.cache_offset, ?_, ?_⟩
  · exact fun r hr => h.placed r (hlive.mem_iff.mpr hr)
  · exact fun r hr => h.waiting r (hw.mem_iff.mpr hr)
  · exact fun r hr => h.taken r (ht.mem_iff.mpr hr)
  · exact fun e he => h.pending e (hp.mem_iff.mpr he)
  · exact fun hdis => Set.subset_empty_iff.mp (h.shared_eq hdis ▸ hshared)

theorem enqueue (h : Ownership p ⟨s, t, d⟩) (n : NewRequest) :
    Ownership p ⟨s.enqueue n.toScheduled, t, d⟩ := by
  have hlive : (⟨s.enqueue n.toScheduled, t, d⟩ : Config W).live.Perm
      (n.toScheduled :: (⟨s, t, d⟩ : Config W).live) := by
    have hmiddle : (s.waitingQueue ++ n.toScheduled :: (s.decodeQueue ++ t ++ d)).Perm
        (n.toScheduled :: (s.waitingQueue ++ (s.decodeQueue ++ t ++ d))) := List.perm_middle
    simpa only [Config.live, Scheduler.enqueue, List.append_assoc, List.cons_append,
      List.nil_append] using hmiddle
  obtain ⟨a, ha, hv, hpa, hex⟩ := h.exclusive
  have hplaced : n.toScheduled.Placed p :=
    ⟨Nat.dvd_zero p, Nat.le_refl 0, Nat.zero_le _, Nat.le_refl 0, Nat.zero_le _,
      by simp [NewRequest.toScheduled, ScheduledRequest.new]⟩
  have hshared : (⟨s.enqueue n.toScheduled, t, d⟩ : Config W).shared ⊆
      (⟨s, t, d⟩ : Config W).shared := by
    refine Config.shared_subset (fun x hx => .inl hx) (fun r hr x hx => ?_)
      (fun e he x hx => .inr (.inr ⟨e, he, hx⟩))
    rcases List.mem_cons.mp (hlive.mem_iff.mp hr) with rfl | hr
    · exact absurd hx (by simp [NewRequest.toScheduled, ScheduledRequest.new])
    · exact .inr (.inl ⟨r, hr, hx⟩)
  refine ⟨⟨a, ha, hv, hpa, ?_⟩, h.chunk_ne_zero, ?_, ?_, h.taken, h.executed, h.cache_offset,
    h.pending, ?_⟩
  · refine Exclusive.mono ?_ hshared
    refine Exclusive.perm ?_ (hlive.map _).symm
    exact hex.cons_of_nil (hpa ▸ hv.pageSize_pos) rfl
  · intro r hr
    rcases List.mem_cons.mp (hlive.mem_iff.mp hr) with rfl | hr
    · exact hplaced
    · exact h.placed r hr
  · intro r hr
    rcases List.mem_append.mp hr with hr | hr
    · exact h.waiting r hr
    · rw [List.mem_singleton.mp hr]
      exact ⟨rfl, rfl, fun _ => Nat.le_refl 0⟩
  · exact fun hdis => Set.subset_empty_iff.mp (h.shared_eq hdis ▸ hshared)

/-- One live request is replaced by another; the prefix cache and the pending inserts stay. -/
theorem replace {c c' : Config W} (h : Ownership p c) (r' : ScheduledRequest)
    {rest : List ScheduledRequest}
    (hlive : c.live.Perm (r :: rest)) (hlive' : c'.live.Perm (r' :: rest))
    (hcache : c'.scheduler.prefixCache = c.scheduler.prefixCache)
    (hpending : c'.scheduler.pendingPrefixCacheInserts = c.scheduler.pendingPrefixCacheInserts)
    (hpolicy : c'.scheduler.prefixCachePolicy = c.scheduler.prefixCachePolicy)
    (hchunk : c'.scheduler.chunkedPrefillSize = c.scheduler.chunkedPrefillSize)
    (hshared : ∀ x ∈ r'.sequenceCachePages.take r'.cacheHitTokenCount, x ∈ c.shared)
    (hplaced : r'.Placed p)
    (hex : ∃ a, c'.scheduler.cachePageAllocator = some a ∧ a.Valid ∧ a.pageSize = p ∧
      Exclusive p a.allocatedPageIndices (r'.owner :: rest.map owner) c.shared)
    (hwaiting : ∀ x ∈ c'.scheduler.waitingQueue, x.Waiting) (htaken : ∀ x ∈ c'.taken, x.Taken)
    (hexecuted : ∀ x ∈ c'.executed, x.Progressed) : Ownership p c' := by
  obtain ⟨a, ha, hv, hpa, hex⟩ := hex
  have hmem {x : ScheduledRequest} (hx : x ∈ c'.live) : x = r' ∨ x ∈ c.live := by
    rcases List.mem_cons.mp (hlive'.mem_iff.mp hx) with hx | hx
    · exact .inl hx
    · exact .inr (hlive.mem_iff.mpr (List.mem_cons_of_mem _ hx))
  have hshared : c'.shared ⊆ c.shared := by
    refine Config.shared_subset (fun x hx => .inl (hcache ▸ hx)) (fun y hy x hx => ?_)
      (fun e he x hx => .inr (.inr ⟨e, hpending ▸ he, hx⟩))
    rcases hmem hy with rfl | hy
    · exact hshared x hx
    · exact .inr (.inl ⟨y, hy, hx⟩)
  refine ⟨⟨a, ha, hv, hpa, ?_⟩, hchunk ▸ h.chunk_ne_zero, ?_, hwaiting, htaken, hexecuted,
    hcache ▸ h.cache_offset, hpending ▸ h.pending, ?_⟩
  · refine Exclusive.mono ?_ hshared
    refine Exclusive.perm ?_ (hlive'.map _).symm
    exact hex
  · intro x hx
    rcases hmem hx with rfl | hx
    · exact hplaced
    · exact h.placed x hx
  · intro hdis
    have hempty := h.shared_eq (hpolicy ▸ hdis)
    exact Set.subset_empty_iff.mp (hempty ▸ hshared)

/-- One live request leaves; the prefix cache stays and no pending insert is added. -/
theorem remove {c c' : Config W} (h : Ownership p c) {rest : List ScheduledRequest}
    (hlive : c.live.Perm (r :: rest)) (hlive' : c'.live.Perm rest)
    (hcache : c'.scheduler.prefixCache = c.scheduler.prefixCache)
    (hpending : ∀ e ∈ c'.scheduler.pendingPrefixCacheInserts,
      e ∈ c.scheduler.pendingPrefixCacheInserts)
    (hpolicy : c'.scheduler.prefixCachePolicy = c.scheduler.prefixCachePolicy)
    (hchunk : c'.scheduler.chunkedPrefillSize = c.scheduler.chunkedPrefillSize)
    (hex : ∃ a, c'.scheduler.cachePageAllocator = some a ∧ a.Valid ∧ a.pageSize = p ∧
      Exclusive p a.allocatedPageIndices (rest.map owner) c'.shared)
    (hwaiting : ∀ x ∈ c'.scheduler.waitingQueue, x.Waiting) (htaken : ∀ x ∈ c'.taken, x.Taken)
    (hexecuted : ∀ x ∈ c'.executed, x.Progressed) : Ownership p c' := by
  obtain ⟨a, ha, hv, hpa, hex⟩ := hex
  have hmem {x : ScheduledRequest} (hx : x ∈ c'.live) : x ∈ c.live :=
    hlive.mem_iff.mpr (List.mem_cons_of_mem _ (hlive'.mem_iff.mp hx))
  have hshared : c'.shared ⊆ c.shared := Config.shared_mono hcache (fun _ hx => hmem hx) hpending
  refine ⟨⟨a, ha, hv, hpa, hex.perm (hlive'.map _).symm⟩, hchunk ▸ h.chunk_ne_zero,
    fun x hx => h.placed x (hmem hx), hwaiting, htaken, hexecuted, hcache ▸ h.cache_offset,
    fun e he => h.pending e (hpending e he), ?_⟩
  intro hdis
  have hempty := h.shared_eq (hpolicy ▸ hdis)
  exact Set.subset_empty_iff.mp (hempty ▸ hshared)

/-- The pages of the live requests, one of them put first. -/
theorem exclusive_cons {c : Config W} (h : Ownership p c) {rest : List ScheduledRequest}
    (hlive : c.live.Perm (r :: rest)) :
    ∃ a, c.scheduler.cachePageAllocator = some a ∧ a.Valid ∧ a.pageSize = p ∧
      Exclusive p a.allocatedPageIndices (r.owner :: rest.map owner) c.shared := by
  obtain ⟨a, ha, hv, hpa, hex⟩ := h.exclusive
  exact ⟨a, ha, hv, hpa, hex.perm (hlive.map _)⟩

theorem placed_cons {c : Config W} (h : Ownership p c) {rest : List ScheduledRequest}
    (hlive : c.live.Perm (r :: rest)) : r.Placed p :=
  h.placed r (hlive.mem_iff.mpr List.mem_cons_self)

theorem prefix_shared {c : Config W} {rest : List ScheduledRequest}
    (hlive : c.live.Perm (r :: rest)) {x : ℕ}
    (hx : x ∈ r.sequenceCachePages.take r.cacheHitTokenCount) : x ∈ c.shared :=
  .inr (.inl ⟨r, hlive.mem_iff.mpr List.mem_cons_self, hx⟩)

/-! ### Taking requests -/

section Take

variable {k : ℕ} {s' : Scheduler W}

/-- What attaching a prefix to the request at the head of the waiting queue gives. -/
theorem withPrefix (h : Ownership p ⟨{ s with waitingQueue := r :: s.waitingQueue }, t, d⟩) :
    (s.withPrefix r).Placed p ∧ (s.withPrefix r).Waiting ∧
      (∀ x ∈ (s.withPrefix r).sequenceCachePages.take (s.withPrefix r).cacheHitTokenCount,
        x ∈ (⟨{ s with waitingQueue := r :: s.waitingQueue }, t, d⟩ : Config W).shared) ∧
      ∃ a, s.cachePageAllocator = some a ∧ a.Valid ∧ a.pageSize = p ∧
        Exclusive p a.allocatedPageIndices
          ((s.withPrefix r).owner :: (⟨s, t, d⟩ : Config W).live.map owner)
          (⟨{ s with waitingQueue := r :: s.waitingQueue }, t, d⟩ : Config W).shared := by
  have hlive : (⟨{ s with waitingQueue := r :: s.waitingQueue }, t, d⟩ : Config W).live.Perm
      (r :: (⟨s, t, d⟩ : Config W).live) := .rfl
  obtain ⟨a, ha, hv, hpa, hex⟩ := h.exclusive_cons hlive
  have hsize : s.pageSize = p := by
    have ha : s.cachePageAllocator = some a := ha
    simp only [Scheduler.pageSize, ha, hpa]
  obtain ⟨hex, hplaced, hwait, hshared⟩ := withPrefix_spec (s := s) (hpa ▸ hv.pageSize_pos) hsize
    (h.placed_cons hlive) (h.waiting r List.mem_cons_self) hex h.cache_offset
  refine ⟨hplaced, hwait, fun x hx => ?_, a, ha, hv, hpa, hex⟩
  rcases hshared x hx with hx | ⟨-, hx⟩
  · exact prefix_shared hlive hx
  · exact .inl hx

theorem takePrefill (h : Ownership p ⟨{ s with waitingQueue := r :: s.waitingQueue }, t, d⟩)
    (hk : k ≠ 0) (hp : s.preparePrefillRequestChunk r k = (s', r', .ok ())) :
    Ownership p ⟨s', r' :: t, d⟩ := by
  obtain ⟨hplaced, hwait, hshared, a, ha, hv, hpa, hex⟩ := h.withPrefix
  have hwaiting : ∀ x ∈ s.waitingQueue, x.Waiting :=
    fun x hx => h.waiting x (List.mem_cons_of_mem _ hx)
  have htaken {x : ScheduledRequest} (hx : x.Taken) : ∀ y ∈ x :: t, y.Taken := by
    rintro y (_ | ⟨_, hy⟩)
    · exact hx
    · exact h.taken y hy
  obtain ⟨hrep, rfl, -, rfl⟩ | ⟨hrep, slots, halloc, -, rfl⟩ | ⟨-, _, -, -, -, hres⟩ :=
    Scheduler.preparePrefillRequestChunk_cases hp
  · exact h.replace _ .rfl (Config.live_cons_taken _ _ _) rfl rfl rfl rfl hshared
      ⟨hplaced.hit_dvd, hplaced.hit_le, hplaced.hit_le_input, hplaced.processed_le,
        hplaced.processed_le_input, hplaced.offset⟩
      ⟨a, ha, hv, hpa, hex⟩ hwaiting (htaken (taken_replay hrep hwait hplaced)) h.executed
  · obtain ⟨a', halloc', rfl⟩ := Scheduler.allocateForSequence_of_some ha halloc
    obtain ⟨hv', hpa', hlen, hex', hplaced'⟩ := allocate_spec hv hpa hplaced hex halloc'
    refine h.replace _ .rfl (Config.live_cons_taken _ _ _) rfl rfl rfl rfl ?_
      ⟨hplaced'.hit_dvd, hplaced'.hit_le, hplaced'.hit_le_input, hplaced'.processed_le,
        hplaced'.processed_le_input, hplaced'.offset⟩
      ⟨a', rfl, hv', hpa', hex'⟩ hwaiting (htaken (hwait.taken_recordAllocation hplaced hk hlen))
      h.executed
    intro x hx
    refine hshared x ?_
    rwa [recordAllocation, List.take_append_of_le_length hplaced.hit_le] at hx
  · cases hres

theorem takeFailed (h : Ownership p ⟨{ s with waitingQueue := r :: s.waitingQueue }, t, d⟩) :
    Ownership p ⟨s, s.withPrefix r :: t, d⟩ := by
  obtain ⟨hplaced, hwait, hshared, hex⟩ := h.withPrefix
  refine h.replace _ .rfl (Config.live_cons_taken _ _ _) rfl rfl rfl rfl hshared hplaced hex
    (fun x hx => h.waiting x (List.mem_cons_of_mem _ hx)) ?_ h.executed
  rintro y (_ | ⟨_, hy⟩)
  · exact hwait.taken hplaced
  · exact h.taken y hy

theorem deferFailed (h : Ownership p ⟨{ s with waitingQueue := r :: s.waitingQueue }, t, d⟩) :
    Ownership p ⟨{ s with waitingQueue := s.withPrefix r :: s.waitingQueue }, t, d⟩ := by
  obtain ⟨hplaced, hwait, hshared, hex⟩ := h.withPrefix
  refine h.replace _ .rfl .rfl rfl rfl rfl rfl hshared hplaced hex ?_ h.taken h.executed
  rintro y (_ | ⟨_, hy⟩)
  · exact hwait
  · exact h.waiting y (List.mem_cons_of_mem _ hy)

theorem takeDecode (h : Ownership p ⟨{ s with decodeQueue := r :: s.decodeQueue }, t, d⟩)
    (hp : s.prepareDecodeRequest r = (s', r', .ok ())) :
    Ownership p ⟨s', r'.setStage .decodeForward :: t, d⟩ := by
  have hlive := Config.live_cons_decode (r := r) s t d s.decodeQueue
  obtain ⟨a, ha, hv, hpa, hex⟩ := h.exclusive_cons hlive
  have hplaced := h.placed_cons hlive
  have ha : s.cachePageAllocator = some a := ha
  obtain ⟨slots, halloc, rfl, -⟩ | ⟨_, -, -, -, hres⟩ := Scheduler.prepareDecodeRequest_cases hp
  · obtain ⟨a', halloc', rfl⟩ := Scheduler.allocateForSequence_of_some ha halloc
    obtain ⟨hv', hpa', hlen, hex', hplaced'⟩ := allocate_spec hv hpa hplaced hex halloc'
    refine h.replace _ hlive (Config.live_cons_taken _ _ _) rfl rfl rfl rfl ?_
      ⟨hplaced'.hit_dvd, hplaced'.hit_le, hplaced'.hit_le_input, hplaced'.processed_le,
        hplaced'.processed_le_input, hplaced'.offset⟩
      ⟨a', rfl, hv', hpa', hex'⟩ h.waiting ?_ h.executed
    · intro x hx
      simp only [setStage, recordAllocation,
        List.take_append_of_le_length hplaced.hit_le] at hx
      exact prefix_shared hlive hx
    · have hkept : ((r.recordAllocation slots).setStage .decodeForward).keptSlots =
          r.sequenceCachePages := keptSlots_of_append rfl
      rintro y (_ | ⟨_, hy⟩)
      · refine ⟨?_, ?_, ?_, ?_, ?_, ?_, fun _ => .inl rfl⟩
        · rw [hkept]
          rfl
        · rw [hkept]
          exact hplaced.processed_le
        · rw [hkept]
          exact hplaced.hit_le
        · exact fun hne => absurd rfl hne
        · exact fun hstage => absurd hstage (by simp [setStage])
        · exact fun hstage => absurd hstage (by simp [setStage])
      · exact h.taken y hy
  · cases hres

end Take

/-! ### Putting requests back and dropping them -/

/-- Releasing the slots of the chunk a request was prepared for. -/
theorem exclusive_release (h : Ownership p ⟨s, r :: t, d⟩) :
    ∃ a, (s.release r.allocatedCachePages).cachePageAllocator = some a ∧ a.Valid ∧
      a.pageSize = p ∧ Exclusive p a.allocatedPageIndices
        ({ r.owner with slots := r.keptSlots.drop r.cacheHitTokenCount } ::
          (⟨s, t, d⟩ : Config W).live.map owner) (⟨s, r :: t, d⟩ : Config W).shared := by
  obtain ⟨a, ha, hv, hpa, hex⟩ := h.exclusive_cons (Config.live_cons_taken _ _ _)
  have ht := h.taken r List.mem_cons_self
  have ha : s.cachePageAllocator = some a := ha
  refine ⟨a.release r.allocatedCachePages, by simp [Scheduler.release, ha], hv.release _, hpa, ?_⟩
  rw [hv.allocated_release, hpa]
  exact hex.truncate (hpa ▸ hv.pageSize_pos) ht.owner_slots ht.published_le

theorem undoPrefill (h : Ownership p ⟨s, r :: t, d⟩) (hstage : r.stage ≠ .decodeForward) :
    Ownership p ⟨s.undoPrefill r, t, d⟩ := by
  have ht := h.taken r List.mem_cons_self
  have hlive := Config.live_cons_taken (r := r) s t d
  refine h.replace (r.clearForwardCacheAllocation.setStage .prefillWaiting) hlive .rfl rfl
    rfl rfl rfl ?_ (ht.placed_clear (h.placed_cons hlive) _) ?_ ?_
    (fun x hx => h.taken x (List.mem_cons_of_mem _ hx)) h.executed
  · intro x hx
    refine prefix_shared hlive ?_
    rw [← ht.take_keptSlots, ← sequenceCachePages_clearForwardCacheAllocation]
    exact hx
  · rw [owner_clear]
    exact h.exclusive_release
  · rintro x (_ | ⟨_, hx⟩)
    · refine ⟨rfl, rfl, fun h0 => ?_⟩
      have hfresh := ht.fresh hstage h0
      rw [← sequenceCachePages_clearForwardCacheAllocation] at hfresh
      exact hfresh
    · exact h.waiting x hx

theorem undoDecode (h : Ownership p ⟨s, r :: t, d⟩) : Ownership p ⟨s.undoDecode r, t, d⟩ := by
  have ht := h.taken r List.mem_cons_self
  have hlive := Config.live_cons_taken (r := r) s t d
  refine h.replace (r.clearForwardCacheAllocation.setStage .decodeWaiting) hlive
    (Config.live_cons_decode _ _ _ _) rfl rfl rfl rfl ?_ (ht.placed_clear (h.placed_cons hlive) _)
    ?_ h.waiting (fun x hx => h.taken x (List.mem_cons_of_mem _ hx)) h.executed
  · intro x hx
    refine prefix_shared hlive ?_
    rw [← ht.take_keptSlots, ← sequenceCachePages_clearForwardCacheAllocation]
    exact hx
  · rw [owner_clear]
    exact h.exclusive_release

theorem fail (h : Ownership p ⟨s, r :: t, d⟩) :
    Ownership p ⟨s.release r.allocatedCachePages, t, d⟩ := by
  have hlive := Config.live_cons_taken (r := r) s t d
  obtain ⟨a, ha, hv, hpa, hex⟩ := h.exclusive_release
  refine h.remove hlive .rfl rfl (fun _ he => he) rfl rfl
    ⟨a, ha, hv, hpa, hex.tail.mono (Config.shared_mono rfl ?_ fun _ he => he)⟩ h.waiting
    (fun x hx => h.taken x (List.mem_cons_of_mem _ hx)) h.executed
  exact fun x hx => hlive.mem_iff.mpr (List.mem_cons_of_mem _ hx)

theorem lose (h : Ownership p ⟨s, r :: t, d⟩) : Ownership p ⟨s, t, d⟩ := by
  have hlive := Config.live_cons_taken (r := r) s t d
  obtain ⟨a, ha, hv, hpa, hex⟩ := h.exclusive_cons hlive
  refine h.remove hlive .rfl rfl (fun _ he => he) rfl rfl
    ⟨a, ha, hv, hpa, hex.tail.mono (Config.shared_mono rfl ?_ fun _ he => he)⟩ h.waiting
    (fun x hx => h.taken x (List.mem_cons_of_mem _ hx)) h.executed
  exact fun x hx => hlive.mem_iff.mpr (List.mem_cons_of_mem _ hx)

theorem park (h : Ownership p ⟨s, r :: t, d⟩) : Ownership p ⟨s.park r, t, d⟩ := by
  have hlive := Config.live_cons_taken (r := r) s t d
  exact h.replace _ hlive (Config.live_park _ _ _) rfl rfl rfl rfl
    (fun x hx => prefix_shared hlive hx) (h.placed_cons hlive) (h.exclusive_cons hlive) h.waiting
    (fun x hx => h.taken x (List.mem_cons_of_mem _ hx)) h.executed

/-! ### Executing requests -/

theorem executeDecode (h : Ownership p ⟨s, r :: t, d⟩) (hstage : r.stage ≠ .prefillForward) :
    Ownership p ⟨s, t, r :: d⟩ := by
  have hlive := Config.live_cons_taken (r := r) s t d
  refine h.replace _ hlive (Config.live_cons_executed _ _ _) rfl rfl rfl rfl
    (fun x hx => prefix_shared hlive hx) (h.placed_cons hlive) (h.exclusive_cons hlive) h.waiting
    (fun x hx => h.taken x (List.mem_cons_of_mem _ hx)) ?_
  rintro x (_ | ⟨_, hx⟩)
  · exact fun hs => absurd hs hstage
  · exact h.executed x hx

/-- The processed slots of an executed chunk may be shared. -/
theorem exclusive_advance (h : Ownership p ⟨s, r :: t, d⟩) :
    ∃ a, s.cachePageAllocator = some a ∧ a.Valid ∧ a.pageSize = p ∧
      Exclusive p a.allocatedPageIndices
        (r.advanceChunk.owner :: (⟨s, t, d⟩ : Config W).live.map owner)
        ((⟨s, r :: t, d⟩ : Config W).shared ∪
          { x | x ∈ r.sequenceCachePages.take r.advanceChunk.promptTokensProcessed }) := by
  have hlive := Config.live_cons_taken (r := r) s t d
  have hr := h.placed_cons hlive
  obtain ⟨a, ha, hv, hpa, hex⟩ := h.exclusive_cons hlive
  have hpub := hex.publish (hpa ▸ hv.pageSize_pos)
    (k := r.advanceChunk.promptTokensProcessed - r.cacheHitTokenCount)
    (Nat.sub_le_sub_right (processed_le_advanceChunk hr) _)
  refine ⟨a, ha, hv, hpa, hpub.mono ?_⟩
  rintro x (hx | hx)
  · exact .inl hx
  · rcases Nat.lt_or_ge r.advanceChunk.promptTokensProcessed r.cacheHitTokenCount with hlt | hge
    · exact .inl (prefix_shared hlive (List.take_subset_take_left _ hlt.le hx))
    · rcases (mem_take_iff hge).mp hx with hx | hx
      · exact .inl (prefix_shared hlive hx)
      · exact .inr hx

theorem skipChunk (h : Ownership p ⟨s, r :: t, d⟩) (hstage : r.stage = .prefillForward) :
    Ownership p ⟨s, t, r.advanceChunk :: d⟩ := by
  have hlive := Config.live_cons_taken (r := r) s t d
  have ht := h.taken r List.mem_cons_self
  have hr := h.placed_cons hlive
  obtain ⟨a, ha, hv, hpa, hex⟩ := h.exclusive_advance
  refine h.replace _ hlive (Config.live_cons_executed _ _ _) rfl rfl rfl rfl
    (fun x hx => prefix_shared hlive hx) (placed_advanceChunk hr (ht.advance_le hr hstage))
    ⟨a, ha, hv, hpa, hex.mono Set.subset_union_left⟩ h.waiting
    (fun x hx => h.taken x (List.mem_cons_of_mem _ hx)) ?_
  rintro x (_ | ⟨_, hx⟩)
  · exact ht.progressed_advance hstage
  · exact h.executed x hx

theorem stageError (h : Ownership p ⟨s, r :: t, d⟩) (hstage : r.stage = .prefillForward) :
    Ownership p ⟨s.park r.advanceChunk, t, d⟩ := by
  have hlive := Config.live_cons_taken (r := r) s t d
  have ht := h.taken r List.mem_cons_self
  have hr := h.placed_cons hlive
  obtain ⟨a, ha, hv, hpa, hex⟩ := h.exclusive_advance
  exact h.replace _ hlive (Config.live_park _ _ _) rfl rfl rfl rfl
    (fun x hx => prefix_shared hlive hx) (placed_advanceChunk hr (ht.advance_le hr hstage))
    ⟨a, ha, hv, hpa, hex.mono Set.subset_union_left⟩ h.waiting
    (fun x hx => h.taken x (List.mem_cons_of_mem _ hx)) h.executed

/-- An executed chunk whose slots enter the prefix cache or the pending inserts. -/
theorem shareChunk (h : Ownership p ⟨s, r :: t, d⟩) (hstage : r.stage = .prefillForward)
    (hpolicy : s.prefixCachePolicy = .enabled) (cache : RadixCache)
    (pending : List ScheduledRequest)
    (hcache : ∀ x, cache.Holds x → s.prefixCache.Holds x ∨
      x ∈ r.sequenceCachePages.take r.advanceChunk.promptTokensProcessed)
    (hoffset : ∀ w x, cache.slotAt w = some x → x % p = (w.length - 1) % p)
    (hpending : ∀ e ∈ pending, e ∈ s.pendingPrefixCacheInserts ∨ e = r.advanceChunk) :
    Ownership p ⟨{ s with prefixCache := cache, pendingPrefixCacheInserts := pending }, t,
      r.advanceChunk :: d⟩ := by
  have hlive := Config.live_cons_taken (r := r) s t d
  have hlive' := Config.live_cons_executed (r := r.advanceChunk) s t d
  have ht := h.taken r List.mem_cons_self
  have hr := h.placed_cons hlive
  have hplaced := placed_advanceChunk hr (ht.advance_le hr hstage)
  obtain ⟨a, ha, hv, hpa, hex⟩ := h.exclusive_advance
  refine ⟨⟨a, ha, hv, hpa, ?_⟩, h.chunk_ne_zero, ?_, h.waiting,
    fun x hx => h.taken x (List.mem_cons_of_mem _ hx), ?_, hoffset, fun e he => ?_,
    fun hdis => absurd (hpolicy.symm.trans hdis) (by decide)⟩
  · refine (hex.perm (hlive'.map _).symm).mono (Config.shared_subset ?_ ?_ ?_)
    · exact fun x hx => (hcache x hx).imp_left .inl
    · intro y hy x hx
      rcases List.mem_cons.mp (hlive'.mem_iff.mp hy) with rfl | hy
      · exact .inl (prefix_shared hlive hx)
      · exact .inl (.inr (.inl ⟨y, hlive.mem_iff.mpr (List.mem_cons_of_mem _ hy), hx⟩))
    · intro e he x hx
      rcases hpending e he with he | rfl
      · exact .inl (.inr (.inr ⟨e, he, hx⟩))
      · exact .inr hx
  · intro y hy
    rcases List.mem_cons.mp (hlive'.mem_iff.mp hy) with rfl | hy
    · exact hplaced
    · exact h.placed y (hlive.mem_iff.mpr (List.mem_cons_of_mem _ hy))
  · rintro x (_ | ⟨_, hx⟩)
    · exact ht.progressed_advance hstage
    · exact h.executed x hx
  · rcases hpending e he with he | rfl
    · exact h.pending e he
    · exact hplaced

theorem publishChunk (h : Ownership p ⟨s, r :: t, d⟩) (hstage : r.stage = .prefillForward)
    (hpolicy : s.prefixCachePolicy = .enabled) :
    Ownership p ⟨s.publishPrefillChunkCachePages r.advanceChunk
      r.advanceChunk.promptTokensProcessed, t, r.advanceChunk :: d⟩ := by
  have hr := h.placed_cons (Config.live_cons_taken (r := r) s t d)
  have hplaced := placed_advanceChunk hr ((h.taken r List.mem_cons_self).advance_le hr hstage)
  rw [Scheduler.publishPrefillChunkCachePages_eq]
  refine h.shareChunk hstage hpolicy _ _ ?_ (fun w x hx => ?_) fun _ he => .inl he
  · rintro x ⟨w, hw⟩
    rcases RadixCache.slotAt_published hplaced.processed_le hplaced.processed_le_input hw with
      hold | ⟨i, hi, hx, -⟩
    · exact .inl ⟨w, hold⟩
    · exact .inr (List.mem_iff_getElem?.mpr ⟨i, by rw [List.getElem?_take_of_lt hi]; exact hx⟩)
  · rcases RadixCache.slotAt_published hplaced.processed_le hplaced.processed_le_input hx with
      hold | ⟨i, hi, hx, hw⟩
    · exact h.cache_offset w x hold
    · have hlen : w.length = i + 1 := by
        rw [hw, List.length_take, Nat.min_eq_left (hi.trans_le hplaced.processed_le_input)]
      rw [hlen, Nat.add_sub_cancel]
      exact hr.offset i x hx

theorem pendChunk (h : Ownership p ⟨s, r :: t, d⟩) (hstage : r.stage = .prefillForward)
    (hpolicy : s.prefixCachePolicy = .enabled) :
    Ownership p
      ⟨{ s with
          pendingPrefixCacheInserts := s.pendingPrefixCacheInserts ++ [r.advanceChunk] }, t,
        r.advanceChunk :: d⟩ :=
  h.shareChunk hstage hpolicy _ _ (fun _ hx => .inl hx) h.cache_offset fun _ he =>
    (List.mem_append.mp he).imp_right List.mem_singleton.mp

/-! ### Retiring requests -/

/-- An executed request that stays has the same slots. -/
theorem requeueChunk (h : Ownership p ⟨s, t, r :: d⟩) (hstage : r.stage = .prefillForward)
    (hincomplete : r.isPrefillComplete = false) :
    Ownership p ⟨{ s with waitingQueue := r.awaitChunk :: s.waitingQueue }, t, d⟩ := by
  have hlive := Config.live_cons_executed (r := r) s t d
  have hr := h.placed_cons hlive
  have hex := h.exclusive_cons hlive
  refine h.replace r.awaitChunk hlive .rfl rfl rfl rfl rfl
    (fun x hx => prefix_shared hlive hx)
    ⟨hr.hit_dvd, hr.hit_le, hr.hit_le_input, hr.processed_le, hr.processed_le_input, hr.offset⟩
    hex ?_ h.taken (fun x hx => h.executed x (List.mem_cons_of_mem _ hx))
  rintro x (_ | ⟨_, hx⟩)
  · exact ⟨rfl, rfl, fun h0 => absurd h0
      (h.executed r List.mem_cons_self hstage hincomplete)⟩
  · exact h.waiting x hx

/-- An executed request goes to the decode queue with the same slots. -/
theorem requeue (h : Ownership p ⟨s, t, r :: d⟩)
    (hseq : r'.sequenceCachePages = r.sequenceCachePages)
    (hhit : r'.cacheHitTokenCount = r.cacheHitTokenCount) (hinput : r'.inputIds = r.inputIds)
    (hprocessed : r'.promptTokensProcessed = r.promptTokensProcessed) :
    Ownership p ⟨s.park r', t, d⟩ := by
  have hlive := Config.live_cons_executed (r := r) s t d
  have hr := h.placed_cons hlive
  have howner : r'.owner = r.owner := by rw [owner, owner, hseq, hhit, hprocessed]
  refine h.replace r' hlive (Config.live_park _ _ _) rfl rfl rfl rfl ?_ ?_ ?_ h.waiting
    h.taken (fun x hx => h.executed x (List.mem_cons_of_mem _ hx))
  · rw [hseq, hhit]
    exact fun x hx => prefix_shared hlive hx
  · refine ⟨?_, ?_, ?_, ?_, ?_, ?_⟩
    · exact hhit ▸ hr.hit_dvd
    · exact hhit ▸ hseq ▸ hr.hit_le
    · exact hhit ▸ hinput ▸ hr.hit_le_input
    · exact hprocessed ▸ hseq ▸ hr.processed_le
    · exact hprocessed ▸ hinput ▸ hr.processed_le_input
    · exact hseq ▸ hr.offset
  · rw [howner]
    exact h.exclusive_cons hlive

/-- Releasing what a request owns when it leaves. -/
theorem exclusive_retire {c : Config W} (h : Ownership p c) {rest : List ScheduledRequest}
    (hlive : c.live.Perm (r :: rest)) :
    ∃ a, (c.scheduler.release (c.scheduler.ownedSlots r)).cachePageAllocator = some a ∧ a.Valid ∧
      a.pageSize = p ∧ Exclusive p a.allocatedPageIndices (rest.map owner) c.shared := by
  obtain ⟨a, ha, hv, hpa, hex⟩ := h.exclusive_cons hlive
  have hr := h.placed_cons hlive
  have hp : 0 < p := hpa ▸ hv.pageSize_pos
  refine ⟨a.release (c.scheduler.ownedSlots r), by simp [Scheduler.release, ha], hv.release _, hpa,
    ?_⟩
  rw [hv.allocated_release, hpa]
  unfold Scheduler.ownedSlots
  cases hpol : c.scheduler.prefixCachePolicy with
  | enabled =>
    have hdrop : r.sequenceCachePages.drop r.inputIds.length =
        r.owner.slots.drop (r.inputIds.length - r.cacheHitTokenCount) := by
      simp only [owner, List.drop_drop, Nat.add_sub_cancel' hr.hit_le_input]
    dsimp only
    rw [hdrop]
    exact hex.retire hp (Nat.sub_le_sub_right hr.processed_le_input _)
  | disabled =>
    -- nothing is shared, so the request owns all its slots and has published none
    have hempty := h.shared_eq hpol
    have hhit : r.cacheHitTokenCount = 0 := by
      by_contra hne
      have hlen : 0 < r.sequenceCachePages.length := (Nat.pos_of_ne_zero hne).trans_le hr.hit_le
      have hmem : r.sequenceCachePages[0] ∈ r.sequenceCachePages.take r.cacheHitTokenCount :=
        List.mem_take_iff_getElem.mpr ⟨0, by omega, rfl⟩
      have := prefix_shared hlive hmem
      rw [hempty] at this
      exact this
    have hslots : r.owner.slots = r.sequenceCachePages := by rw [owner, hhit, List.drop_zero]
    have hprivate : Exclusive p a.allocatedPageIndices
        ({ r.owner with published := 0 } :: rest.map owner) c.shared := by
      rw [hempty] at hex ⊢
      exact ⟨fun o ho => by
          rcases List.mem_cons.mp ho with rfl | ho
          · exact hex.paged r.owner List.mem_cons_self
          · exact hex.paged o (List.mem_cons_of_mem _ ho),
        hex.nodup, fun o ho => by
          rcases List.mem_cons.mp ho with rfl | ho
          · exact hex.owned_allocated r.owner List.mem_cons_self
          · exact hex.owned_allocated o (List.mem_cons_of_mem _ ho), by simp, by simp⟩
    have hretire := hprivate.retire hp (k := 0) (Nat.le_refl 0)
    rw [List.drop_zero] at hretire
    dsimp only at hretire ⊢
    rw [hslots] at hretire
    exact hretire

theorem finish (h : Ownership p ⟨s, t, r :: d⟩) (tokenIds : List UInt32) :
    Ownership p ⟨s.releaseRequestCachePages (r.finish tokenIds), t, d⟩ := by
  have hlive := Config.live_cons_executed (r := r) s t d
  obtain ⟨a, ha, hv, hpa, hex⟩ := h.exclusive_retire hlive
  rw [Scheduler.releaseRequestCachePages_eq]
  refine h.remove hlive .rfl rfl (fun _ he => he) rfl rfl
    ⟨a, ha, hv, hpa, hex.mono (Config.shared_mono rfl ?_ fun _ he => he)⟩ h.waiting h.taken
    (fun x hx => h.executed x (List.mem_cons_of_mem _ hx))
  exact fun x hx => hlive.mem_iff.mpr (List.mem_cons_of_mem _ hx)

theorem abortWaiting (h : Ownership p { s with waitingQueue := r :: s.waitingQueue }.idle) :
    Ownership p (s.releaseRequestCachePages r).idle := by
  have hlive : { s with waitingQueue := r :: s.waitingQueue }.idle.live.Perm (r :: s.idle.live) :=
    .rfl
  obtain ⟨a, ha, hv, hpa, hex⟩ := h.exclusive_retire hlive
  rw [Scheduler.releaseRequestCachePages_eq]
  refine h.remove hlive .rfl rfl (fun _ he => he) rfl rfl
    ⟨a, ha, hv, hpa, hex.mono (Config.shared_mono rfl ?_ fun _ he => he)⟩
    (fun x hx => h.waiting x (List.mem_cons_of_mem _ hx)) h.taken h.executed
  exact fun x hx => hlive.mem_iff.mpr (List.mem_cons_of_mem _ hx)

theorem abortDecode (h : Ownership p { s with decodeQueue := r :: s.decodeQueue }.idle) :
    Ownership p (s.releaseRequestCachePages r).idle := by
  have hlive := Config.live_cons_decode (r := r) s [] [] s.decodeQueue
  obtain ⟨a, ha, hv, hpa, hex⟩ := h.exclusive_retire hlive
  rw [Scheduler.releaseRequestCachePages_eq]
  refine h.remove hlive .rfl rfl (fun _ he => he) rfl rfl
    ⟨a, ha, hv, hpa, hex.mono (Config.shared_mono rfl ?_ fun _ he => he)⟩ h.waiting h.taken
    h.executed
  exact fun x hx => hlive.mem_iff.mpr (List.mem_cons_of_mem _ hx)

theorem dropDecode (h : Ownership p { s with decodeQueue := r :: s.decodeQueue }.idle) :
    Ownership p s.idle := by
  have hlive := Config.live_cons_decode (r := r) s [] [] s.decodeQueue
  obtain ⟨a, ha, hv, hpa, hex⟩ := h.exclusive_cons hlive
  refine h.remove hlive .rfl rfl (fun _ he => he) rfl rfl
    ⟨a, ha, hv, hpa, hex.tail.mono (Config.shared_mono rfl ?_ fun _ he => he)⟩ h.waiting h.taken
    h.executed
  exact fun x hx => hlive.mem_iff.mpr (List.mem_cons_of_mem _ hx)

/-! ### Pending inserts and flushing -/

variable {e : ScheduledRequest} {pending : List ScheduledRequest}

theorem losePending (h : Ownership p { s with pendingPrefixCacheInserts := e :: pending }.idle) :
    Ownership p { s with pendingPrefixCacheInserts := pending }.idle := by
  obtain ⟨a, ha, hv, hpa, hex⟩ := h.exclusive
  have hshared : { s with pendingPrefixCacheInserts := pending }.idle.shared ⊆
      { s with pendingPrefixCacheInserts := e :: pending }.idle.shared :=
    Config.shared_mono rfl (fun _ hx => hx) (fun x hx => List.mem_cons_of_mem _ hx)
  exact ⟨⟨a, ha, hv, hpa, hex.mono hshared⟩, h.chunk_ne_zero, h.placed, h.waiting, h.taken,
    h.executed, h.cache_offset, fun x hx => h.pending x (List.mem_cons_of_mem _ hx),
    fun hdis => Set.subset_empty_iff.mp (h.shared_eq hdis ▸ hshared)⟩

theorem publishPending
    (h : Ownership p { s with pendingPrefixCacheInserts := e :: pending }.idle) :
    Ownership p ({ s with pendingPrefixCacheInserts := pending }.publishPrefillChunkCachePages e
      e.promptTokensProcessed).idle := by
  have hplaced := h.pending e List.mem_cons_self
  obtain ⟨a, ha, hv, hpa, hex⟩ := h.exclusive
  rw [Scheduler.publishPrefillChunkCachePages_eq]
  have hshared : Config.shared (Scheduler.idle { s with
        pendingPrefixCacheInserts := pending
        prefixCache := s.prefixCache.published e e.promptTokensProcessed }) ⊆
      { s with pendingPrefixCacheInserts := e :: pending }.idle.shared := by
    refine Config.shared_subset ?_ (fun y hy x hx => .inr (.inl ⟨y, hy, hx⟩))
      (fun y hy x hx => .inr (.inr ⟨y, List.mem_cons_of_mem _ hy, hx⟩))
    rintro x ⟨w, hw⟩
    rcases RadixCache.slotAt_published hplaced.processed_le hplaced.processed_le_input hw with
      hold | ⟨i, hi, hx, -⟩
    · exact .inl ⟨w, hold⟩
    · refine .inr (.inr ⟨e, List.mem_cons_self, List.mem_iff_getElem?.mpr ⟨i, ?_⟩⟩)
      rw [List.getElem?_take_of_lt hi]
      exact hx
  refine ⟨⟨a, ha, hv, hpa, hex.mono hshared⟩, h.chunk_ne_zero, h.placed, h.waiting, h.taken,
    h.executed, fun w x hx => ?_, fun x hx => h.pending x (List.mem_cons_of_mem _ hx),
    fun hdis => Set.subset_empty_iff.mp (h.shared_eq hdis ▸ hshared)⟩
  rcases RadixCache.slotAt_published hplaced.processed_le hplaced.processed_le_input hx with
    hold | ⟨i, hi, hx, hw⟩
  · exact h.cache_offset w x hold
  · have hlen : w.length = i + 1 := by
      rw [hw, List.length_take, Nat.min_eq_left (hi.trans_le hplaced.processed_le_input)]
    rw [hlen, Nat.add_sub_cancel]
    exact hplaced.offset i x hx

/-- Slots on whose pages no slot in use lies may be released. -/
theorem release_of_unreferenced (h : Ownership p s.idle) (hu : s.Unreferenced e) :
    Ownership p (s.releaseUnpublishedCachePages e).idle := by
  obtain ⟨a, ha, hv, hpa, hex⟩ := h.exclusive
  have ha : s.cachePageAllocator = some a := ha
  have hp : 0 < p := hpa ▸ hv.pageSize_pos
  have hsize : s.pageSize = p := by simp only [Scheduler.pageSize, ha, hpa]
  have hqueued {r : ScheduledRequest} (hr : r ∈ s.idle.live) :
      r ∈ s.waitingQueue ++ s.decodeQueue := by
    simpa [Config.live, Scheduler.idle] using hr
  refine ⟨⟨a.release e.allocatedCachePages, by
      simp [Scheduler.releaseUnpublishedCachePages, Scheduler.release, Scheduler.idle, ha],
    hv.release _, hpa, ?_⟩, h.chunk_ne_zero, h.placed, h.waiting, h.taken, h.executed,
    h.cache_offset, h.pending, h.shared_eq⟩
  rw [hv.allocated_release, hpa]
  refine hex.release ?_ ?_
  · intro o ho g hg hmem
    obtain ⟨r, hr, rfl⟩ := List.mem_map.mp ho
    have hslot : g * p ∈ r.sequenceCachePages :=
      List.mem_of_mem_drop ((mem_firstPages hp).mp hg)
    refine hu g (hsize ▸ hmem) (g * p) (.inr (.inl ⟨r, hqueued hr, hslot⟩)) ?_
    rw [hsize, Nat.mul_div_cancel g hp]
  · intro x hx hmem
    refine hu (x / p) (hsize ▸ hmem) x ?_ (by rw [hsize])
    rcases hx with hx | ⟨r, hr, hx⟩ | ⟨y, hy, hx⟩
    · exact .inl hx
    · exact .inr (.inl ⟨r, hqueued hr, List.mem_of_mem_take hx⟩)
    · exact .inr (.inr ⟨y, hy, List.mem_of_mem_take hx⟩)

/-- The order of two releases does not matter. -/
theorem release_comm {xs ys : List ℕ} (hv : ∀ a, s.cachePageAllocator = some a → a.Valid)
    (h : Ownership p ((s.release xs).release ys).idle) :
    Ownership p ((s.release ys).release xs).idle := by
  obtain ⟨a', ha', -, hpa, hex⟩ := h.exclusive
  obtain ⟨a, ha⟩ : ∃ a, s.cachePageAllocator = some a := by
    cases ha : s.cachePageAllocator with
    | none => simp [Scheduler.release, Scheduler.idle, ha] at ha'
    | some a => exact ⟨a, rfl⟩
  have hva := hv a ha
  obtain rfl : (a.release xs).release ys = a' := by
    simpa [Scheduler.release, Scheduler.idle, ha] using ha'
  refine ⟨⟨(a.release ys).release xs, by simp [Scheduler.release, Scheduler.idle, ha],
    (hva.release _).release _, hpa, ?_⟩, h.chunk_ne_zero, h.placed, h.waiting, h.taken, h.executed,
    h.cache_offset, h.pending, h.shared_eq⟩
  have hcomm : ((a.release ys).release xs).allocatedPageIndices =
      ((a.release xs).release ys).allocatedPageIndices := by
    rw [(hva.release _).allocated_release, hva.allocated_release, (hva.release _).allocated_release,
      hva.allocated_release]
    exact sdiff_right_comm _ _ _
  rw [hcomm]
  exact hex

theorem abortDecodePending (h : Ownership p { s with decodeQueue := r :: s.decodeQueue }.idle)
    (hu : s.Unreferenced e) :
    Ownership p ((s.releaseUnpublishedCachePages e).releaseRequestCachePages r).idle := by
  have hv : ∀ a, s.cachePageAllocator = some a → a.Valid := by
    intro a ha
    obtain ⟨a', ha', hv, -⟩ := h.exclusive
    obtain rfl : a = a' := Option.some.inj (ha.symm.trans ha')
    exact hv
  have habort := h.abortDecode
  rw [Scheduler.releaseRequestCachePages_eq] at habort ⊢
  have hu' : (s.release (s.ownedSlots r)).Unreferenced e := by
    have hsize : (s.release (s.ownedSlots r)).pageSize = s.pageSize := by
      unfold Scheduler.pageSize Scheduler.release
      cases s.cachePageAllocator <;> rfl
    intro g hg x hx
    rw [hsize] at hg ⊢
    exact hu g hg x hx
  exact release_comm hv (habort.release_of_unreferenced hu')

theorem flush (h : Ownership p s.idle) (hw : s.waitingQueue = []) (hd : s.decodeQueue = []) :
    Ownership p s.flushCache.1.idle := by
  obtain ⟨a, ha, hv, hpa, -⟩ := h.exclusive
  have ha : s.cachePageAllocator = some a := ha
  have hlive : s.idle.live = [] := by simp [Config.live, Scheduler.idle, hw, hd]
  rw [Scheduler.flushCache, if_neg (by simp [hw, hd])]
  have hshared : Config.shared (Scheduler.idle { s with
      prefixCache := s.prefixCache.clear
      pendingPrefixCacheInserts := []
      cachePageAllocator := s.cachePageAllocator.map CachePageAllocator.reset }) = ∅ := by
    refine Set.subset_empty_iff.mp (Config.shared_subset ?_ ?_ ?_)
    · exact fun x hx => absurd hx (RadixCache.not_holds_clear (c := s.prefixCache) x)
    · intro r hr
      have hr : r ∈ s.idle.live := hr
      rw [hlive] at hr
      cases hr
    · exact fun e he => absurd he (by simp [Scheduler.idle])
  refine ⟨⟨a.reset, by simp [Scheduler.idle, ha], hv.reset, hpa, ?_⟩, h.chunk_ne_zero, h.placed,
    h.waiting, h.taken, h.executed, fun w x hx => ?_, by simp [Scheduler.idle], fun _ => hshared⟩
  · rw [hshared]
    have hlive' : Config.live (Scheduler.idle { s with
      prefixCache := s.prefixCache.clear
      pendingPrefixCacheInserts := []
      cachePageAllocator := s.cachePageAllocator.map CachePageAllocator.reset }) = [] := hlive
    rw [hlive']
    exact Exclusive.nil_empty p _
  · exact absurd hx (by simp [Scheduler.idle])

end Ownership

/-! ### All moves -/

/-- **Every move keeps the ownership invariant**, provided pending inserts are released only when
no slot in use lies on their pages. -/
theorem Move.ownership {G : Guard W} {c c' : Config W} (h : Move G c c')
    (hG : c.scheduler.pendingPrefixCacheInserts ≠ [] →
      ∀ s e, G.releasePending s e → s.Unreferenced e)
    (hc : Ownership p c) : Ownership p c' := by
  cases h with
  | worker s t d worker =>
    exact ⟨hc.exclusive, hc.chunk_ne_zero, hc.placed, hc.waiting, hc.taken, hc.executed,
      hc.cache_offset, hc.pending, hc.shared_eq⟩
  | reorder s t d hw hd hp ht => exact hc.reorder hw hd hp ht
  | enqueue s t d n _ => exact hc.enqueue n
  | @takePrefill s t d r queue k s' r' hq hk hp =>
    have hc' : Ownership p ⟨{ s with waitingQueue := r :: queue }, t, d⟩ := by
      rw [← hq]
      exact hc
    exact Ownership.takePrefill (s := { s with waitingQueue := queue }) hc' (hk hc.chunk_ne_zero) hp
  | @takeFailed s t d r queue k s' r' error hq hp =>
    have hc' : Ownership p ⟨{ s with waitingQueue := r :: queue }, t, d⟩ := by
      rw [← hq]
      exact hc
    obtain ⟨rfl, rfl, -⟩ := Scheduler.eq_outOfSlots_of_preparePrefillRequestChunk hp
    exact Ownership.takeFailed (s := { s with waitingQueue := queue }) hc'
  | @deferFailed s t d r queue k s' r' error hq hp =>
    have hc' : Ownership p ⟨{ s with waitingQueue := r :: queue }, t, d⟩ := by
      rw [← hq]
      exact hc
    obtain ⟨rfl, rfl, -⟩ := Scheduler.eq_outOfSlots_of_preparePrefillRequestChunk hp
    exact Ownership.deferFailed (s := { s with waitingQueue := queue }) hc'
  | undoPrefill hstage _ => exact hc.undoPrefill hstage
  | @takeDecode s t d r queue s' r' hq hp =>
    have hc' : Ownership p ⟨{ s with decodeQueue := r :: queue }, t, d⟩ := by
      rw [← hq]
      exact hc
    exact Ownership.takeDecode (s := { s with decodeQueue := queue }) hc' hp
  | undoDecode _ => exact hc.undoDecode
  | lose _ _ => exact hc.lose
  | park _ => exact hc.park
  | fail _ => exact hc.fail
  | executeDecode hstage => exact hc.executeDecode (by simp [hstage])
  | skipChunk hstage _ _ => exact hc.skipChunk hstage
  | publishChunk hstage hpolicy _ => exact hc.publishChunk hstage hpolicy
  | pendChunk hstage hpolicy _ => exact hc.pendChunk hstage hpolicy
  | stageError hstage _ _ => exact hc.stageError hstage
  | requeueChunk hstage hincomplete => exact hc.requeueChunk hstage hincomplete
  | requeueToken tokenIds _ _ => exact hc.requeue rfl rfl rfl rfl
  | finish tokenIds _ _ => exact hc.finish tokenIds
  | finishError tokenIds _ _ _ => exact hc.requeue rfl rfl rfl rfl
  | @abortWaiting s r queue hq =>
    have hc' : Ownership p { s with waitingQueue := r :: queue }.idle := by
      rw [← hq]
      exact hc
    exact Ownership.abortWaiting (s := { s with waitingQueue := queue }) hc'
  | @abortDecode s r queue hq =>
    have hc' : Ownership p { s with decodeQueue := r :: queue }.idle := by
      rw [← hq]
      exact hc
    exact Ownership.abortDecode (s := { s with decodeQueue := queue }) hc'
  | @abortDecodePending s r queue e pending hq hp hg =>
    have hc' : Ownership p
        { s with decodeQueue := r :: queue, pendingPrefixCacheInserts := e :: pending }.idle := by
      rw [← hq, ← hp]
      exact hc
    have hlose := Ownership.losePending (s := { s with decodeQueue := r :: queue }) hc'
    exact Ownership.abortDecodePending
      (s := { s with decodeQueue := queue, pendingPrefixCacheInserts := pending }) hlose
      (hG (by simp [Scheduler.idle, hp]) _ _ hg)
  | @publishPending s e pending hp hg =>
    have hc' : Ownership p { s with pendingPrefixCacheInserts := e :: pending }.idle := by
      rw [← hp]
      exact hc
    exact hc'.publishPending
  | @releasePending s e pending hp hg =>
    have hc' : Ownership p { s with pendingPrefixCacheInserts := e :: pending }.idle := by
      rw [← hp]
      exact hc
    exact hc'.losePending.release_of_unreferenced (hG (by simp [Scheduler.idle, hp]) _ _ hg)
  | @failTransfer s r queue e pending hq hp hg _ =>
    have hc' : Ownership p
        { s with decodeQueue := r :: queue, pendingPrefixCacheInserts := e :: pending }.idle := by
      rw [← hq, ← hp]
      exact hc
    have hdrop := Ownership.dropDecode
      (s := { s with decodeQueue := queue, pendingPrefixCacheInserts := e :: pending }) hc'
    have hlose := Ownership.losePending (s := { s with decodeQueue := queue }) hdrop
    exact hlose.release_of_unreferenced (hG (by simp [Scheduler.idle, hp]) _ _ hg)
  | @losePending s e pending hp _ =>
    have hc' : Ownership p { s with pendingPrefixCacheInserts := e :: pending }.idle := by
      rw [← hp]
      exact hc
    exact hc'.losePending
  | flush hw hd => exact hc.flush hw hd

end SglangRs
