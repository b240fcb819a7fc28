import SglangRs.Paging.Ownership
import SglangRs.Scheduler.Refinement

/-!
# Who owns a page

Slots are shared through the prefix cache without reference counts, so it is not obvious that a page
is released only when nobody uses it. This file states the discipline the scheduler follows, as an
invariant of configurations, and what preparing, executing and clearing a single request means for
it.

The slots of a request are those of its cached prefix, which belong to the prefix cache, followed by
its own. Since a prefix is matched in whole pages, the own slots start a page, and they are laid out
on pages no other request starts. The slots of processed prompt tokens may be shared, through the
prefix cache or a pending insert; all slots released on the various paths lie after them.

Releasing a pending insert is the exception: it releases the slots of one chunk whether or not the
request they were allocated for is still queued. The invariant is kept if nothing refers to these
slots any more.

## Main definitions

* `ScheduledRequest.owner`: the request as an owner of pages.
* `Ownership`: the invariant.
* `Scheduler.References`, `Scheduler.Unreferenced`: the slots in use.

## Main results

* `ScheduledRequest.withPrefix_spec`: the prefix attached to a request belongs to the prefix cache.
* `ScheduledRequest.allocate_spec`: slots allocated for a request continue its own.
* `RadixCache.slotAt_published`: what the prefix cache holds after a prompt was published.

`SglangRs.Scheduler.OwnershipMoves` shows that every move keeps the invariant.
-/

namespace SglangRs

open Paging Transition

variable {W : Type} {p : ℕ}

namespace ScheduledRequest

variable (r : ScheduledRequest)

/-- A request owns the slots past its cached prefix; those of processed prompt tokens may be
shared. -/
def owner : Owner :=
  ⟨r.sequenceCachePages.drop r.cacheHitTokenCount,
    r.promptTokensProcessed - r.cacheHitTokenCount⟩

/-- The slots a request has without those of the chunk it is prepared for. -/
def keptSlots : List ℕ :=
  r.sequenceCachePages.take (r.sequenceCachePages.length - r.allocatedCachePages.length)

/-- The slots of a request follow the token positions through the pages. -/
structure Placed (p : ℕ) : Prop where
  hit_dvd : p ∣ r.cacheHitTokenCount
  hit_le : r.cacheHitTokenCount ≤ r.sequenceCachePages.length
  hit_le_input : r.cacheHitTokenCount ≤ r.inputIds.length
  processed_le : r.promptTokensProcessed ≤ r.sequenceCachePages.length
  processed_le_input : r.promptTokensProcessed ≤ r.inputIds.length
  offset : ∀ i x, r.sequenceCachePages[i]? = some x → x % p = i % p

/-- A waiting request carries no chunk, and nothing of its own before its first chunk. -/
structure Waiting : Prop where
  stage_eq : r.stage = .prefillWaiting
  allocated_eq : r.allocatedCachePages = []
  fresh : r.promptTokensProcessed = 0 → r.sequenceCachePages.length ≤ r.cacheHitTokenCount

/-- The last token of a fully cached prompt is replayed in the slot `x`. -/
structure ReplaysIn (x : ℕ) : Prop where
  allocated_eq : r.allocatedCachePages = []
  forward_eq : r.forwardCachePages = [x]
  hit_eq : r.cacheHitTokenCount = r.inputIds.length
  processed_eq : r.promptTokensProcessed + 1 = r.inputIds.length
  last_eq : r.sequenceCachePages.getLast? = some x

/-- A request taken for a batch: the chunk it is prepared for comes after the slots it keeps. -/
structure Taken : Prop where
  seq_eq : r.sequenceCachePages = r.keptSlots ++ r.allocatedCachePages
  processed_le_kept : r.promptTokensProcessed ≤ r.keptSlots.length
  hit_le_kept : r.cacheHitTokenCount ≤ r.keptSlots.length
  fresh : r.stage ≠ .decodeForward → r.promptTokensProcessed = 0 →
    r.keptSlots.length ≤ r.cacheHitTokenCount
  chunk_le : r.stage = .prefillForward →
    r.promptTokensProcessed + r.currentChunkLen ≤ r.sequenceCachePages.length
  chunk_pos : r.stage = .prefillForward → r.currentChunkLen = 0 →
    r.inputIds.length ≤ r.promptTokensProcessed
  forward : r.stage ≠ .prefillWaiting →
    r.forwardCachePages = r.allocatedCachePages ∨ ∃ x, r.ReplaysIn x

/-- A request whose prompt is not complete has made progress. -/
def Progressed : Prop :=
  r.stage = .prefillForward → r.isPrefillComplete = false → r.promptTokensProcessed ≠ 0

end ScheduledRequest

namespace Scheduler

variable (s : Scheduler W)

/-- The slots in use: those the prefix cache holds, those of queued requests and those of pending
inserts. -/
def References (x : ℕ) : Prop :=
  s.prefixCache.Holds x ∨
    (∃ r ∈ s.waitingQueue ++ s.decodeQueue, x ∈ r.sequenceCachePages) ∨
    ∃ e ∈ s.pendingPrefixCacheInserts, x ∈ e.sequenceCachePages

/-- No slot in use lies on a page started by the slots `e` carries. -/
def Unreferenced (e : ScheduledRequest) : Prop :=
  ∀ g ∈ firstPages s.pageSize e.allocatedCachePages, ∀ x, s.References x → x / s.pageSize ≠ g

end Scheduler

/-- The slots that are or may become shared. -/
def Config.shared (c : Config W) : Set ℕ :=
  { x | c.scheduler.prefixCache.Holds x ∨
    (∃ r ∈ c.live, x ∈ r.sequenceCachePages.take r.cacheHitTokenCount) ∨
    ∃ e ∈ c.scheduler.pendingPrefixCacheInserts,
      x ∈ e.sequenceCachePages.take e.promptTokensProcessed }

/-- **The ownership invariant.** -/
structure Ownership (p : ℕ) (c : Config W) : Prop where
  exclusive : ∃ a, c.scheduler.cachePageAllocator = some a ∧ a.Valid ∧ a.pageSize = p ∧
    Exclusive p a.allocatedPageIndices (c.live.map ScheduledRequest.owner) c.shared
  chunk_ne_zero : c.scheduler.chunkedPrefillSize ≠ some 0
  placed : ∀ r ∈ c.live, r.Placed p
  waiting : ∀ r ∈ c.scheduler.waitingQueue, r.Waiting
  taken : ∀ r ∈ c.taken, r.Taken
  executed : ∀ r ∈ c.executed, r.Progressed
  cache_offset : ∀ w x, c.scheduler.prefixCache.slotAt w = some x → x % p = (w.length - 1) % p
  pending : ∀ e ∈ c.scheduler.pendingPrefixCacheInserts, e.Placed p
  shared_eq : c.scheduler.prefixCachePolicy = .disabled → c.shared = ∅

namespace Config

variable {c c' : Config W} {r : ScheduledRequest}

theorem mem_live : r ∈ c.live ↔ r ∈ c.scheduler.waitingQueue ∨ r ∈ c.scheduler.decodeQueue ∨
    r ∈ c.taken ∨ r ∈ c.executed := by
  simp [live]

theorem shared_subset {S : Set ℕ} (hcache : ∀ x, c.scheduler.prefixCache.Holds x → x ∈ S)
    (hlive : ∀ r ∈ c.live, ∀ x ∈ r.sequenceCachePages.take r.cacheHitTokenCount, x ∈ S)
    (hpending : ∀ e ∈ c.scheduler.pendingPrefixCacheInserts,
      ∀ x ∈ e.sequenceCachePages.take e.promptTokensProcessed, x ∈ S) : c.shared ⊆ S := by
  rintro x (hx | ⟨r, hr, hx⟩ | ⟨e, he, hx⟩)
  · exact hcache x hx
  · exact hlive r hr x hx
  · exact hpending e he x hx

/-- What is shared depends on the prefix cache, the live requests and the pending inserts. -/
theorem shared_mono (hcache : c'.scheduler.prefixCache = c.scheduler.prefixCache)
    (hlive : ∀ r ∈ c'.live, r ∈ c.live)
    (hpending : ∀ e ∈ c'.scheduler.pendingPrefixCacheInserts,
      e ∈ c.scheduler.pendingPrefixCacheInserts) : c'.shared ⊆ c.shared :=
  shared_subset (fun _ hx => .inl (hcache ▸ hx)) (fun r hr _ hx => .inr (.inl ⟨r, hlive r hr, hx⟩))
    (fun e he _ hx => .inr (.inr ⟨e, hpending e he, hx⟩))

section Perm

variable (s : Scheduler W) (t d q : List ScheduledRequest)

theorem live_cons_decode :
    (⟨{ s with decodeQueue := r :: q }, t, d⟩ : Config W).live.Perm
      (r :: (⟨{ s with decodeQueue := q }, t, d⟩ : Config W).live) := by
  simp only [live, List.append_assoc, List.cons_append]
  exact List.perm_middle

theorem live_cons_taken :
    (⟨s, r :: t, d⟩ : Config W).live.Perm (r :: (⟨s, t, d⟩ : Config W).live) := by
  have hmiddle : (s.waitingQueue ++ s.decodeQueue ++ r :: (t ++ d)).Perm
      (r :: (s.waitingQueue ++ s.decodeQueue ++ (t ++ d))) := List.perm_middle
  simpa only [live, List.append_assoc, List.cons_append] using hmiddle

theorem live_cons_executed :
    (⟨s, t, r :: d⟩ : Config W).live.Perm (r :: (⟨s, t, d⟩ : Config W).live) :=
  List.perm_middle

theorem live_park : (⟨s.park r, t, d⟩ : Config W).live.Perm (r :: (⟨s, t, d⟩ : Config W).live) := by
  have hmiddle : (s.waitingQueue ++ s.decodeQueue ++ r :: (t ++ d)).Perm
      (r :: (s.waitingQueue ++ s.decodeQueue ++ (t ++ d))) := List.perm_middle
  simpa only [live, Scheduler.park, List.append_assoc, List.cons_append, List.nil_append]
    using hmiddle

end Perm

end Config

/-! ### The prefix cache -/

/-- A slot of the prefix cache after a prompt was offered to it was there before or is a slot of the
prompt. -/
theorem RadixCache.slotAt_published {c : RadixCache} {r : ScheduledRequest} {k : ℕ}
    (hseq : k ≤ r.sequenceCachePages.length) (hinput : k ≤ r.inputIds.length) {w : List UInt32}
    {x : ℕ} (hx : (c.published r k).slotAt w = some x) :
    c.slotAt w = some x ∨
      ∃ i < k, r.sequenceCachePages[i]? = some x ∧ w = r.inputIds.take (i + 1) := by
  rw [slotAt_published_eq hseq hinput] at hx
  split_ifs at hx with hw
  · obtain ⟨hne, hpre⟩ := hw
    have hlen : w.length ≤ k := hpre.length_le.trans (List.length_take_le _ _)
    have hpos : 0 < w.length := List.length_pos_iff.mpr hne
    refine .inr ⟨w.length - 1, by omega, hx, ?_⟩
    rw [Nat.sub_add_cancel hpos]
    have hpre' := hpre.trans (List.take_prefix k r.inputIds)
    exact List.prefix_iff_eq_take.mp hpre'
  · exact .inl hx

/-! ### Single requests -/

namespace ScheduledRequest

variable {r : ScheduledRequest} {slots : List ℕ}

theorem keptSlots_of_nil (h : r.allocatedCachePages = []) :
    r.keptSlots = r.sequenceCachePages := by
  simp [keptSlots, h]

theorem keptSlots_of_append {base : List ℕ}
    (h : r.sequenceCachePages = base ++ r.allocatedCachePages) : r.keptSlots = base := by
  simp [keptSlots, h]

@[simp] theorem sequenceCachePages_clearForwardCacheAllocation :
    r.clearForwardCacheAllocation.sequenceCachePages = r.keptSlots := by
  unfold clearForwardCacheAllocation keptSlots
  dsimp only
  split_ifs with h
  · rfl
  · rw [Nat.eq_zero_of_not_pos h, Nat.sub_zero, List.take_length]

theorem owner_recordAllocation (hr : r.Placed p) :
    (r.recordAllocation slots).owner = { r.owner with slots := r.owner.slots ++ slots } := by
  simp only [owner, recordAllocation, Owner.mk.injEq, and_true]
  exact List.drop_append_of_le_length hr.hit_le

/-- The slots of a prompt before the cached prefix ends and after it. -/
theorem mem_take_iff {k x : ℕ} (hk : r.cacheHitTokenCount ≤ k) :
    x ∈ r.sequenceCachePages.take k ↔ x ∈ r.sequenceCachePages.take r.cacheHitTokenCount ∨
      x ∈ r.owner.slots.take (k - r.cacheHitTokenCount) := by
  have hsplit : r.sequenceCachePages.take k = r.sequenceCachePages.take r.cacheHitTokenCount ++
      r.owner.slots.take (k - r.cacheHitTokenCount) := by
    have hsum : r.cacheHitTokenCount + (k - r.cacheHitTokenCount) = k := by omega
    conv_lhs => rw [← hsum, List.take_add]
    rfl
  rw [hsplit, List.mem_append]

/-- Slots allocated for a request continue its own. -/
theorem allocate_spec {a a' : CachePageAllocator} (ha : a.Valid) (hp : a.pageSize = p)
    (hr : r.Placed p) {rest : List Owner} {shared : Set ℕ}
    (hex : Exclusive p a.allocatedPageIndices (r.owner :: rest) shared) {n : ℕ}
    (halloc : a.allocateForSequence r.sequenceCachePages n = .ok (a', slots)) :
    a'.Valid ∧ a'.pageSize = p ∧ slots.length = n ∧
      Exclusive p a'.allocatedPageIndices ((r.recordAllocation slots).owner :: rest) shared ∧
      (r.recordAllocation slots).Placed p := by
  subst hp
  obtain ⟨fresh, hfresh⟩ := CachePageAllocator.allocates_of_allocateForSequence ha.pageSize_pos
    halloc
  have hpaged : Paged a.pageSize (r.owner.slots ++ slots) :=
    hfresh.paged_append ha.pageSize_pos hr.hit_dvd hr.hit_le hr.offset
      (hex.paged _ List.mem_cons_self) (hex.owned_allocated _ List.mem_cons_self)
  refine ⟨hfresh.valid ha, hfresh.pageSize_eq, hfresh.length_slots, ?_, ?_⟩
  · rw [owner_recordAllocation hr, hfresh.allocated_eq]
    exact hex.grow hpaged (hfresh.firstPages_slots ha.pageSize_pos) (hfresh.nodup_fresh ha)
      fun g hg => hfresh.fresh_notMem ha hg
  · refine ⟨hr.hit_dvd, ?_, hr.hit_le_input, ?_, hr.processed_le_input, fun i x hx => ?_⟩
    · exact hr.hit_le.trans (by simp [recordAllocation])
    · exact hr.processed_le.trans (by simp [recordAllocation])
    · rcases Nat.lt_or_ge i r.cacheHitTokenCount with hi | hi
      · refine hr.offset i x ?_
        rwa [recordAllocation, List.getElem?_append_left (hi.trans_le hr.hit_le)] at hx
      · have hown : (r.owner.slots ++ slots)[i - r.cacheHitTokenCount]? = some x := by
          have hdrop : r.owner.slots ++ slots =
              (r.sequenceCachePages ++ slots).drop r.cacheHitTokenCount :=
            (List.drop_append_of_le_length hr.hit_le).symm
          rw [hdrop, List.getElem?_drop, Nat.add_sub_cancel' hi]
          exact hx
        obtain ⟨hlt, rfl⟩ := List.getElem?_eq_some_iff.mp hown
        obtain ⟨m, hm⟩ := hr.hit_dvd
        rw [hpaged.mod_getElem hlt, hm]
        conv_rhs => rw [← Nat.sub_add_cancel hi, hm, Nat.add_mul_mod_self_left]

/-- The prefix attached to a waiting request belongs to the prefix cache. -/
theorem withPrefix_spec {s : Scheduler W} (hp : 0 < p) (hs : s.pageSize = p) (hr : r.Placed p)
    (hw : r.Waiting) {allocated : Finset ℕ} {rest : List Owner} {shared : Set ℕ}
    (hex : Exclusive p allocated (r.owner :: rest) shared)
    (hcache : ∀ w x, s.prefixCache.slotAt w = some x → x % p = (w.length - 1) % p) :
    Exclusive p allocated ((s.withPrefix r).owner :: rest) shared ∧ (s.withPrefix r).Placed p ∧
      (s.withPrefix r).Waiting ∧
      ∀ x ∈ (s.withPrefix r).sequenceCachePages.take (s.withPrefix r).cacheHitTokenCount,
        x ∈ r.sequenceCachePages.take r.cacheHitTokenCount ∨
          s.prefixCachePolicy = .enabled ∧ s.prefixCache.Holds x := by
  by_cases h0 : r.promptTokensProcessed = 0
  · have hseq := Scheduler.sequenceCachePages_withPrefix (s := s) h0
    have hhit := Scheduler.cacheHitTokenCount_withPrefix (s := s) h0
    have hlen := s.length_lookupPrefix r.inputIds
    have hle := s.matchedTokenCount_lookupPrefix_le r.inputIds
    have hown : (s.withPrefix r).owner.slots = [] := by
      simp only [owner, hseq, hhit]
      exact List.drop_of_length_le hlen.le
    have hprocessed : (s.withPrefix r).promptTokensProcessed ≤
        (s.lookupPrefix r.inputIds).matchedTokenCount := by
      rcases Scheduler.promptTokensProcessed_withPrefix (s := s) h0 with ⟨-, h⟩ | ⟨-, h, -⟩ <;> omega
    refine ⟨hex.tail.cons_of_nil hp hown, ⟨?_, ?_, ?_, ?_, ?_, ?_⟩, ⟨?_, ?_, ?_⟩, ?_⟩
    · rw [hhit, ← hs]
      exact s.pageSize_dvd_lookupPrefix r.inputIds
    · rw [hhit, hseq, hlen]
    · rw [hhit, s.inputIds_withPrefix]
      exact hle
    · rw [hseq, hlen]
      exact hprocessed
    · rw [s.inputIds_withPrefix]
      exact hprocessed.trans hle
    · intro i x hx
      rw [hseq] at hx
      have hi : i < r.inputIds.length :=
        ((List.getElem?_eq_some_iff.mp hx).1.trans_le hlen.le).trans_le hle
      have hslot := hcache _ _ (s.slotAt_of_lookupPrefix r.inputIds hx).2
      rwa [List.length_take, Nat.min_eq_left hi, Nat.succ_sub_one] at hslot
    · rw [s.stage_withPrefix, hw.stage_eq]
    · rw [s.allocatedCachePages_withPrefix, hw.allocated_eq]
    · intro _
      rw [hseq, hhit, hlen]
    · intro x hx
      rw [hseq] at hx
      obtain ⟨i, hi⟩ := List.mem_iff_getElem?.mp (List.mem_of_mem_take hx)
      obtain ⟨henabled, hslot⟩ := s.slotAt_of_lookupPrefix r.inputIds hi
      exact .inr ⟨henabled, _, hslot⟩
  · rw [Scheduler.withPrefix_of_ne h0]
    exact ⟨hex, hr, hw, fun x hx => .inl hx⟩

theorem Waiting.taken (hw : r.Waiting) (hr : r.Placed p) : r.Taken where
  seq_eq := by rw [keptSlots_of_nil hw.allocated_eq, hw.allocated_eq, List.append_nil]
  processed_le_kept := keptSlots_of_nil hw.allocated_eq ▸ hr.processed_le
  hit_le_kept := keptSlots_of_nil hw.allocated_eq ▸ hr.hit_le
  fresh := fun _ h0 => keptSlots_of_nil hw.allocated_eq ▸ hw.fresh h0
  chunk_le := by simp [hw.stage_eq]
  chunk_pos := by simp [hw.stage_eq]
  forward := by simp [hw.stage_eq]

/-- A prepared chunk. -/
theorem Waiting.taken_recordAllocation (hw : r.Waiting) (hr : r.Placed p) {k : ℕ} (hk : k ≠ 0)
    (hlen : slots.length = min r.remainingPromptTokens k) :
    Taken { r.recordAllocation slots with
      currentChunkLen := min r.remainingPromptTokens k, stage := .prefillForward } := by
  have hkept : keptSlots { r.recordAllocation slots with
      currentChunkLen := min r.remainingPromptTokens k, stage := .prefillForward } =
      r.sequenceCachePages := keptSlots_of_append rfl
  refine ⟨?_, ?_, ?_, ?_, ?_, ?_, fun _ => .inl rfl⟩
  · rw [hkept]
    rfl
  · rw [hkept]
    exact hr.processed_le
  · rw [hkept]
    exact hr.hit_le
  · rw [hkept]
    exact fun _ => hw.fresh
  · intro _
    have := hr.processed_le
    simp only [recordAllocation, List.length_append]
    omega
  · intro _ h0
    have hrem : r.remainingPromptTokens = 0 := by
      have : min r.remainingPromptTokens k = 0 := h0
      omega
    exact Nat.le_of_sub_eq_zero hrem

/-- A replayed prompt. -/
theorem taken_replay {s : Scheduler W} (hrep : s.Replays r) (hw : (s.withPrefix r).Waiting)
    (hr : (s.withPrefix r).Placed p) :
    Taken { s.withPrefix r with currentChunkLen := 1, stage := .prefillForward } := by
  obtain ⟨h0, -, hne, hall⟩ := Scheduler.replays_iff.mp hrep
  have hpos : 0 < r.inputIds.length := List.length_pos_iff.mpr hne
  have hseq := Scheduler.sequenceCachePages_withPrefix (s := s) h0
  have hlen := s.length_lookupPrefix r.inputIds
  rcases Scheduler.promptTokensProcessed_withPrefix (s := s) h0 with ⟨h, -⟩ | ⟨-, hproc, x, hfwd, hx⟩
  · exact absurd hrep h
  have hbase := hw.taken hr
  refine ⟨hbase.seq_eq, hbase.processed_le_kept, hbase.hit_le_kept, ?_, ?_, ?_, ?_⟩
  · exact fun _ => hbase.fresh (by rw [hw.stage_eq]; decide)
  · intro _
    simp only [hproc, hseq, hlen]
    omega
  · intro _ h
    exact absurd h (by simp)
  · refine fun _ => .inr ⟨x, hw.allocated_eq, hfwd, ?_, ?_, hx⟩
    · simp only [Scheduler.cacheHitTokenCount_withPrefix h0, s.inputIds_withPrefix, hall]
    · simp only [hproc, s.inputIds_withPrefix]
      omega

namespace Taken

/-- The own slots of a request taken for a batch. -/
theorem owner_slots (ht : r.Taken) :
    r.owner.slots = r.keptSlots.drop r.cacheHitTokenCount ++ r.allocatedCachePages := by
  have hseq := ht.seq_eq
  simp only [owner]
  conv_lhs => rw [hseq]
  exact List.drop_append_of_le_length ht.hit_le_kept

theorem published_le (ht : r.Taken) :
    r.owner.published ≤ (r.keptSlots.drop r.cacheHitTokenCount).length := by
  rw [List.length_drop]
  exact Nat.sub_le_sub_right ht.processed_le_kept _

theorem take_keptSlots (ht : r.Taken) :
    r.keptSlots.take r.cacheHitTokenCount =
      r.sequenceCachePages.take r.cacheHitTokenCount := by
  conv_rhs => rw [ht.seq_eq]
  exact (List.take_append_of_le_length ht.hit_le_kept).symm

/-- A request that gives its chunk up is placed as before. -/
theorem placed_clear (ht : r.Taken) (hr : r.Placed p) (stage : RequestStage) :
    (r.clearForwardCacheAllocation.setStage stage).Placed p := by
  have hseq : (r.clearForwardCacheAllocation.setStage stage).sequenceCachePages = r.keptSlots :=
    sequenceCachePages_clearForwardCacheAllocation
  refine ⟨hr.hit_dvd, hseq ▸ ht.hit_le_kept, hr.hit_le_input, hseq ▸ ht.processed_le_kept,
    hr.processed_le_input, fun i x hx => ?_⟩
  rw [hseq, keptSlots, List.getElem?_take] at hx
  split_ifs at hx
  exact hr.offset i x hx

/-- A chunk that is executed fits into the slots of the request. -/
theorem advance_le (ht : r.Taken) (hr : r.Placed p) (hstage : r.stage = .prefillForward) :
    r.advanceChunk.promptTokensProcessed ≤ r.sequenceCachePages.length := by
  have hchunk := ht.chunk_le hstage
  have hpos := ht.chunk_pos hstage
  have hle := hr.processed_le
  simp only [advanceChunk, advancePromptTokens, Scheduler.forwardedChunkLen]
  split_ifs with h
  · exact (Nat.min_le_left _ _).trans hchunk
  · have := hpos (Nat.eq_zero_of_not_pos h)
    exact (Nat.min_le_right _ _).trans (this.trans hle)

theorem progressed_advance (ht : r.Taken) (hstage : r.stage = .prefillForward) :
    r.advanceChunk.Progressed := by
  intro _ hincomplete
  have hpos := ht.chunk_pos hstage
  simp only [isPrefillComplete, advanceChunk, advancePromptTokens, Scheduler.forwardedChunkLen,
    decide_eq_false_iff_not, ge_iff_le, Nat.not_le] at hincomplete ⊢
  split_ifs at hincomplete ⊢ with h
  · omega
  · have := hpos (Nat.eq_zero_of_not_pos h)
    omega

end Taken

theorem placed_advanceChunk (hr : r.Placed p)
    (hle : r.advanceChunk.promptTokensProcessed ≤ r.sequenceCachePages.length) :
    r.advanceChunk.Placed p :=
  ⟨hr.hit_dvd, hr.hit_le, hr.hit_le_input, hle, Nat.min_le_right _ _, hr.offset⟩

theorem processed_le_advanceChunk (hr : r.Placed p) :
    r.promptTokensProcessed ≤ r.advanceChunk.promptTokensProcessed := by
  have := hr.processed_le_input
  simp only [advanceChunk, advancePromptTokens]
  omega

@[simp] theorem owner_clear (stage : RequestStage) :
    (r.clearForwardCacheAllocation.setStage stage).owner =
      { r.owner with slots := r.keptSlots.drop r.cacheHitTokenCount } := by
  have hseq : (r.clearForwardCacheAllocation.setStage stage).sequenceCachePages = r.keptSlots :=
    sequenceCachePages_clearForwardCacheAllocation
  rw [owner, hseq]
  rfl

end ScheduledRequest

end SglangRs
