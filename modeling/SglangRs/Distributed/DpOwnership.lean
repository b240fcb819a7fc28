import Mathlib.Algebra.Order.Group.Multiset
import Mathlib.Tactic.Abel
import SglangRs.Distributed.DpOrigins
import SglangRs.Paging.Ownership

/-!
# Pages of the data-parallel scheduler

The prefix cache and the requests refer to slots; a slot that is referred to should lie on a page
that its rank has allocated. On every rank the requests that are pinned to it share pages by the
discipline of `Paging.Exclusive`: a request owns the slots past its cached prefix, and those of its
prompt are published.

The scheduler leaves this discipline at one place. When a request finishes, all its own slots are
released, the published ones included. The discipline survives if no slot in use lies on the pages
that these slots start.

## Main definitions

* `DpRequest.owner`: the request as an owner of pages.
* `Owned`: the discipline, on all ranks at once.
* `DpScheduler.References`: the slots in use.
* `DpScheduler.KeepsPages`: a request that finishes starts no page in use.

## Main results

* `DpScheduler.slots_allocated`: in runs that meet this condition, slots in use lie on allocated
  pages, and a slot that has been handed out is used by nobody else.
-/

namespace SglangRs

open Paging Transition

/-! ### Requests as owners -/

namespace DpRequest

variable (q : DpRequest)

/-- The request is pinned to the rank. -/
def PinnedTo (rank : ℕ) : Prop := q.request.dataParallelRank = (rank : ℤ)

instance (rank : ℕ) : Decidable (q.PinnedTo rank) := inferInstanceAs (Decidable (_ = _))

/-- A request owns the slots past its cached prefix; those of processed prompt tokens are shared
unless the request skips the prefix cache. -/
def owner : Owner :=
  ⟨q.ownSlots,
    if q.request.skipsRadixCacheInsert then 0
    else q.request.promptTokensProcessed - q.request.cacheHitTokenCount⟩

/-- The slots of the request that come from a rank. -/
def slotsFrom (rank : ℕ) : Set ℕ :=
  { x | ∃ k : ℕ, q.request.sequenceCachePages[k]? = some x ∧ q.origins[k]? = some rank }

/-- The slots of the cached prefix that come from a rank. -/
def matchedSlots (rank : ℕ) : Set ℕ :=
  { x | ∃ k < q.request.cacheHitTokenCount,
    q.request.sequenceCachePages[k]? = some x ∧ q.origins[k]? = some rank }

/-- The slots of the request follow the token positions through the pages. -/
structure Laid (p : ℕ) : Prop extends q.Placed where
  hit_dvd : p ∣ q.request.cacheHitTokenCount
  hit_le_length : q.request.cacheHitTokenCount ≤ q.request.sequenceCachePages.length
  processed_le : q.request.promptTokensProcessed ≤ q.request.inputIds.length
  offset : ∀ i x, q.request.sequenceCachePages[i]? = some x → x % p = i % p

variable {q} {p : ℕ} {rank : ℕ}

theorem published_le :
    q.owner.published ≤ q.request.promptTokensProcessed - q.request.cacheHitTokenCount := by
  unfold owner
  dsimp only
  split_ifs
  · exact Nat.zero_le _
  · exact le_rfl

/-- A slot of a request belongs to its cached prefix or is its own. -/
theorem Placed.slotsFrom_cases (h : q.Placed) {x : ℕ} (hx : x ∈ q.slotsFrom rank) :
    x ∈ q.matchedSlots rank ∨ q.PinnedTo rank ∧ x ∈ q.ownSlots := by
  obtain ⟨k, hslot, horigin⟩ := hx
  rcases Nat.lt_or_ge k q.request.cacheHitTokenCount with hk | hk
  · exact .inl ⟨k, hk, hslot, horigin⟩
  · refine .inr ⟨h.origin k rank hk horigin, List.mem_iff_getElem?.mpr
      ⟨k - q.request.cacheHitTokenCount, ?_⟩⟩
    rw [ownSlots, List.getElem?_drop, Nat.add_sub_cancel' hk]
    exact hslot

end DpRequest

/-! ### The discipline on all ranks -/

/-- The owners on a rank. -/
def ownersOn (live : List DpRequest) (rank : ℕ) : List Owner :=
  (live.filter fun q => q.PinnedTo rank).map DpRequest.owner

/-- The shared slots on a rank. -/
def sharedOn (cached : ℕ → Set ℕ) (live : List DpRequest) (rank : ℕ) : Set ℕ :=
  cached rank ∪ { x | ∃ q ∈ live, x ∈ q.matchedSlots rank }

/-- On every rank the requests pinned to it own their pages, and the slots that the cache holds and
those that were matched are shared. -/
structure Owned (p : ℕ) (pages : ℕ → Finset ℕ) (cached : ℕ → Set ℕ) (live : List DpRequest) :
    Prop where
  laid : ∀ q ∈ live, q.Laid p
  exclusive : ∀ rank, Exclusive p (pages rank) (ownersOn live rank) (sharedOn cached live rank)

section Rank

variable {q : DpRequest} {live : List DpRequest} {rank : ℕ} {cached : ℕ → Set ℕ}

theorem ownersOn_cons_of_pinned (h : q.PinnedTo rank) :
    ownersOn (q :: live) rank = q.owner :: ownersOn live rank := by
  simp [ownersOn, h]

theorem ownersOn_cons_of_not (h : ¬q.PinnedTo rank) :
    ownersOn (q :: live) rank = ownersOn live rank := by
  simp [ownersOn, h]

theorem sharedOn_subset_cons : sharedOn cached live rank ⊆ sharedOn cached (q :: live) rank := by
  rintro x (hx | ⟨q', hq', hx⟩)
  · exact .inl hx
  · exact .inr ⟨q', List.mem_cons_of_mem _ hq', hx⟩

theorem sharedOn_cons_subset {shared : Set ℕ} (hlive : sharedOn cached live rank ⊆ shared)
    (hq : q.matchedSlots rank ⊆ shared) : sharedOn cached (q :: live) rank ⊆ shared := by
  rintro x (hx | ⟨q', hq', hx⟩)
  · exact hlive (.inl hx)
  · rcases List.mem_cons.mp hq' with rfl | hq'
    · exact hq hx
    · exact hlive (.inr ⟨q', hq', hx⟩)

end Rank

namespace Owned

variable {p : ℕ} {pages pages' : ℕ → Finset ℕ} {cached cached' : ℕ → Set ℕ}
  {live live' : List DpRequest} {q q' : DpRequest} {rank : ℕ}

theorem perm (h : Owned p pages cached live) (hperm : live.Perm live') :
    Owned p pages cached live' where
  laid := fun q hq => h.laid q (hperm.mem_iff.mpr hq)
  exclusive := fun r => by
    refine ((h.exclusive r).perm ((hperm.filter _).map _)).mono ?_
    rintro x (hx | ⟨q, hq, hx⟩)
    · exact .inl hx
    · exact .inr ⟨q, hperm.mem_iff.mpr hq, hx⟩

/-- A request may leave its pages behind. -/
theorem leave (h : Owned p pages cached (q :: live)) : Owned p pages cached live where
  laid := fun q' hq' => h.laid q' (List.mem_cons_of_mem _ hq')
  exclusive := fun r => by
    have hex := h.exclusive r
    by_cases hr : q.PinnedTo r
    · rw [ownersOn_cons_of_pinned hr] at hex
      exact hex.tail.mono sharedOn_subset_cons
    · rw [ownersOn_cons_of_not hr] at hex
      exact hex.mono sharedOn_subset_cons

theorem leave_append (h : Owned p pages cached (live ++ live')) : Owned p pages cached live' := by
  induction live with
  | nil => exact h
  | cons q live ih => exact ih h.leave

/-- A request without slots of its own may join, with a prefix that was matched in the cache. -/
theorem join (hp : 0 < p) (h : Owned p pages cached live) (hlaid : q.Laid p)
    (hown : q.ownSlots = []) (hmatched : ∀ r, q.matchedSlots r ⊆ sharedOn cached live r) :
    Owned p pages cached (q :: live) where
  laid := by
    rintro q' (_ | ⟨_, hq'⟩)
    · exact hlaid
    · exact h.laid q' hq'
  exclusive := fun r => by
    have hex := (h.exclusive r).mono
      (sharedOn_cons_subset (le_refl (sharedOn cached live r)) (hmatched r))
    by_cases hr : q.PinnedTo r
    · rw [ownersOn_cons_of_pinned hr]
      exact hex.cons_of_nil hp hown
    · rw [ownersOn_cons_of_not hr]
      exact hex

/-- A request without slots of its own may be pinned to another rank. -/
theorem exchange (hp : 0 < p) (h : Owned p pages cached (q :: live)) (hlaid : q'.Laid p)
    (hown : q'.ownSlots = []) (hmatched : ∀ r, q'.matchedSlots r ⊆ q.matchedSlots r) :
    Owned p pages cached (q' :: live) where
  laid := by
    rintro q'' (_ | ⟨_, hq''⟩)
    · exact hlaid
    · exact h.laid q'' (List.mem_cons_of_mem _ hq'')
  exclusive := fun r => by
    have hrest : Exclusive p (pages r) (ownersOn live r) (sharedOn cached (q :: live) r) := by
      have hex := h.exclusive r
      by_cases hr : q.PinnedTo r
      · rw [ownersOn_cons_of_pinned hr] at hex
        exact hex.tail
      · rwa [ownersOn_cons_of_not hr] at hex
    have hex := hrest.mono (sharedOn_cons_subset sharedOn_subset_cons
      fun x hx => .inr ⟨q, List.mem_cons_self, hmatched r hx⟩ :
        sharedOn cached (q' :: live) r ⊆ sharedOn cached (q :: live) r)
    by_cases hr : q'.PinnedTo r
    · rw [ownersOn_cons_of_pinned hr]
      exact hex.cons_of_nil hp hown
    · rw [ownersOn_cons_of_not hr]
      exact hex

/-- A request may publish more of its prompt. -/
theorem publish (hp : 0 < p) (h : Owned p pages cached (q :: live)) (hlaid : q'.Laid p) {k : ℕ}
    (hk : q.owner.published ≤ k) (howner : q'.owner = { q.owner with published := k })
    (hpinned : ∀ r, q'.PinnedTo r ↔ q.PinnedTo r)
    (hmatched : ∀ r, q'.matchedSlots r ⊆ q.matchedSlots r)
    (hcached : ∀ r, ∀ x ∈ cached' r, x ∈ sharedOn cached (q :: live) r ∨
      q.PinnedTo r ∧ x ∈ q.ownSlots.take k) : Owned p pages cached' (q' :: live) where
  laid := by
    rintro q'' (_ | ⟨_, hq''⟩)
    · exact hlaid
    · exact h.laid q'' (List.mem_cons_of_mem _ hq'')
  exclusive := fun r => by
    have hex := h.exclusive r
    have hshared : ∀ x ∈ sharedOn cached' (q' :: live) r, x ∈ sharedOn cached (q :: live) r ∨
        q.PinnedTo r ∧ x ∈ q.ownSlots.take k := by
      rintro x (hx | ⟨q'', hq'', hx⟩)
      · exact hcached r x hx
      · rcases List.mem_cons.mp hq'' with rfl | hq''
        · exact .inl (.inr ⟨q, List.mem_cons_self, hmatched r hx⟩)
        · exact .inl (.inr ⟨q'', List.mem_cons_of_mem _ hq'', hx⟩)
    by_cases hr : q.PinnedTo r
    · rw [ownersOn_cons_of_pinned hr] at hex
      rw [ownersOn_cons_of_pinned ((hpinned r).mpr hr), howner]
      refine (hex.publish hp hk).mono fun x hx => ?_
      exact (hshared x hx).imp_right fun h => h.2
    · rw [ownersOn_cons_of_not hr] at hex
      rw [ownersOn_cons_of_not ((hpinned r).not.mpr hr)]
      exact hex.mono fun x hx => (hshared x hx).resolve_right fun h => hr h.1

/-- A request may change, as long as it owns the same slots. -/
theorem replace (hp : 0 < p) (h : Owned p pages cached (q :: live)) (hlaid : q'.Laid p)
    (howner : q'.owner = q.owner) (hpinned : ∀ r, q'.PinnedTo r ↔ q.PinnedTo r)
    (hmatched : ∀ r, q'.matchedSlots r ⊆ q.matchedSlots r) :
    Owned p pages cached (q' :: live) :=
  h.publish hp hlaid le_rfl howner hpinned hmatched fun _ _ hx => .inl (.inl hx)

/-- A request may leave and give back the pages that it starts from a position on, if all slots that
it has published are before this position. -/
theorem retire (hp : 0 < p) (h : Owned p pages cached (q :: live)) (hrank : q.PinnedTo rank) {k : ℕ}
    (hk : q.owner.published ≤ k)
    (hpages : pages' rank = pages rank \ (firstPages p (q.ownSlots.drop k)).toFinset)
    (hother : ∀ r ≠ rank, pages' r = pages r) : Owned p pages' cached live where
  laid := h.leave.laid
  exclusive := fun r => by
    by_cases hr : r = rank
    · subst hr
      have hex := h.exclusive r
      rw [ownersOn_cons_of_pinned hrank] at hex
      rw [hpages]
      exact (hex.retire hp hk).mono sharedOn_subset_cons
    · rw [hother r hr]
      exact h.leave.exclusive r

/-- A request may leave and give back all pages that it starts, if none of them is in use. -/
theorem depart (h : Owned p pages cached (q :: live)) (hrank : q.PinnedTo rank)
    (hfree : ∀ x ∈ sharedOn cached live rank, x / p ∉ firstPages p q.ownSlots)
    (hpages : pages' rank = pages rank \ (firstPages p q.ownSlots).toFinset)
    (hother : ∀ r ≠ rank, pages' r = pages r) : Owned p pages' cached live where
  laid := h.leave.laid
  exclusive := fun r => by
    by_cases hr : r = rank
    · subst hr
      have hex := h.exclusive r
      rw [ownersOn_cons_of_pinned hrank] at hex
      rw [hpages]
      exact hex.depart sharedOn_subset_cons hfree
    · rw [hother r hr]
      exact h.leave.exclusive r

/-- A request may grow by slots that its rank allocates. -/
theorem grow (h : Owned p pages cached (q :: live)) (hrank : q.PinnedTo rank)
    {a a' : CachePageAllocator} (ha : a.Valid) (hp : a.pageSize = p)
    (hpages : pages rank = a.allocatedPageIndices) {n : ℕ} {slots : List ℕ}
    (halloc : a.allocateForSequence q.request.sequenceCachePages n = .ok (a', slots))
    (hpages' : pages' rank = a'.allocatedPageIndices) (hother : ∀ r ≠ rank, pages' r = pages r)
    (hplaced : q'.Placed)
    (hslots : q'.request.sequenceCachePages = q.request.sequenceCachePages ++ slots)
    (horigins : ∀ k < q.request.cacheHitTokenCount, q'.origins[k]? = q.origins[k]?)
    (hhit : q'.request.cacheHitTokenCount = q.request.cacheHitTokenCount)
    (hprocessed : q'.request.promptTokensProcessed = q.request.promptTokensProcessed)
    (hids : q'.request.inputIds = q.request.inputIds)
    (hskips : q'.request.skipsRadixCacheInsert = q.request.skipsRadixCacheInsert)
    (hpinned : q'.request.dataParallelRank = q.request.dataParallelRank) :
    Owned p pages' cached (q' :: live) := by
  subst hp
  have hlaid := h.laid q List.mem_cons_self
  obtain ⟨fresh, hfresh⟩ := CachePageAllocator.allocates_of_allocateForSequence ha.pageSize_pos
    halloc
  have hex := h.exclusive rank
  rw [ownersOn_cons_of_pinned hrank, hpages] at hex
  have hpaged : Paged a.pageSize (q.ownSlots ++ slots) :=
    hfresh.paged_append ha.pageSize_pos hlaid.hit_dvd hlaid.hit_le_length hlaid.offset
      (hex.paged _ List.mem_cons_self) (hex.owned_allocated _ List.mem_cons_self)
  have hown : q'.ownSlots = q.ownSlots ++ slots := by
    rw [DpRequest.ownSlots, hslots, hhit, DpRequest.ownSlots,
      List.drop_append_of_le_length hlaid.hit_le_length]
  have howner : q'.owner = { q.owner with slots := q.owner.slots ++ slots } := by
    simp only [DpRequest.owner, hown, hskips, hprocessed, hhit]
  have hmatched (r : ℕ) : q'.matchedSlots r ⊆ q.matchedSlots r := by
    rintro x ⟨k, hk, hslot, horigin⟩
    rw [hhit] at hk
    refine ⟨k, hk, ?_, horigins k hk ▸ horigin⟩
    rwa [hslots, List.getElem?_append_left (hk.trans_le hlaid.hit_le_length)] at hslot
  refine ⟨?_, fun r => ?_⟩
  · rintro q'' (_ | ⟨_, hq''⟩)
    · refine ⟨hplaced, hhit ▸ hlaid.hit_dvd, ?_, ?_, fun i x hx => ?_⟩
      · rw [hhit, hslots, List.length_append]
        exact hlaid.hit_le_length.trans (Nat.le_add_right _ _)
      · rw [hprocessed, hids]
        exact hlaid.processed_le
      · rcases Nat.lt_or_ge i q.request.cacheHitTokenCount with hi | hi
        · refine hlaid.offset i x ?_
          rwa [hslots, List.getElem?_append_left (hi.trans_le hlaid.hit_le_length)] at hx
        · have hdrop : (q.ownSlots ++ slots)[i - q.request.cacheHitTokenCount]? = some x := by
            rw [← hown, DpRequest.ownSlots, List.getElem?_drop, hhit, Nat.add_sub_cancel' hi]
            exact hx
          obtain ⟨hlt, rfl⟩ := List.getElem?_eq_some_iff.mp hdrop
          obtain ⟨m, hm⟩ := hlaid.hit_dvd
          rw [hpaged.mod_getElem hlt, hm]
          conv_rhs => rw [← Nat.sub_add_cancel hi, hm, Nat.add_mul_mod_self_left]
    · exact h.laid q'' (List.mem_cons_of_mem _ hq'')
  · have hsub : sharedOn cached (q' :: live) r ⊆ sharedOn cached (q :: live) r :=
      sharedOn_cons_subset sharedOn_subset_cons
        fun x hx => .inr ⟨q, List.mem_cons_self, hmatched r hx⟩
    have hpinned' : q'.PinnedTo r ↔ q.PinnedTo r := by
      unfold DpRequest.PinnedTo
      rw [hpinned]
    by_cases hr : r = rank
    · subst hr
      rw [ownersOn_cons_of_pinned (hpinned'.mpr hrank), howner, hpages', hfresh.allocated_eq]
      exact (hex.grow hpaged (hfresh.firstPages_slots ha.pageSize_pos) (hfresh.nodup_fresh ha)
        fun g hg => hfresh.fresh_notMem ha hg).mono hsub
    · rw [hother r hr]
      have hex' := h.exclusive r
      have hnot : ¬q.PinnedTo r := fun hq => hr (by
        have hcast : (r : ℤ) = rank := hq.symm.trans hrank
        exact_mod_cast hcast)
      rw [ownersOn_cons_of_not hnot] at hex'
      rw [ownersOn_cons_of_not (hpinned'.not.mpr hnot)]
      exact hex'.mono hsub

end Owned

namespace DpScheduler

/-! ### The invariant -/

/-- The requests in the queues and in running batches. -/
def live (s : DpScheduler) : List DpRequest :=
  s.waitingQueue ++ s.decodeQueue ++ s.runningBatches.flatMap (·.batch.requests)

/-- The pages that a rank has allocated. -/
def allocatedPages (s : DpScheduler) (rank : ℕ) : Finset ℕ :=
  match s.allocators[rank]? with
  | none => ∅
  | some allocator => allocator.allocatedPageIndices

/-- The slots that the prefix cache holds and that come from a rank. -/
def cachedSlots (s : DpScheduler) (rank : ℕ) : Set ℕ :=
  { x | ∃ w, s.prefixCache.slotAt w = some x ∧ s.cacheOrigins.slotAt w = some rank }

/-- The slot of a rank is held by the prefix cache or is a slot of a request. -/
def References (s : DpScheduler) (hand : List DpRequest) (rank x : ℕ) : Prop :=
  x ∈ s.cachedSlots rank ∨ ∃ q ∈ s.live ++ hand, x ∈ q.slotsFrom rank

/-- The request is finished by the token. -/
def Finishes (forwardMode : ForwardMode) (q : DpRequest) (token : GeneratedToken) : Prop :=
  (IsPrefillForward forwardMode q → (advanced q).request.isPrefillComplete = true) ∧
    (token.finished || (q.request.appendOutputIds token.tokenIds).reachedMaxNewTokens) = true

/-- A request that finishes has not just published its prompt, and no slot in use lies on a page
that it starts; requests are resumed locally. -/
def KeepsPages : DpGuard where
  complete := fun rank forwardMode s hand q token =>
    Finishes forwardMode q token →
      (IsPrefillForward forwardMode q → q.request.skipsRadixCacheInsert = true) ∧
        ∀ x, s.References hand rank x → x / s.pageSize ∉ firstPages s.pageSize q.ownSlots
  resume := ResumesLocally.resume
  drop := fun _ => True

/-- The request is processed by a batch: a chunk of its prompt, or its next token. -/
def Forwarded (q : DpRequest) : Prop :=
  (q.request.stage = .prefillForward ∧ 0 < q.request.currentChunkLen ∧
      q.request.sequenceCachePages.length =
        q.request.promptTokensProcessed + q.request.currentChunkLen ∧
      q.request.promptTokensProcessed + q.request.currentChunkLen ≤ q.request.inputIds.length) ∨
    (q.request.stage = .decodeForward ∧
      q.request.promptTokensProcessed = q.request.inputIds.length)

/-- The slots that the request was last given come after those of processed tokens. -/
structure GivenSlots (q : DpRequest) : Prop where
  seq_eq : ∃ base, q.request.sequenceCachePages = base ++ q.request.allocatedCachePages ∧
    q.request.promptTokensProcessed ≤ base.length ∧ q.request.cacheHitTokenCount ≤ base.length

/-- How far the requests have got. -/
structure Staged (s : DpScheduler) (hand : List DpRequest) : Prop where
  waiting : ∀ q ∈ s.waitingQueue,
    q.request.sequenceCachePages.length = q.request.promptTokensProcessed
  decode : ∀ q ∈ s.decodeQueue, q.request.promptTokensProcessed = q.request.inputIds.length ∧
    q.request.inputIds.length ≤ q.request.sequenceCachePages.length
  running : ∀ b ∈ s.runningBatches, ∀ q ∈ b.batch.requests, Forwarded q ∧ GivenSlots q
  hand : ∀ q ∈ hand, Forwarded q ∧ GivenSlots q

/-- The requests in the queues, in running batches and in the hand share the pages of the ranks. -/
structure PagesKept (s : DpScheduler) (hand : List DpRequest) : Prop where
  pageSize_pos : 0 < s.pageSize
  valid : ∀ allocator ∈ s.allocators, allocator.Valid ∧ allocator.pageSize = s.pageSize
  owned : Owned s.pageSize s.allocatedPages s.cachedSlots (s.live ++ hand)
  offset : ∀ w x, s.prefixCache.slotAt w = some x → x % s.pageSize = (w.length - 1) % s.pageSize

variable {s s' : DpScheduler} {rank : ℕ} {hand hand' : List DpRequest} {q q' : DpRequest}

/-! ### Allocating and releasing -/

theorem allocatedPages_set {allocator : CachePageAllocator} (hlt : rank < s.allocators.length)
    (r : ℕ) : { s with allocators := s.allocators.set rank allocator }.allocatedPages r =
      if rank = r then allocator.allocatedPageIndices else s.allocatedPages r := by
  unfold allocatedPages
  dsimp only
  rw [List.getElem?_set]
  split_ifs with hr
  · rfl
  · rfl

theorem allocatedPages_of_lookup {allocator : CachePageAllocator}
    (h : s.allocators[rank]? = some allocator) :
    s.allocatedPages rank = allocator.allocatedPageIndices := by
  simp [allocatedPages, h]

@[simp] theorem live_release (s : DpScheduler) (rank : ℕ) (slots origins : List ℕ) :
    (s.release rank slots origins).live = s.live := by
  unfold release
  split <;> rfl

@[simp] theorem cachedSlots_release (s : DpScheduler) (rank : ℕ) (slots origins : List ℕ) :
    (s.release rank slots origins).cachedSlots = s.cachedSlots := by
  unfold release
  split <;> rfl

@[simp] theorem pageSize_release (s : DpScheduler) (rank : ℕ) (slots origins : List ℕ) :
    (s.release rank slots origins).pageSize = s.pageSize := by
  unfold release
  split <;> rfl

@[simp] theorem prefixCache_release (s : DpScheduler) (rank : ℕ) (slots origins : List ℕ) :
    (s.release rank slots origins).prefixCache = s.prefixCache := by
  unfold release
  split <;> rfl

/-- Publishing the processed part of a prompt. -/
theorem publish_spec (hskips : q.request.skipsRadixCacheInsert = false)
    (horigins : q.origins.length = q.request.sequenceCachePages.length)
    (hle : q.request.promptTokensProcessed ≤ q.request.inputIds.length)
    (hstop : q.request.promptTokensProcessed ≤ q.request.sequenceCachePages.length) :
    ∃ cache origins, s.publish q = { s with prefixCache := cache, cacheOrigins := origins } ∧
      (∀ w, cache.slotAt w =
        if w ≠ [] ∧ w <+: q.request.inputIds.take q.request.promptTokensProcessed then
          q.request.sequenceCachePages[w.length - 1]?
        else s.prefixCache.slotAt w) ∧
      ∀ w, origins.slotAt w =
        if w ≠ [] ∧ w <+: q.request.inputIds.take q.request.promptTokensProcessed then
          q.origins[w.length - 1]?
        else s.cacheOrigins.slotAt w := by
  unfold publish
  dsimp only
  rw [Nat.min_eq_left hstop]
  set k := q.request.promptTokensProcessed
  by_cases hk : 0 < k
  · have hslots : (q.request.inputIds.take k).length =
        (q.request.sequenceCachePages.take k).length := by
      rw [List.length_take, List.length_take, Nat.min_eq_left hle, Nat.min_eq_left hstop]
    have horigins' : (q.request.inputIds.take k).length = (q.origins.take k).length := by
      rw [List.length_take, List.length_take, Nat.min_eq_left hle, horigins, Nat.min_eq_left hstop]
    obtain ⟨cache, hcache⟩ := RadixCache.insert_eq_ok (c := s.prefixCache) hslots
    obtain ⟨origins, horigin⟩ := RadixCache.insert_eq_ok (c := s.cacheOrigins) horigins'
    have htake {α : Type} (l : List α) {w : List UInt32}
        (hw : w ≠ [] ∧ w <+: q.request.inputIds.take k) :
        (l.take k)[w.length - 1]? = l[w.length - 1]? := by
      have hpos := List.length_pos_iff.mpr hw.1
      have hlen := hw.2.length_le
      rw [List.length_take] at hlen
      exact List.getElem?_take_of_lt (by omega)
    refine ⟨cache, origins, ?_, fun w => ?_, fun w => ?_⟩
    · simp only [if_pos (And.intro hskips hk), hcache, horigin]
    · rw [RadixCache.slotAt_insert hcache]
      split_ifs with hw
      · exact htake _ hw
      · rfl
    · rw [RadixCache.slotAt_insert horigin]
      split_ifs with hw
      · exact htake _ hw
      · rfl
  · have hzero : k = 0 := Nat.eq_zero_of_not_pos hk
    refine ⟨s.prefixCache, s.cacheOrigins, if_neg fun h => hk h.2, fun w => ?_, fun w => ?_⟩
    · rw [if_neg]
      rintro ⟨hne, hpre⟩
      simp [hzero, hne] at hpre
    · rw [if_neg]
      rintro ⟨hne, hpre⟩
      simp [hzero, hne] at hpre

/-- The allocators are in order. -/
def Stocked (s : DpScheduler) : Prop :=
  ∀ allocator ∈ s.allocators, allocator.Valid ∧ allocator.pageSize = s.pageSize

namespace Stocked

/-- A release takes the pages that its slots start from the pages of its rank. -/
theorem allocatedPages_release (h : Stocked s) (rank : ℕ) (slots origins : List ℕ) :
    (s.release rank slots origins).allocatedPages rank =
        s.allocatedPages rank \ (firstPages s.pageSize slots).toFinset ∧
      ∀ r ≠ rank, (s.release rank slots origins).allocatedPages r = s.allocatedPages r := by
  unfold DpScheduler.release
  cases ha : s.allocators[rank]? with
  | none => exact ⟨by simp [allocatedPages, ha], fun r _ => rfl⟩
  | some allocator =>
    have hlt : rank < s.allocators.length := (List.getElem?_eq_some_iff.mp ha).1
    obtain ⟨hv, hp⟩ := h allocator (List.mem_of_getElem? ha)
    have hset (r : ℕ) : { s with
        allocators := s.allocators.set rank (allocator.release slots) }.allocatedPages r =
          if rank = r then (allocator.release slots).allocatedPageIndices
          else s.allocatedPages r := allocatedPages_set hlt r
    constructor
    · refine (hset rank).trans ?_
      rw [if_pos rfl, allocatedPages_of_lookup ha, hv.allocated_release, hp]
    · intro r hr
      exact (hset r).trans (if_neg (Ne.symm hr))

theorem release (h : Stocked s) (rank : ℕ) (slots origins : List ℕ) :
    Stocked (s.release rank slots origins) := by
  unfold DpScheduler.release
  cases ha : s.allocators[rank]? with
  | none => exact h
  | some allocator =>
    intro allocator' hmem
    rcases List.mem_or_eq_of_mem_set hmem with hmem | rfl
    · exact h allocator' hmem
    · obtain ⟨hv, hp⟩ := h allocator (List.mem_of_getElem? ha)
      exact ⟨hv.release _, hp⟩

end Stocked

namespace PagesKept

theorem allocatedPages_release (h : PagesKept s hand) (rank : ℕ) (slots origins : List ℕ) :
    (s.release rank slots origins).allocatedPages rank =
        s.allocatedPages rank \ (firstPages s.pageSize slots).toFinset ∧
      ∀ r ≠ rank, (s.release rank slots origins).allocatedPages r = s.allocatedPages r :=
  Stocked.allocatedPages_release h.valid rank slots origins

theorem valid_release (h : PagesKept s hand) (slots origins : List ℕ) :
    ∀ allocator ∈ (s.release rank slots origins).allocators,
      allocator.Valid ∧ allocator.pageSize = s.pageSize := by
  have hvalid := Stocked.release h.valid rank slots origins
  rwa [Stocked, pageSize_release] at hvalid

/-- Only the caches, the allocators and the requests matter. -/
theorem congr (h : PagesKept s hand) (hsize : s'.pageSize = s.pageSize)
    (hallocators : s'.allocators = s.allocators) (hcache : s'.prefixCache = s.prefixCache)
    (horigins : s'.cacheOrigins = s.cacheOrigins)
    (hperm : (s.live ++ hand).Perm (s'.live ++ hand')) : PagesKept s' hand' where
  pageSize_pos := hsize ▸ h.pageSize_pos
  valid := by
    rw [hallocators, hsize]
    exact h.valid
  owned := by
    have hpages : s'.allocatedPages = s.allocatedPages := by
      funext r
      simp only [allocatedPages, hallocators]
    have hcached : s'.cachedSlots = s.cachedSlots := by
      funext r
      simp only [cachedSlots, hcache, horigins]
    rw [hsize, hpages, hcached]
    exact h.owned.perm hperm
  offset := by
    rw [hcache, hsize]
    exact h.offset

theorem owned_cons (h : PagesKept s (q :: hand)) :
    Owned s.pageSize s.allocatedPages s.cachedSlots (q :: (s.live ++ hand)) :=
  h.owned.perm List.perm_middle

/-- A request in the hand may be exchanged for another one that owns the same slots. -/
theorem replace (h : PagesKept s (q :: hand))
    (howned : Owned s.pageSize s.allocatedPages s.cachedSlots (q' :: (s.live ++ hand))) :
    PagesKept s (q' :: hand) :=
  ⟨h.pageSize_pos, h.valid, howned.perm List.perm_middle.symm, h.offset⟩

/-- A request in the hand may give back the slots from a position on. -/
theorem retire (h : PagesKept s (q :: hand)) (hrank : q.PinnedTo rank) {start : ℕ}
    (hstart : q.request.cacheHitTokenCount ≤ start)
    (hpublished : q.owner.published ≤ start - q.request.cacheHitTokenCount) :
    PagesKept (s.releaseFrom rank q start) hand := by
  obtain ⟨hpages, hother⟩ := h.allocatedPages_release rank
    (q.request.sequenceCachePages.drop start) (q.origins.drop start)
  have hdrop : q.request.sequenceCachePages.drop start =
      q.ownSlots.drop (start - q.request.cacheHitTokenCount) := by
    rw [DpRequest.ownSlots, List.drop_drop, Nat.add_sub_cancel' hstart]
  unfold releaseFrom
  refine ⟨?_, ?_, ?_, ?_⟩
  · rw [pageSize_release]
    exact h.pageSize_pos
  · rw [pageSize_release]
    exact h.valid_release _ _
  · rw [pageSize_release, cachedSlots_release, live_release]
    exact h.owned_cons.retire h.pageSize_pos hrank hpublished (hdrop ▸ hpages) hother
  · rw [pageSize_release, prefixCache_release]
    exact h.offset

/-- A request in the hand may give back all slots of its own, if no slot in use lies on their
pages. -/
theorem depart (h : PagesKept s (q :: hand)) (hrank : q.PinnedTo rank)
    (hfree : ∀ x, s.References hand rank x → x / s.pageSize ∉ firstPages s.pageSize q.ownSlots) :
    PagesKept (s.releaseFrom rank q q.request.cacheHitTokenCount) hand := by
  obtain ⟨hpages, hother⟩ := h.allocatedPages_release rank q.ownSlots
    (q.origins.drop q.request.cacheHitTokenCount)
  unfold releaseFrom
  change PagesKept (s.release rank q.ownSlots _) hand
  refine ⟨?_, ?_, ?_, ?_⟩
  · rw [pageSize_release]
    exact h.pageSize_pos
  · rw [pageSize_release]
    exact h.valid_release _ _
  · rw [pageSize_release, cachedSlots_release, live_release]
    refine h.owned_cons.depart hrank (fun x hx => hfree x ?_) hpages hother
    rcases hx with hx | ⟨q', hq', k, -, hslot, horigin⟩
    · exact .inl hx
    · exact .inr ⟨q', hq', k, hslot, horigin⟩
  · rw [pageSize_release, prefixCache_release]
    exact h.offset

/-- A request in the hand may change without its slots. -/
theorem update (h : PagesKept s (q :: hand)) {request : ScheduledRequest}
    (hslots : request.sequenceCachePages = q.request.sequenceCachePages)
    (hhit : request.cacheHitTokenCount = q.request.cacheHitTokenCount)
    (hids : request.inputIds = q.request.inputIds)
    (hparams : request.disaggregatedParams = q.request.disaggregatedParams)
    (hprocessed : request.promptTokensProcessed = q.request.promptTokensProcessed)
    (hrank : request.dataParallelRank = q.request.dataParallelRank) :
    PagesKept s (⟨request, q.origins⟩ :: hand) := by
  have hlaid := h.owned_cons.laid q List.mem_cons_self
  refine h.replace (h.owned_cons.replace h.pageSize_pos
    ⟨hlaid.congr hslots hhit hids hrank, ?_, ?_, ?_, ?_⟩ ?_ (fun r => ?_) fun r => ?_)
  · exact hhit ▸ hlaid.hit_dvd
  · rw [hhit, hslots]
    exact hlaid.hit_le_length
  · rw [hprocessed, hids]
    exact hlaid.processed_le
  · exact hslots ▸ hlaid.offset
  · have hskips : request.skipsRadixCacheInsert = q.request.skipsRadixCacheInsert := by
      simp only [ScheduledRequest.skipsRadixCacheInsert, hparams]
    simp only [DpRequest.owner, DpRequest.ownSlots, hslots, hhit, hprocessed, hskips]
  · unfold DpRequest.PinnedTo
    rw [hrank]
  · unfold DpRequest.matchedSlots
    rw [hslots, hhit]

/-- Completing a chunk publishes the prompt up to its end. -/
theorem publish (h : PagesKept s (q :: hand))
    (hstop : (advanced q).request.promptTokensProcessed ≤ q.request.sequenceCachePages.length) :
    PagesKept (s.publish (advanced q)) (advanced q :: hand) := by
  have hp := h.pageSize_pos
  have hlaid := h.owned_cons.laid q List.mem_cons_self
  have hle : q.request.promptTokensProcessed ≤ (advanced q).request.promptTokensProcessed := by
    have := hlaid.processed_le
    simp only [advanced, ScheduledRequest.advancePromptTokens]
    omega
  have hle' : (advanced q).request.promptTokensProcessed ≤ q.request.inputIds.length :=
    Nat.min_le_right _ _
  have hlaid' : (advanced q).Laid s.pageSize :=
    ⟨hlaid.congr rfl rfl rfl rfl, hlaid.hit_dvd, hlaid.hit_le_length, hle', hlaid.offset⟩
  have hmatched (r : ℕ) : (advanced q).matchedSlots r ⊆ q.matchedSlots r := le_refl _
  by_cases hskips : q.request.skipsRadixCacheInsert = true
  · have howner : (advanced q).owner = q.owner := by
      have hskips' : (advanced q).request.skipsRadixCacheInsert = true := hskips
      simp only [DpRequest.owner, hskips, hskips', if_true]
      rfl
    have hsame : s.publish (advanced q) = s := by
      unfold DpScheduler.publish
      refine if_neg fun hinsert => ?_
      have hfalse : q.request.skipsRadixCacheInsert = false := hinsert.1
      simp [hskips] at hfalse
    rw [hsame]
    exact h.replace (h.owned_cons.replace hp hlaid' howner (fun r => Iff.rfl) hmatched)
  · have hskips' : q.request.skipsRadixCacheInsert = false := by simpa using hskips
    have howner : (advanced q).owner = { q.owner with
        published := (advanced q).request.promptTokensProcessed - q.request.cacheHitTokenCount } := by
      have hfalse : (advanced q).request.skipsRadixCacheInsert = false := hskips'
      simp only [DpRequest.owner, hfalse, Bool.false_eq_true, if_false]
      rfl
    have hk : q.owner.published ≤
        (advanced q).request.promptTokensProcessed - q.request.cacheHitTokenCount :=
      DpRequest.published_le.trans (Nat.sub_le_sub_right hle _)
    obtain ⟨cache, origins, heq, hcache, horigin⟩ := publish_spec (s := s) (q := advanced q) hskips'
      hlaid'.length_origins hle' hstop
    rw [heq]
    have hcached (r x : ℕ) (hx : x ∈ { s with
        prefixCache := cache, cacheOrigins := origins }.cachedSlots r) :
        x ∈ sharedOn s.cachedSlots (q :: (s.live ++ hand)) r ∨ q.PinnedTo r ∧
          x ∈ q.ownSlots.take
            ((advanced q).request.promptTokensProcessed - q.request.cacheHitTokenCount) := by
      obtain ⟨w, hslot, hfrom⟩ := hx
      dsimp only at hslot hfrom
      rw [hcache] at hslot
      rw [horigin] at hfrom
      split_ifs at hslot hfrom with hw
      · have hlen := hw.2.length_le
        have hpos := List.length_pos_iff.mpr hw.1
        rw [List.length_take] at hlen
        rcases Nat.lt_or_ge (w.length - 1) q.request.cacheHitTokenCount with hk | hk
        · exact .inl (.inr ⟨q, List.mem_cons_self, w.length - 1, hk, hslot, hfrom⟩)
        · refine .inr ⟨hlaid.origin _ r hk hfrom, ?_⟩
          refine List.mem_iff_getElem?.mpr ⟨w.length - 1 - q.request.cacheHitTokenCount, ?_⟩
          rw [List.getElem?_take_of_lt (by omega), DpRequest.ownSlots, List.getElem?_drop,
            Nat.add_sub_cancel' hk]
          exact hslot
      · exact .inl (.inl ⟨w, hslot, hfrom⟩)
    refine ⟨hp, h.valid, ?_, fun w x hx => ?_⟩
    · exact (h.owned_cons.publish hp hlaid' hk howner (fun r => Iff.rfl) hmatched hcached).perm
        List.perm_middle.symm
    · dsimp only at hx
      rw [hcache] at hx
      split_ifs at hx
      · exact hlaid.offset _ x hx
      · exact h.offset w x hx

end PagesKept

/-! ### Completions -/

theorem perm_decode (s : DpScheduler) (kept queue hand : List DpRequest) (q : DpRequest) :
    ({ s with decodeQueue := kept ++ q :: queue }.live ++ hand).Perm
      (q :: ({ s with decodeQueue := kept ++ queue }.live ++ hand)) := by
  rw [← Multiset.coe_eq_coe]
  simp only [live, ← Multiset.coe_add, ← Multiset.cons_coe, ← Multiset.singleton_add]
  abel

theorem perm_take {sequence : ℕ} {running : RunningBatch}
    (hrun : s.runningBatch sequence = some running) :
    (s.live ++ hand).Perm ((s.removeBatch sequence).live ++ (running.batch.requests ++ hand)) := by
  obtain ⟨before, after, heq, herase⟩ := exists_removeBatch hrun
  rw [← Multiset.coe_eq_coe]
  rw [live, live, herase, heq]
  simp only [removeBatch, ← Multiset.coe_add, List.flatMap_append, List.flatMap_cons, ← Multiset.coe_add]
  abel

theorem perm_submit (s : DpScheduler) (hand : List DpRequest) (sequence rank : ℕ) :
    (s.live ++ hand).Perm ({ s with
      runningBatches := s.runningBatches ++ [RunningBatch.mk sequence rank (batchOf hand)] }.live ++
        []) := by
  simp [live, batchOf]

namespace PagesKept

/-- A request that has generated a token finishes or waits for the next one. -/
theorem deliver (h : PagesKept s (q :: hand)) (hrank : q.PinnedTo rank) (token : GeneratedToken)
    (hfree : (token.finished || (q.request.appendOutputIds token.tokenIds).reachedMaxNewTokens) =
      true → ∀ x, s.References hand rank x → x / s.pageSize ∉ firstPages s.pageSize q.ownSlots) :
    PagesKept (s.deliver rank q token) hand := by
  unfold DpScheduler.deliver
  dsimp only
  by_cases hfinished :
      (token.finished || (q.request.appendOutputIds token.tokenIds).reachedMaxNewTokens) = true
  · rw [if_pos hfinished]
    have hupdate : PagesKept s (⟨q.request.appendOutputIds token.tokenIds, q.origins⟩ :: hand) :=
      h.update rfl rfl rfl rfl rfl rfl
    have hstep : PagesKept { s with stepOutputs := s.stepOutputs ++
        [ScheduledOutput.mk q.request.requestId token.tokenIds q.request.cacheHitTokenCount
          (token.finished || (q.request.appendOutputIds token.tokenIds).reachedMaxNewTokens)] }
        (⟨q.request.appendOutputIds token.tokenIds, q.origins⟩ :: hand) :=
      hupdate.congr rfl rfl rfl rfl (List.Perm.refl _)
    exact (hstep.depart hrank (hfree hfinished)).congr rfl rfl rfl rfl (List.Perm.refl _)
  · rw [if_neg hfinished]
    have hupdate : PagesKept s (⟨{ (q.request.appendOutputIds
        token.tokenIds).clearForwardChunkTracking.setStage .decodeWaiting with
          dataParallelRank := rank }, q.origins⟩ :: hand) :=
      h.update rfl rfl rfl rfl rfl hrank.symm
    refine hupdate.congr rfl rfl rfl rfl ?_
    refine List.perm_middle.trans ?_
    have hperm := perm_decode s s.decodeQueue [] hand ⟨{ (q.request.appendOutputIds
      token.tokenIds).clearForwardChunkTracking.setStage .decodeWaiting with
        dataParallelRank := rank }, q.origins⟩
    rw [List.append_nil] at hperm
    exact hperm.symm

theorem completeRequest (h : PagesKept s (q :: hand)) (hrank : q.PinnedTo rank)
    (hforward : Forwarded q) (hgiven : GivenSlots q) {forwardMode : ForwardMode}
    {token : GeneratedToken} (hG : KeepsPages.complete rank forwardMode s hand q token) :
    PagesKept (s.completeRequest rank forwardMode q token) hand := by
  unfold DpScheduler.completeRequest
  dsimp only
  by_cases hprefill : IsPrefillForward forwardMode q
  · rw [if_pos hprefill]
    have hstop : (advanced q).request.promptTokensProcessed ≤
        q.request.sequenceCachePages.length := by
      obtain ⟨base, hseq, hle, -⟩ := hgiven.seq_eq
      have hlen : base.length ≤ q.request.sequenceCachePages.length := by
        rw [hseq, List.length_append]
        exact Nat.le_add_right _ _
      simp only [advanced, ScheduledRequest.advancePromptTokens]
      rcases hforward with ⟨-, hpos, hlen', -⟩ | ⟨-, hprocessed⟩
      · rw [if_pos hpos]
        exact (Nat.min_le_left _ _).trans hlen'.ge
      · exact (Nat.min_le_right _ _).trans (hprocessed ▸ hle.trans hlen)
    have hpublished := h.publish hstop
    split_ifs with hcomplete
    · refine hpublished.deliver hrank token fun hfinished => ?_
      obtain ⟨hskips, hfree⟩ := hG ⟨fun _ => hcomplete, hfinished⟩
      have hsame : s.publish (advanced q) = s := by
        unfold DpScheduler.publish
        refine if_neg fun hinsert => ?_
        have hfalse : q.request.skipsRadixCacheInsert = false := hinsert.1
        simp [hskips hprefill] at hfalse
      rw [hsame]
      exact hfree
    · have hupdate : PagesKept (s.publish (advanced q))
          (⟨(advanced q).request.clearForwardChunkTracking.setStage .prefillWaiting, q.origins⟩ ::
            hand) := hpublished.update rfl rfl rfl rfl rfl rfl
      exact hupdate.congr rfl rfl rfl rfl List.perm_middle
  · rw [if_neg hprefill]
    exact h.deliver hrank token fun hfinished =>
      (hG ⟨fun h => absurd h hprefill, hfinished⟩).2

end PagesKept

/-! ### Forming batches -/

/-- The cached prefix that is matched comes from the caches. -/
theorem matchedSlots_subset (s : DpScheduler) (inputIds : List UInt32) {k r x : ℕ}
    (hslot : (s.prefixCache.matchPrefixPageAligned inputIds s.pageSize).cachePages[k]? = some x)
    (horigin : (s.cacheOrigins.matchPrefixPageAligned inputIds s.pageSize).cachePages[k]? = some r) :
    x ∈ s.cachedSlots r := by
  have hk := (List.getElem?_eq_some_iff.mp hslot).1
  have hk' := (List.getElem?_eq_some_iff.mp horigin).1
  rw [RadixCache.length_cachePages_aligned] at hk hk'
  rw [RadixCache.getElem?_matchPrefixPageAligned _ _ _ hk] at hslot
  rw [RadixCache.getElem?_matchPrefixPageAligned _ _ _ hk'] at horigin
  exact ⟨_, hslot, horigin⟩

namespace PagesKept

/-- Matching a request that has not been started. -/
theorem owned_matched (h : PagesKept s hand) (hlocated : Located s rank hand')
    {rest : List DpRequest}
    (howned : Owned s.pageSize s.allocatedPages s.cachedSlots (q :: rest)) :
    Owned s.pageSize s.allocatedPages s.cachedSlots
      (q.matched s.prefixCache s.cacheOrigins s.pageSize :: rest) := by
  have hplaced := placed_matched hlocated (howned.laid q List.mem_cons_self).toPlaced
  unfold DpRequest.matched at hplaced ⊢
  split_ifs at hplaced ⊢ with hzero
  · set c := s.prefixCache.matchPrefixPageAligned q.request.inputIds s.pageSize with hc
    have hlen : c.cachePages.length = c.matchedTokenCount :=
      RadixCache.length_cachePages_aligned _ _ _
    refine howned.leave.join h.pageSize_pos ⟨hplaced, ?_, ?_, ?_, fun i x hx => ?_⟩ ?_ ?_
    · exact RadixCache.dvd_matchedTokenCount_aligned _ _ _
    · exact hlen.ge
    · exact RadixCache.matchedTokenCount_aligned_le_length _ _ _
    · have hi := (List.getElem?_eq_some_iff.mp hx).1
      rw [hlen] at hi
      dsimp only at hx
      rw [hc, RadixCache.getElem?_matchPrefixPageAligned _ _ _ hi] at hx
      have hoffset := h.offset _ x hx
      have hle := RadixCache.matchedTokenCount_aligned_le_length s.prefixCache q.request.inputIds
        s.pageSize
      rw [← hc] at hle
      rwa [List.length_take, Nat.min_eq_left (by omega), Nat.add_sub_cancel] at hoffset
    · exact List.drop_eq_nil_of_le hlen.le
    · rintro r x ⟨k, -, hslot, horigin⟩
      exact .inl (matchedSlots_subset s q.request.inputIds hslot horigin)
  · exact howned

/-- Growing a request that is taken from a queue by slots of a rank. -/
theorem grow (h : PagesKept s hand) {rest : List DpRequest}
    (howned : Owned s.pageSize s.allocatedPages s.cachedSlots (q :: rest)) (hrank : q.PinnedTo rank)
    {allocator allocator' : CachePageAllocator} (ha : s.allocators[rank]? = some allocator) {n : ℕ}
    {slots : List ℕ}
    (halloc : allocator.allocateForSequence q.request.sequenceCachePages n =
      .ok (allocator', slots))
    (hplaced : q'.Placed) (horigins : q'.origins = q.origins ++ List.replicate slots.length rank)
    (hslots : q'.request.sequenceCachePages = q.request.sequenceCachePages ++ slots)
    (hhit : q'.request.cacheHitTokenCount = q.request.cacheHitTokenCount)
    (hprocessed : q'.request.promptTokensProcessed = q.request.promptTokensProcessed)
    (hids : q'.request.inputIds = q.request.inputIds)
    (hparams : q'.request.disaggregatedParams = q.request.disaggregatedParams)
    (hpinned : q'.request.dataParallelRank = q.request.dataParallelRank)
    (hsize : s'.pageSize = s.pageSize)
    (hallocators : s'.allocators = s.allocators.set rank allocator')
    (hcache : s'.prefixCache = s.prefixCache) (hcacheOrigins : s'.cacheOrigins = s.cacheOrigins)
    (hperm : (q' :: rest).Perm (s'.live ++ hand')) : PagesKept s' hand' := by
  have hlt : rank < s.allocators.length := (List.getElem?_eq_some_iff.mp ha).1
  obtain ⟨hv, hp⟩ := h.valid allocator (List.mem_of_getElem? ha)
  obtain ⟨fresh, hfresh⟩ := CachePageAllocator.allocates_of_allocateForSequence hv.pageSize_pos
    halloc
  have hlaid := howned.laid q List.mem_cons_self
  have hpages (r : ℕ) : s'.allocatedPages r =
      if rank = r then allocator'.allocatedPageIndices else s.allocatedPages r := by
    have hset : { s with allocators := s.allocators.set rank allocator' }.allocatedPages r =
        if rank = r then allocator'.allocatedPageIndices else s.allocatedPages r :=
      allocatedPages_set hlt r
    rw [← hset]
    simp only [allocatedPages, hallocators]
  have hcached : s'.cachedSlots = s.cachedSlots := by
    funext r
    simp only [cachedSlots, hcache, hcacheOrigins]
  refine ⟨hsize ▸ h.pageSize_pos, ?_, ?_, ?_⟩
  · rw [hallocators, hsize]
    intro allocator'' hmem
    rcases List.mem_or_eq_of_mem_set hmem with hmem | rfl
    · exact h.valid _ hmem
    · exact ⟨hfresh.valid hv, hfresh.pageSize_eq.trans hp⟩
  · rw [hsize, hcached]
    refine (howned.grow hrank hv hp (allocatedPages_of_lookup ha) halloc
      ((hpages rank).trans (if_pos rfl)) (fun r hr => (hpages r).trans (if_neg (Ne.symm hr)))
      hplaced hslots (fun k hk => ?_) hhit hprocessed hids ?_ hpinned).perm hperm
    · rw [horigins, List.getElem?_append_left]
      rw [hlaid.length_origins]
      exact hk.trans_le hlaid.hit_le_length
    · simp only [ScheduledRequest.skipsRadixCacheInsert, hparams]
  · rw [hcache, hsize]
    exact h.offset

end PagesKept

/-- How far a request has got once it was matched. -/
theorem length_matched (s : DpScheduler)
    (h : q.request.sequenceCachePages.length = q.request.promptTokensProcessed) :
    (q.matched s.prefixCache s.cacheOrigins s.pageSize).request.sequenceCachePages.length =
      (q.matched s.prefixCache s.cacheOrigins s.pageSize).request.promptTokensProcessed := by
  unfold DpRequest.matched
  split_ifs
  · exact RadixCache.length_cachePages_aligned _ _ _
  · exact h

namespace Staged

/-- A request that has generated a token waits for the next one. -/
theorem deliver (h : Staged s hand) (rank : ℕ) (token : GeneratedToken)
    (hprocessed : q.request.promptTokensProcessed = q.request.inputIds.length)
    (hlen : q.request.inputIds.length ≤ q.request.sequenceCachePages.length) :
    Staged (s.deliver rank q token) hand := by
  have hrelease (t : DpScheduler) (slots origins : List ℕ) :
      (t.release rank slots origins).waitingQueue = t.waitingQueue ∧
        (t.release rank slots origins).decodeQueue = t.decodeQueue ∧
        (t.release rank slots origins).runningBatches = t.runningBatches := by
    unfold DpScheduler.release
    split <;> exact ⟨rfl, rfl, rfl⟩
  unfold DpScheduler.deliver releaseFrom
  dsimp only
  split
  · refine ⟨?_, ?_, ?_, h.hand⟩
    · rw [(hrelease _ _ _).1]
      exact h.waiting
    · rw [(hrelease _ _ _).2.1]
      exact h.decode
    · rw [(hrelease _ _ _).2.2]
      exact h.running
  · refine ⟨h.waiting, fun q' hq' => ?_, h.running, h.hand⟩
    rcases List.mem_append.mp hq' with hq' | hq'
    · exact h.decode q' hq'
    · rw [List.mem_singleton.mp hq']
      exact ⟨hprocessed, hlen⟩

theorem publish (h : Staged s hand) (q : DpRequest) : Staged (s.publish q) hand := by
  unfold DpScheduler.publish
  dsimp only
  split_ifs <;> exact ⟨h.waiting, h.decode, h.running, h.hand⟩

theorem completeRequest (h : Staged s (q :: hand)) (rank : ℕ) (forwardMode : ForwardMode)
    (token : GeneratedToken) : Staged (s.completeRequest rank forwardMode q token) hand := by
  obtain ⟨hforward, hgiven⟩ := h.hand q List.mem_cons_self
  have hrest : Staged s hand :=
    ⟨h.waiting, h.decode, h.running, fun q' hq' => h.hand q' (List.mem_cons_of_mem q hq')⟩
  obtain ⟨base, hseq, hle, -⟩ := hgiven.seq_eq
  have hbase : base.length ≤ q.request.sequenceCachePages.length := by
    rw [hseq, List.length_append]
    exact Nat.le_add_right _ _
  -- a chunk ends where the slots end, or with the prompt
  have hprocessed : (advanced q).request.promptTokensProcessed =
        q.request.sequenceCachePages.length ∧
        (advanced q).request.promptTokensProcessed ≤ q.request.inputIds.length ∨
      (advanced q).request.promptTokensProcessed = q.request.inputIds.length ∧
        q.request.inputIds.length ≤ q.request.sequenceCachePages.length := by
    simp only [advanced, ScheduledRequest.advancePromptTokens]
    rcases hforward with ⟨-, hpos, hlen, hinput⟩ | ⟨-, hall⟩
    · rw [if_pos hpos]
      omega
    · omega
  unfold DpScheduler.completeRequest
  dsimp only
  split_ifs with hprefill hcomplete
  · have hge : q.request.inputIds.length ≤ (advanced q).request.promptTokensProcessed :=
      of_decide_eq_true hcomplete
    refine Staged.deliver (hrest.publish (advanced q)) rank token ?_ ?_
    · change (advanced q).request.promptTokensProcessed = q.request.inputIds.length
      omega
    · change q.request.inputIds.length ≤ q.request.sequenceCachePages.length
      omega
  · have hlt : ¬q.request.inputIds.length ≤ (advanced q).request.promptTokensProcessed :=
      fun hge => hcomplete (decide_eq_true hge)
    have hpublished := hrest.publish (advanced q)
    refine ⟨fun q' hq' => ?_, hpublished.decode, hpublished.running, hpublished.hand⟩
    rcases List.mem_cons.mp hq' with rfl | hq'
    · change q.request.sequenceCachePages.length = (advanced q).request.promptTokensProcessed
      omega
    · exact hpublished.waiting q' hq'
  · rcases hforward with ⟨hstage, -⟩ | ⟨-, hall⟩
    · exact absurd (.inl hstage) hprefill
    · exact hrest.deliver rank token hall (hall ▸ hle.trans hbase)

end Staged

/-- A request in a batch, to generate a token. -/
theorem forwarded_decode (rank : ℕ) (slots : List ℕ) (hlaid : q.Laid s.pageSize)
    (hprocessed : q.request.promptTokensProcessed = q.request.inputIds.length)
    (hlen : q.request.inputIds.length ≤ q.request.sequenceCachePages.length) :
    Forwarded (q.forwardDecode rank slots) ∧ GivenSlots (q.forwardDecode rank slots) :=
  ⟨.inr ⟨rfl, hprocessed⟩, ⟨⟨q.request.sequenceCachePages, rfl, hprocessed.trans_le hlen,
    hlaid.hit_le_length⟩⟩⟩

/-- A request in a batch, to process a chunk of its prompt. -/
theorem forwarded_prefill (rank : ℕ) (slots : List ℕ) {n : ℕ} (hlaid : q.Laid s.pageSize)
    (hlen : q.request.sequenceCachePages.length = q.request.promptTokensProcessed)
    (hn : n ≠ 0) (hslots : slots.length = n) (hle : n ≤ q.request.remainingPromptTokens) :
    Forwarded (q.forwardPrefill rank slots n) ∧ GivenSlots (q.forwardPrefill rank slots n) := by
  have hprocessed := hlaid.processed_le
  unfold ScheduledRequest.remainingPromptTokens at hle
  refine ⟨.inl ⟨rfl, Nat.pos_of_ne_zero hn, ?_, ?_⟩,
    ⟨⟨q.request.sequenceCachePages, rfl, hlen.ge, hlaid.hit_le_length⟩⟩⟩
  · change (q.request.sequenceCachePages ++ slots).length = q.request.promptTokensProcessed + n
    rw [List.length_append]
    omega
  · change q.request.promptTokensProcessed + n ≤ q.request.inputIds.length
    omega

/-- The whole invariant. -/
structure Kept (s : DpScheduler) (rank : ℕ) (hand : List DpRequest) : Prop where
  located : Located s rank hand
  pages : PagesKept s hand
  staged : Staged s hand

theorem located_keptBy' : KeptBy KeepsPages Located :=
  located_keptBy.mono (fun _ _ _ _ _ _ _ => trivial) (fun _ _ h => h) (fun _ _ => trivial)

/-- Every move that meets the condition keeps the invariant. -/
theorem kept_keptBy : KeptBy KeepsPages Kept where
  rank := fun s rank rank' h => ⟨located_keptBy'.rank s rank rank' h.located, h.pages, h.staged⟩
  workerPool := fun s rank hand workerPool hlen h =>
    ⟨located_keptBy'.workerPool s rank hand workerPool hlen h.located,
      h.pages.congr rfl rfl rfl rfl (List.Perm.refl _),
      ⟨h.staged.waiting, h.staged.decode, h.staged.running, h.staged.hand⟩⟩
  take := fun s sequence running h hrun => by
    refine ⟨located_keptBy'.take s sequence running h.located hrun, ?_, ?_⟩
    · refine h.pages.congr rfl rfl rfl rfl ((perm_take hrun).trans ?_)
      rw [List.append_nil]
    · exact ⟨h.staged.waiting, h.staged.decode,
        fun b hb => h.staged.running b (List.mem_of_mem_eraseP hb),
        h.staged.running running (List.mem_of_find?_eq_some hrun)⟩
  complete := fun s rank forwardMode hand q token hG h => by
    obtain ⟨hforward, hgiven⟩ := h.staged.hand q List.mem_cons_self
    exact ⟨located_keptBy'.complete s rank forwardMode hand q token hG h.located,
      h.pages.completeRequest (h.located.hand q List.mem_cons_self).2 hforward hgiven hG,
      h.staged.completeRequest rank forwardMode token⟩
  drop := fun s rank hand hG h => by
    refine ⟨located_keptBy'.drop s rank hand hG h.located, ?_,
      ⟨h.staged.waiting, h.staged.decode, h.staged.running, by simp⟩⟩
    have howned := (h.pages.owned.perm List.perm_append_comm).leave_append
    exact ⟨h.pages.pageSize_pos, h.pages.valid, by rwa [List.append_nil], h.pages.offset⟩
  decode := fun s hand rank kept q queue allocator allocator' slots h hqueue hrank ha halloc => by
    have hq : q ∈ s.decodeQueue := by simp [hqueue]
    have hlaid : q.Laid s.pageSize := h.pages.owned.laid q (by simp [live, hq])
    obtain ⟨hprocessed, hlen⟩ := h.staged.decode q hq
    refine ⟨located_keptBy'.decode s hand rank kept q queue allocator allocator' slots h.located
      hqueue hrank ha halloc, ?_, h.staged.waiting, fun q' hq' => h.staged.decode q' ?_,
      h.staged.running, fun q' hq' => ?_⟩
    · have howned : Owned s.pageSize s.allocatedPages s.cachedSlots
          (q :: ({ s with decodeQueue := kept ++ queue }.live ++ hand)) := by
        refine h.pages.owned.perm ?_
        have hperm := perm_decode s kept queue hand q
        rwa [← hqueue] at hperm
      refine h.pages.grow howned hrank ha halloc (hlaid.forwardDecode hrank slots) rfl rfl rfl rfl
        rfl rfl rfl rfl rfl rfl rfl ?_
      rw [← List.append_assoc]
      exact (List.perm_append_singleton _ _).symm
    · rw [hqueue]
      simp only [List.mem_append, List.mem_cons] at hq' ⊢
      tauto
    · rcases List.mem_append.mp hq' with hq' | hq'
      · exact h.staged.hand q' hq'
      · rw [List.mem_singleton.mp hq']
        exact forwarded_decode rank slots hlaid hprocessed hlen
  matched := fun s rank hand q queue h hqueue => by
    have hq : q ∈ s.waitingQueue := by simp [hqueue]
    refine ⟨located_keptBy'.matched s rank hand q queue h.located hqueue, ?_, fun q' hq' => ?_,
      h.staged.decode, h.staged.running, h.staged.hand⟩
    · have howned : Owned s.pageSize s.allocatedPages s.cachedSlots
          (q :: ({ s with waitingQueue := queue }.live ++ hand)) := by
        have hpages := h.pages.owned
        rw [live, hqueue] at hpages
        exact hpages
      exact ⟨h.pages.pageSize_pos, h.pages.valid, h.pages.owned_matched h.located howned,
        h.pages.offset⟩
    · rcases List.mem_cons.mp hq' with rfl | hq'
      · exact length_matched s (h.staged.waiting q hq)
      · exact h.staged.waiting q' (by rw [hqueue]; exact List.mem_cons_of_mem _ hq')
  prefill := fun s hand rank q queue allocator allocator' slots hG h hqueue ha hlen halloc => by
    have hq : q ∈ s.waitingQueue := by simp [hqueue]
    have howned : Owned s.pageSize s.allocatedPages s.cachedSlots
        (q :: ({ s with waitingQueue := queue }.live ++ hand)) := by
      have hpages := h.pages.owned
      rw [live, hqueue] at hpages
      exact hpages
    have hmatched := h.pages.owned_matched h.located howned
    have hlength := length_matched s (h.staged.waiting q hq)
    have hlocal : (q.matched s.prefixCache s.cacheOrigins s.pageSize).request.cacheHitTokenCount <
        (q.matched s.prefixCache s.cacheOrigins s.pageSize).request.sequenceCachePages.length →
          (q.matched s.prefixCache s.cacheOrigins s.pageSize).PinnedTo rank := by
      intro hlt
      unfold DpRequest.matched at hlt ⊢
      split_ifs at hlt ⊢ with hzero
      · simp at hlt
      · exact hG hzero hlt
    have hremaining : s.chunkLen q ≤
        (q.matched s.prefixCache s.cacheOrigins s.pageSize).request.remainingPromptTokens :=
      Nat.min_le_left _ _
    refine ⟨located_keptBy'.prefill s hand rank q queue allocator allocator' slots hG h.located
      hqueue ha hlen halloc, ?_, fun q' hq' => h.staged.waiting q' ?_, h.staged.decode,
      h.staged.running, fun q' hq' => ?_⟩
    · generalize q.matched s.prefixCache s.cacheOrigins s.pageSize = m at *
      have hlaid := hmatched.laid m List.mem_cons_self
      have hpinned : Owned s.pageSize s.allocatedPages s.cachedSlots
          (⟨{ m.request with dataParallelRank := rank }, m.origins⟩ ::
            ({ s with waitingQueue := queue }.live ++ hand)) := by
        by_cases hown : m.request.cacheHitTokenCount < m.request.sequenceCachePages.length
        · have hsame : ({ m.request with dataParallelRank := rank } : ScheduledRequest) =
              m.request := by
            rw [← show m.request.dataParallelRank = (rank : ℤ) from hlocal hown]
          rw [hsame]
          exact hmatched
        · have hplaced : DpRequest.Placed ⟨{ m.request with dataParallelRank := rank },
              m.origins⟩ := by
            refine ⟨hlaid.length_origins, hlaid.hit_le, fun k r hk hr => ?_⟩
            have hlt := (List.getElem?_eq_some_iff.mp hr).1
            rw [hlaid.length_origins] at hlt
            exact absurd (Nat.lt_of_le_of_lt hk hlt) hown
          refine hmatched.exchange h.pages.pageSize_pos ⟨hplaced, hlaid.hit_dvd,
            hlaid.hit_le_length, hlaid.processed_le, hlaid.offset⟩ ?_ fun r => le_refl _
          exact List.drop_eq_nil_of_le (Nat.not_lt.mp hown)
      refine h.pages.grow hpinned rfl ha halloc (hlaid.forwardPrefill hlocal slots (s.chunkLen q))
        rfl rfl rfl rfl rfl rfl rfl rfl rfl rfl rfl ?_
      rw [← List.append_assoc]
      exact (List.perm_append_singleton _ _).symm
    · rw [hqueue]
      exact List.mem_cons_of_mem _ hq'
    · rcases List.mem_append.mp hq' with hq' | hq'
      · exact h.staged.hand q' hq'
      · rw [List.mem_singleton.mp hq']
        obtain ⟨hv, -⟩ := h.pages.valid allocator (List.mem_of_getElem? ha)
        obtain ⟨fresh, hfresh⟩ := CachePageAllocator.allocates_of_allocateForSequence
          hv.pageSize_pos halloc
        exact forwarded_prefill rank slots (hmatched.laid _ List.mem_cons_self) hlength hlen
          hfresh.length_slots hremaining
  submit := fun s hand sequence rank h hne => by
    refine ⟨located_keptBy'.submit s hand sequence rank h.located hne,
      h.pages.congr rfl rfl rfl rfl (perm_submit s hand sequence rank), h.staged.waiting,
      h.staged.decode, fun b hb => ?_, by simp⟩
    rcases List.mem_append.mp hb with hb | hb
    · exact h.staged.running b hb
    · rw [List.mem_singleton.mp hb]
      exact h.staged.hand

/-! ### Aborts -/

namespace Staged

theorem release (h : Staged s hand) (rank : ℕ) (slots origins : List ℕ) :
    Staged (s.release rank slots origins) hand := by
  unfold DpScheduler.release
  split <;> exact ⟨h.waiting, h.decode, h.running, h.hand⟩

theorem releaseDecode (h : Staged s hand) (q : DpRequest) : Staged (s.releaseDecode q) hand := by
  unfold DpScheduler.releaseDecode
  split_ifs
  · exact h.release _ _ _
  · exact h

theorem releaseWaiting (h : Staged s hand) (q : DpRequest) : Staged (s.releaseWaiting q) hand := by
  unfold DpScheduler.releaseWaiting
  split_ifs
  · exact h.release _ _ _
  · exact h

theorem foldl (f : DpScheduler → DpRequest → DpScheduler)
    (hf : ∀ s q, Staged s hand → Staged (f s q) hand) (h : Staged s hand)
    (queue : List DpRequest) : Staged (queue.foldl f s) hand := by
  induction queue generalizing s with
  | nil => exact h
  | cons q queue ih => exact ih (hf s q h)

end Staged

namespace PagesKept

/-- A request may leave its pages behind. -/
theorem leave (h : PagesKept s (q :: hand)) : PagesKept s hand :=
  ⟨h.pageSize_pos, h.valid, h.owned_cons.leave, h.offset⟩

/-- An aborted request gives back the pages past its prompt. -/
theorem releaseDecode (h : PagesKept s (q :: hand)) : PagesKept (s.releaseDecode q) hand := by
  have hlaid := h.owned_cons.laid q List.mem_cons_self
  unfold DpScheduler.releaseDecode
  split_ifs with hnonneg
  · exact h.retire (Int.toNat_of_nonneg hnonneg).symm hlaid.hit_le
      (DpRequest.published_le.trans (Nat.sub_le_sub_right hlaid.processed_le _))
  · exact h.leave

theorem foldl_releaseDecode {queue : List DpRequest} (h : PagesKept s queue) :
    PagesKept (queue.foldl DpScheduler.releaseDecode s) [] := by
  induction queue generalizing s with
  | nil => exact h
  | cons q queue ih => exact ih h.releaseDecode

/-- Releasing no slots changes nothing. -/
theorem releaseWaiting (h : PagesKept s hand) (hq : q.request.allocatedCachePages = []) :
    PagesKept (s.releaseWaiting q) hand := by
  unfold DpScheduler.releaseWaiting
  split_ifs
  · rw [hq]
    obtain ⟨hpages, hother⟩ := h.allocatedPages_release q.request.dataParallelRank.toNat []
      (q.origins.drop (q.origins.length - ([] : List ℕ).length))
    refine ⟨?_, ?_, ?_, ?_⟩
    · rw [pageSize_release]
      exact h.pageSize_pos
    · rw [pageSize_release]
      exact h.valid_release _ _
    · rw [pageSize_release, cachedSlots_release, live_release]
      have hsame : (s.release q.request.dataParallelRank.toNat []
          (q.origins.drop (q.origins.length - ([] : List ℕ).length))).allocatedPages =
            s.allocatedPages := by
        funext r
        by_cases hr : r = q.request.dataParallelRank.toNat
        · rw [hr, hpages]
          simp
        · exact hother r hr
      rw [hsame]
      exact h.owned
    · rw [pageSize_release, prefixCache_release]
      exact h.offset
  · exact h

theorem foldl_releaseWaiting (h : PagesKept s hand) {queue : List DpRequest}
    (hqueue : ∀ q ∈ queue, q.request.allocatedCachePages = []) :
    PagesKept (queue.foldl DpScheduler.releaseWaiting s) hand := by
  induction queue generalizing s with
  | nil => exact h
  | cons q queue ih =>
    exact ih (h.releaseWaiting (hqueue q List.mem_cons_self)) fun q' hq' =>
      hqueue q' (List.mem_cons_of_mem _ hq')

/-- The requests that are aborted leave the queues. -/
theorem filter (h : PagesKept s []) (p : DpRequest → Prop) [DecidablePred p] :
    PagesKept { s with
      waitingQueue := s.waitingQueue.filter fun q => ¬p q
      decodeQueue := s.decodeQueue.filter fun q => ¬p q } (s.decodeQueue.filter fun q => p q) := by
  have hsplit (queue : List DpRequest) :
      ((queue.filter fun q => p q) ++ queue.filter fun q => ¬p q).Perm queue := by
    have hnot : (fun q => decide ¬p q) = fun q => !decide (p q) := by
      funext q
      simp
    rw [hnot]
    exact List.filter_append_perm _ queue
  have hperm : (s.live ++ []).Perm ((s.waitingQueue.filter fun q => p q) ++
      ({ s with
          waitingQueue := s.waitingQueue.filter fun q => ¬p q
          decodeQueue := s.decodeQueue.filter fun q => ¬p q }.live ++
        s.decodeQueue.filter fun q => p q)) := by
    rw [← Multiset.coe_eq_coe, List.append_nil]
    have hwaiting := Multiset.coe_eq_coe.mpr (hsplit s.waitingQueue)
    have hdecode := Multiset.coe_eq_coe.mpr (hsplit s.decodeQueue)
    simp only [live, ← Multiset.coe_add] at hwaiting hdecode ⊢
    rw [← hwaiting, ← hdecode]
    abel
  exact ⟨h.pageSize_pos, h.valid, (h.owned.perm hperm).leave_append, h.offset⟩

end PagesKept

theorem Kept.apply (h : Kept s 0 []) (hpool : Pooled s.workerPool s.runningBatches [])
    (op : DpOperation) (hflush : op ≠ .flushCache) (hG : StepAlong KeepsPages s op) :
    Kept (s.apply op) 0 [] := by
  cases op with
  | step => exact kept_keptBy.step 0 hpool.agrees hG h
  | stepBlocking => exact kept_keptBy.stepBlocking 0 hpool.agrees hG h
  | flushCache => exact absurd rfl hflush
  | enqueue requestId inputIds sampling disaggregatedParams dataParallelRank =>
    refine ⟨h.located.apply hpool _ trivial, ?_, fun q hq => ?_, h.staged.decode, h.staged.running,
      by simp⟩
    · have hlaid : DpRequest.Laid
          ⟨.new requestId inputIds sampling disaggregatedParams dataParallelRank, []⟩ s.pageSize :=
        ⟨⟨rfl, Nat.zero_le _, by simp⟩, Nat.dvd_zero _, le_rfl, Nat.zero_le _, by simp [
          ScheduledRequest.new]⟩
      have howned := h.pages.owned.join h.pages.pageSize_pos hlaid rfl (by
        rintro r x ⟨k, hk, -⟩
        exact absurd hk (Nat.not_lt_zero k))
      refine ⟨h.pages.pageSize_pos, h.pages.valid, howned.perm ?_, h.pages.offset⟩
      rw [← Multiset.coe_eq_coe]
      simp only [DpScheduler.apply, enqueue, live, ← Multiset.coe_add, ← Multiset.cons_coe,
        ← Multiset.singleton_add, Multiset.coe_nil]
      abel
    · rcases List.mem_append.mp hq with hq | hq
      · exact h.staged.waiting q hq
      · rw [List.mem_singleton.mp hq]
        rfl
  | abortRequest requestId =>
    refine ⟨h.located.apply hpool _ trivial, ?_, ?_⟩
    · exact (h.pages.filter fun q => q.request.requestId = requestId).foldl_releaseDecode
    · have hkept : Staged { s with
          waitingQueue := s.waitingQueue.filter (·.request.requestId ≠ requestId)
          decodeQueue := s.decodeQueue.filter (·.request.requestId ≠ requestId) } [] :=
        ⟨fun q hq => h.staged.waiting q (List.mem_filter.mp hq).1,
          fun q hq => h.staged.decode q (List.mem_filter.mp hq).1, h.staged.running, by simp⟩
      exact hkept.foldl DpScheduler.releaseDecode (fun s q h => h.releaseDecode q) _
  | abortAllRequests =>
    refine ⟨h.located.apply hpool _ trivial, ?_, ?_⟩
    · have hkept : PagesKept { s with waitingQueue := [], decodeQueue := [] } s.decodeQueue := by
        have hperm : (s.live ++ []).Perm (s.waitingQueue ++
            ({ s with waitingQueue := [], decodeQueue := [] }.live ++ s.decodeQueue)) := by
          rw [← Multiset.coe_eq_coe]
          simp only [live, ← Multiset.coe_add, Multiset.coe_nil]
          abel
        exact ⟨h.pages.pageSize_pos, h.pages.valid, (h.pages.owned.perm hperm).leave_append,
          h.pages.offset⟩
      exact (hkept.foldl_releaseWaiting fun q hq =>
        (h.located.waiting q hq).2).foldl_releaseDecode
    · have hkept : Staged { s with waitingQueue := [], decodeQueue := [] } [] :=
        ⟨by simp, by simp, h.staged.running, by simp⟩
      exact (hkept.foldl DpScheduler.releaseWaiting (fun s q h => h.releaseWaiting q) _).foldl
        DpScheduler.releaseDecode (fun s q h => h.releaseDecode q) _
  | _ =>
    exact ⟨h.located.apply hpool _ trivial, h.pages.congr rfl rfl rfl rfl (List.Perm.refl _),
      ⟨h.staged.waiting, h.staged.decode, h.staged.running, by simp⟩⟩

theorem kept_new (hnew : s.IsNew) : Kept s 0 [] := by
  refine ⟨located_new hnew, ?_, ?_⟩
  · obtain ⟨dpSize, pool, allocators, maxBatchSize, pageSize, chunkedPrefillSize, -, halloc, hs⟩ :=
      hnew
    unfold new at hs
    split_ifs at hs with hlen hbatch hpage
    obtain rfl := Except.ok.inj hs
    refine ⟨Nat.pos_of_ne_zero hpage, fun allocator hmem => ?_, ⟨by simp [live], fun r => ?_⟩,
      by simp⟩
    · obtain ⟨slotCapacity, hok⟩ := halloc allocator hmem
      exact ⟨CachePageAllocator.valid_withPageSize hok, CachePageAllocator.pageSize_withPageSize hok⟩
    · have hempty : sharedOn (cachedSlots ⟨[], [], {}, {}, allocators, pool, [], [], [],
          maxBatchSize, pageSize, chunkedPrefillSize, []⟩) [] r = ∅ := by
        simp [sharedOn, cachedSlots]
      exact hempty ▸ Exclusive.nil_empty pageSize _
  · obtain ⟨_, _, _, _, _, _, -, -, hs⟩ := hnew
    unfold new at hs
    split_ifs at hs
    obtain rfl := Except.ok.inj hs
    exact ⟨by simp, by simp, by simp, by simp⟩

/-! ### Slots in use -/

/-- The slot lies on a page that the rank has allocated. -/
def Allocated (s : DpScheduler) (rank x : ℕ) : Prop :=
  ∃ allocator, s.allocators[rank]? = some allocator ∧
    x / allocator.pageSize ∈ allocator.allocatedPageIndices

theorem PagesKept.allocated_of_mem (h : PagesKept s hand) {x : ℕ}
    (hx : x / s.pageSize ∈ s.allocatedPages rank) : s.Allocated rank x := by
  unfold allocatedPages at hx
  cases ha : s.allocators[rank]? with
  | none => simp [ha] at hx
  | some allocator =>
    rw [ha] at hx
    refine ⟨allocator, ha, ?_⟩
    rw [(h.valid allocator (List.mem_of_getElem? ha)).2]
    exact hx

/-- Slots in use lie on allocated pages. -/
theorem PagesKept.allocated_of_references (h : PagesKept s hand) {x : ℕ}
    (hx : s.References hand rank x) : s.Allocated rank x := by
  have hex := h.owned.exclusive rank
  refine h.allocated_of_mem ?_
  rcases hx with hx | ⟨q, hq, hx⟩
  · exact hex.shared_allocated x (.inl hx)
  · rcases (h.owned.laid q hq).slotsFrom_cases hx with hx | ⟨hrank, hx⟩
    · exact hex.shared_allocated x (.inr ⟨q, hq, hx⟩)
    · have hmem : q.owner ∈ ownersOn (s.live ++ hand) rank :=
        List.mem_map.mpr ⟨q, List.mem_filter.mpr ⟨hq, by simpa using hrank⟩, rfl⟩
      exact hex.owned_allocated _ hmem _
        ((hex.paged _ hmem).page_mem_firstPages h.pageSize_pos hx)

/-- The slots that a request was given are used by nobody else. -/
theorem notMem_of_given {p : ℕ} {pages : ℕ → Finset ℕ} {cached : ℕ → Set ℕ}
    {rest : List DpRequest} (hp : 0 < p) (h : Owned p pages cached (q :: rest))
    (hrank : q.PinnedTo rank) (hgiven : GivenSlots q) {x : ℕ}
    (hx : x ∈ q.request.allocatedCachePages) :
    x ∉ cached rank ∧ ∀ q' ∈ rest, x ∉ q'.slotsFrom rank := by
  have hex := h.exclusive rank
  rw [ownersOn_cons_of_pinned hrank] at hex
  obtain ⟨base, hseq, hle, hhit⟩ := hgiven.seq_eq
  have hslots : q.owner.slots =
      base.drop q.request.cacheHitTokenCount ++ q.request.allocatedCachePages := by
    change q.request.sequenceCachePages.drop _ = _
    rw [hseq, List.drop_append_of_le_length hhit]
  have hpublished : q.owner.published ≤ (base.drop q.request.cacheHitTokenCount).length := by
    rw [List.length_drop]
    exact DpRequest.published_le.trans (Nat.sub_le_sub_right hle _)
  obtain ⟨hshared, howners⟩ := hex.notMem_of_unpublished hp hslots hpublished hx
  refine ⟨fun hcached => hshared (.inl hcached), fun q' hq' hfrom => ?_⟩
  rcases (h.laid q' (List.mem_cons_of_mem _ hq')).slotsFrom_cases hfrom with
    hmatched | ⟨hrank', hown⟩
  · exact hshared (.inr ⟨q', List.mem_cons_of_mem _ hq', hmatched⟩)
  · exact howners q'.owner (List.mem_map.mpr
      ⟨q', List.mem_filter.mpr ⟨hq', by simpa using hrank'⟩, rfl⟩) hown

/-- Cached slots lie on allocated pages of the rank that they come from. -/
theorem Kept.allocated_of_cached (h : Kept s 0 []) {w : List UInt32} {x : ℕ}
    (hslot : s.prefixCache.slotAt w = some x) :
    ∃ rank, s.cacheOrigins.slotAt w = some rank ∧ s.Allocated rank x := by
  have hparallel := h.located.parallel w
  rw [hslot] at hparallel
  obtain ⟨rank, hrank⟩ := Option.isSome_iff_exists.mp hparallel.symm
  exact ⟨rank, hrank, h.pages.allocated_of_references (.inl ⟨w, hslot, hrank⟩)⟩

/-- The slots of a live request lie on allocated pages of the ranks that they come from. -/
theorem Kept.allocated_of_live (h : Kept s 0 []) (hq : q ∈ s.live) {k x : ℕ}
    (hslot : q.request.sequenceCachePages[k]? = some x) :
    ∃ rank, q.origins[k]? = some rank ∧ s.Allocated rank x := by
  have hq' : q ∈ s.live ++ [] := List.mem_append_left _ hq
  have hlt := (List.getElem?_eq_some_iff.mp hslot).1
  rw [← (h.pages.owned.laid q hq').length_origins] at hlt
  exact ⟨_, List.getElem?_eq_getElem hlt, h.pages.allocated_of_references
    (.inr ⟨q, hq', k, hslot, List.getElem?_eq_getElem hlt⟩)⟩

/-- The slots last given to a running request are used by nobody else. -/
theorem Kept.notMem_of_running (h : Kept s 0 []) {l₁ l₂ : List DpRequest}
    (heq : s.runningBatches.flatMap (·.batch.requests) = l₁ ++ q :: l₂) {x : ℕ}
    (hx : x ∈ q.request.allocatedCachePages) (hrank : q.PinnedTo rank) :
    x ∉ s.cachedSlots rank ∧
      ∀ q' ∈ s.waitingQueue ++ s.decodeQueue ++ (l₁ ++ l₂), x ∉ q'.slotsFrom rank := by
  have hperm : (s.live ++ []).Perm (q :: (s.waitingQueue ++ s.decodeQueue ++ (l₁ ++ l₂))) := by
    rw [← Multiset.coe_eq_coe]
    simp only [live, heq, ← Multiset.coe_add, ← Multiset.cons_coe, ← Multiset.singleton_add,
      Multiset.coe_nil]
    abel
  have hmem : q ∈ s.runningBatches.flatMap (·.batch.requests) := by simp [heq]
  obtain ⟨b, hb, hq⟩ := List.mem_flatMap.mp hmem
  exact notMem_of_given h.pages.pageSize_pos (h.pages.owned.perm hperm) hrank
    (h.staged.running b hb q hq).2 hx

/-- **Slots in use lie on allocated pages.** In every run without a flush in which requests are
resumed by the rank that began them and requests that finish start no page in use, every slot of the
prefix cache and of a queued or running request lies on a page allocated by the rank that it comes
from, and the slots last given to a running request are neither in the cache nor used by another
request. -/
theorem slots_allocated (hnew : s.IsNew) (ops : List DpOperation)
    (hflush : DpOperation.flushCache ∉ ops)
    (hkeeps : Along DpScheduler.apply (StepAlong KeepsPages) s ops) :
    (∀ w x, (s.run ops).prefixCache.slotAt w = some x →
      ∃ rank, (s.run ops).cacheOrigins.slotAt w = some rank ∧ (s.run ops).Allocated rank x) ∧
    (∀ q ∈ (s.run ops).live, ∀ (k x : ℕ), q.request.sequenceCachePages[k]? = some x →
      ∃ rank, q.origins[k]? = some rank ∧ (s.run ops).Allocated rank x) ∧
    ∀ l₁ q l₂, (s.run ops).runningBatches.flatMap (·.batch.requests) = l₁ ++ q :: l₂ →
      ∀ x ∈ q.request.allocatedCachePages, ∀ rank, q.PinnedTo rank →
        x ∉ (s.run ops).cachedSlots rank ∧
          ∀ q' ∈ (s.run ops).waitingQueue ++ (s.run ops).decodeQueue ++ (l₁ ++ l₂),
            x ∉ q'.slotsFrom rank := by
  have hnoflush : Along DpScheduler.apply
      (fun s op => StepAlong KeepsPages s op ∧ op ≠ .flushCache) s ops := by
    clear hnew
    induction ops generalizing s with
    | nil => trivial
    | cons op ops ih =>
      rw [List.mem_cons, not_or] at hflush
      exact ⟨⟨hkeeps.1, Ne.symm hflush.1⟩, ih hflush.2 hkeeps.2⟩
  have hinv := foldl_invariant (I := fun s : DpScheduler =>
      Pooled s.workerPool s.runningBatches [] ∧ Kept s 0 [])
    (fun s op hG h => ⟨h.1.apply op, h.2.apply h.1 op hG.2 hG.1⟩) hnoflush
    ⟨pooled_new hnew, kept_new hnew⟩
  have hkept : Kept (s.run ops) 0 [] := hinv.2
  exact ⟨fun w x hslot => hkept.allocated_of_cached hslot,
    fun q hq k x hslot => hkept.allocated_of_live hq hslot,
    fun l₁ q l₂ heq x hx rank hrank => hkept.notMem_of_running heq hx hrank⟩

/-- A request that skips the prefix cache finishes, and another one takes its page. -/
theorem slots_allocated_of_skipped_insert :
    ∃ s, IsNew s ∧
      let s := s.run [.enqueue ⟨"a"⟩ [1] ⟨1⟩ (some ⟨fakeBootstrapHost, 0, 0⟩) 0, .step,
        .complete 0 (.ok ⟨[⟨[7], true⟩]⟩), .step, .enqueue ⟨"b"⟩ [2] ⟨1⟩ none 0, .step]
      ∃ q ∈ s.live, q.request.sequenceCachePages = [0] ∧
        ∃ rank, q.origins[0]? = some rank ∧ s.Allocated rank 0 := by
  have hnew : IsNew _ := ⟨1, _, [⟨4, 2, [0, 1], ∅⟩], 4, 2, none, rfl, fun allocator h => ⟨4, by
      rw [List.mem_singleton.mp h]
      rfl⟩, rfl⟩
  refine ⟨_, hnew, _, List.mem_cons_self, rfl, ?_⟩
  refine (slots_allocated hnew _ (by simp) ?_).2.1 _ List.mem_cons_self 0 0 rfl
  refine ⟨trivial, ⟨trivial, fun _ => ?_⟩, trivial, ⟨?_, fun _ => ?_⟩, trivial, ⟨trivial, fun _ => ?_⟩,
    trivial⟩
  · refine And.intro ⟨fun allocator h => ?_, fun _ _ _ _ _ => trivial⟩ fun _ => trivial
    intro hlen hchunk matched a' slots halloc
    exact ⟨fun hne => absurd rfl hne, trivial⟩
  · refine And.intro (fun running hrunning => ?_) fun _ => trivial
    obtain rfl := Option.some.inj hrunning
    refine And.intro (fun _ => ⟨fun _ => by decide, fun x hx => ?_⟩) trivial
    rcases hx with ⟨w, hslot, -⟩ | ⟨q, hq, -⟩
    · exact absurd (hslot.symm.trans (RadixCache.slotAt_default w)) (by simp)
    · exact absurd hq List.not_mem_nil
  · exact And.intro ⟨fun allocator h => trivial, fun _ _ _ _ _ => trivial⟩ fun _ => trivial
  · refine And.intro ⟨fun allocator h => ?_, fun _ _ _ _ _ => trivial⟩ fun _ => trivial
    intro hlen hchunk matched a' slots halloc
    exact ⟨fun hne => absurd rfl hne, trivial⟩

/-- A request finishes together with its prompt. The page of the prompt is free although the prefix
cache refers to it. -/
theorem exists_cached_slot_free :
    ∃ s, IsNew s ∧
      let s := s.run [.enqueue ⟨"a"⟩ [1, 2] ⟨1⟩ none 0, .step,
        .complete 0 (.ok ⟨[⟨[7], true⟩]⟩), .step]
      s.prefixCache.slotAt [1] = some 0 ∧ s.cacheOrigins.slotAt [1] = some 0 ∧
        s.allocators = [⟨4, 2, [0, 1], ∅⟩] := by
  refine ⟨_, ⟨1, _, [⟨4, 2, [0, 1], ∅⟩], 4, 2, none, rfl, fun allocator h => ⟨4, ?_⟩, rfl⟩,
    by decide⟩
  rw [List.mem_singleton.mp h]
  rfl

end DpScheduler

end SglangRs
