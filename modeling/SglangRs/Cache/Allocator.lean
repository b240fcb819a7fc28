import Mathlib.Data.Finset.Card
import SglangRs.Paging.Layout

/-!
# The KV cache page allocator

The KV cache of a worker is cut into pages of `page_size` slots. `CachePageAllocator` keeps the
free pages in a queue and the allocated ones in a set, hands out slots to a sequence, filling the
rest of the sequence's last page before it takes a new one, and takes pages back: a page is owned
by the allocation that contains its first slot (`cache.rs`, lines 344–472). A `CachePageId(usize)`
is the number of a slot, a natural number here; its `page_index` and `slot_index_in_page` are the
quotient and the remainder by the page size.

## Main definitions

* `CachePageAllocator`, `CachePageAllocator.withPageSize`.
* `CachePageAllocator.allocateForSequence`, `CachePageAllocator.release`,
  `CachePageAllocator.reset`.
* `CachePageAllocator.Valid`: free and allocated pages partition the pages of the cache.

## Main results

* `CachePageAllocator.allocates_of_allocateForSequence`: what a successful allocation returns and
  takes.
* `CachePageAllocator.Allocates.paged_append`: the slots returned continue the sequence.
* `CachePageAllocator.Valid.allocated_release`: what a release gives back.
* `CachePageAllocator.Allocates.valid`, `CachePageAllocator.Valid.release`: the partition is kept.
* `CachePageAllocator.Allocates.release_slots`: releasing the slots of an allocation undoes it, the
  order of the free pages included.
-/

namespace SglangRs

open Paging

/-- The errors of the allocator. -/
inductive CacheAllocationError where
  | zeroPageSize
  | zeroSlotCapacity
  | slotCapacityNotPageAligned (slotCapacity pageSize : ℕ)
  | outOfSlots (requested available : ℕ)
deriving DecidableEq, Repr

/-- The allocator: `free_page_indices` is a queue, `allocated_page_indices` an ordered set. -/
@[ext]
structure CachePageAllocator where
  slotCapacity : ℕ
  pageSize : ℕ
  freePageIndices : List ℕ
  allocatedPageIndices : Finset ℕ
deriving DecidableEq

namespace CachePageAllocator

/-- A new allocator over `slotCapacity` slots, all pages free.

Source: `cache.rs`, lines 353–376. -/
def withPageSize (slotCapacity pageSize : ℕ) : Except CacheAllocationError CachePageAllocator :=
  if pageSize = 0 then .error .zeroPageSize
  else if slotCapacity = 0 then .error .zeroSlotCapacity
  else if slotCapacity % pageSize ≠ 0 then
    .error (.slotCapacityNotPageAligned slotCapacity pageSize)
  else
    .ok { slotCapacity, pageSize
          freePageIndices := List.range (slotCapacity / pageSize)
          allocatedPageIndices := ∅ }

variable (a : CachePageAllocator)

def availablePages : ℕ := a.freePageIndices.length

def availableSlots : ℕ := a.freePageIndices.length * a.pageSize

/-- The free slots after the last slot of a sequence, on the same page; none if that page is not
allocated. -/
def reusableTailSlots (sequenceSlots : List ℕ) : ℕ :=
  match sequenceSlots.getLast? with
  | none => 0
  | some slot =>
      if slot / a.pageSize ∈ a.allocatedPageIndices then
        a.pageSize - slot % a.pageSize - 1
      else 0

/-- The loop of `allocate_for_sequence` over the new pages: take `count` pages from the front of
the free list and as many slots of them as are still needed. -/
def takePages (pageSize : ℕ) :
    (count : ℕ) → (free : List ℕ) → (allocated : Finset ℕ) → (remaining : ℕ) →
      List ℕ × Finset ℕ × List ℕ
  | 0, free, allocated, _ => (free, allocated, [])
  | _ + 1, [], allocated, _ => ([], allocated, [])
  | count + 1, page :: free, allocated, remaining =>
      let slotsInPage := min remaining pageSize
      let (free', allocated', slots) :=
        takePages pageSize count free (insert page allocated) (remaining - slotsInPage)
      (free', allocated', List.range' (page * pageSize) slotsInPage ++ slots)

/-- Allocate `slotCount` slots that continue a sequence.

Source: `cache.rs`, lines 397–447. -/
def allocateForSequence (sequenceSlots : List ℕ) (slotCount : ℕ) :
    Except CacheAllocationError (CachePageAllocator × List ℕ) :=
  if slotCount = 0 then .ok (a, [])
  else
    let reusable := min (a.reusableTailSlots sequenceSlots) slotCount
    let newSlotCount := slotCount - reusable
    let requiredPageCount := (newSlotCount + a.pageSize - 1) / a.pageSize
    if requiredPageCount > a.freePageIndices.length then
      .error (.outOfSlots slotCount (reusable + a.availableSlots))
    else
      let firstSlot := sequenceSlots.getLast?.getD 0 + 1
      let (free, allocated, slots) :=
        takePages a.pageSize requiredPageCount a.freePageIndices a.allocatedPageIndices
          newSlotCount
      .ok ({ a with freePageIndices := free, allocatedPageIndices := allocated },
        List.range' firstSlot reusable ++ slots)

/-- Allocate slots that continue no sequence. -/
def allocate (slotCount : ℕ) :
    Except CacheAllocationError (CachePageAllocator × List ℕ) :=
  a.allocateForSequence [] slotCount

/-- The first loop of `release`: remove from the set the pages whose first slot is given. -/
def releasePages (slotCapacity pageSize : ℕ) :
    (slots : List ℕ) → (allocated : Finset ℕ) → Finset ℕ × List ℕ
  | [], allocated => (allocated, [])
  | slot :: slots, allocated =>
      if slot ≥ slotCapacity ∨ slot % pageSize ≠ 0 then
        releasePages slotCapacity pageSize slots allocated
      else
        let page := slot / pageSize
        if page ∈ allocated then
          let (allocated', released) :=
            releasePages slotCapacity pageSize slots (allocated.erase page)
          (allocated', page :: released)
        else releasePages slotCapacity pageSize slots allocated

/-- Give back the pages whose first slot is among `cachePages`. They are pushed to the front of
the free list in reverse order, which puts them there in the order of `cachePages`.

Source: `cache.rs`, lines 449–467. -/
def release (cachePages : List ℕ) : CachePageAllocator :=
  let (allocated, released) :=
    releasePages a.slotCapacity a.pageSize cachePages a.allocatedPageIndices
  { a with freePageIndices := released ++ a.freePageIndices, allocatedPageIndices := allocated }

/-- Free every page. -/
def reset : CachePageAllocator :=
  { a with freePageIndices := List.range (a.slotCapacity / a.pageSize), allocatedPageIndices := ∅ }

/-! ### The page partition -/

/-- Free and allocated pages partition the pages of the cache. -/
structure Valid : Prop where
  pageSize_pos : 0 < a.pageSize
  nodup_free : a.freePageIndices.Nodup
  free_notMem : ∀ g ∈ a.freePageIndices, g ∉ a.allocatedPageIndices
  mem_or_mem : ∀ g, (g ∈ a.freePageIndices ∨ g ∈ a.allocatedPageIndices) ↔
    g < a.slotCapacity / a.pageSize

variable {a} {a' : CachePageAllocator}

theorem valid_withPageSize {slotCapacity pageSize : ℕ}
    (h : withPageSize slotCapacity pageSize = .ok a) : a.Valid := by
  unfold withPageSize at h
  split_ifs at h with hp hc hm
  obtain rfl := Except.ok.inj h
  refine ⟨Nat.pos_of_ne_zero hp, List.nodup_range, by simp, by simp⟩

theorem pageSize_withPageSize {slotCapacity pageSize : ℕ}
    (h : withPageSize slotCapacity pageSize = .ok a) : a.pageSize = pageSize := by
  unfold withPageSize at h
  split_ifs at h
  rw [← Except.ok.inj h]

theorem Valid.reset (h : a.Valid) : a.reset.Valid :=
  ⟨h.pageSize_pos, List.nodup_range, by simp [CachePageAllocator.reset],
    by simp [CachePageAllocator.reset]⟩

/-- An allocated page lies inside the cache. -/
theorem Valid.mul_lt_of_mem (h : a.Valid) {g : ℕ} (hg : g ∈ a.allocatedPageIndices) :
    g * a.pageSize < a.slotCapacity := by
  have hlt : g < a.slotCapacity / a.pageSize := (h.mem_or_mem g).mp (.inr hg)
  calc g * a.pageSize < (g + 1) * a.pageSize := by
        rw [Nat.add_mul, one_mul]
        exact Nat.lt_add_of_pos_right h.pageSize_pos
    _ ≤ a.slotCapacity / a.pageSize * a.pageSize := Nat.mul_le_mul_right _ hlt
    _ ≤ a.slotCapacity := Nat.div_mul_le_self _ _

/-! ### Allocation -/

/-- The pages taken are the first free ones and the slots taken are laid out on them. -/
theorem takePages_eq {p : ℕ} (hp : 0 < p) {count : ℕ} {free : List ℕ} (hfree : count ≤ free.length)
    (allocated : Finset ℕ) {remaining rest : ℕ} (hrest : remaining + rest = count * p)
    (hlt : rest < p) :
    takePages p count free allocated remaining =
      (free.drop count, allocated ∪ (free.take count).toFinset,
        layout p (free.take count) remaining) := by
  induction count generalizing free allocated remaining with
  | zero =>
    have hrem : remaining = 0 := by omega
    simp [takePages, hrem]
  | succ count ih =>
    cases free with
    | nil => simp at hfree
    | cons page free =>
      rw [Nat.add_mul, one_mul] at hrest
      rcases Nat.lt_or_ge remaining p with hrp | hrp
      · have hcount : count = 0 := by
          by_contra hne
          have := Nat.le_mul_of_pos_left p (Nat.pos_of_ne_zero hne)
          omega
        subst hcount
        simp [takePages, layout_cons hp, Nat.min_eq_left hrp.le]
      · have hmin : min remaining p = p := Nat.min_eq_right hrp
        rw [takePages]
        simp only [hmin]
        have hrest' : remaining - p + rest = count * p := by omega
        rw [ih (by simpa using hfree) _ hrest']
        simp only [List.drop_succ_cons, List.take_succ_cons, List.toFinset_cons,
          layout_cons hp, hmin, Prod.mk.injEq, true_and, and_true]
        rw [Finset.insert_union, Finset.union_insert]

/-- What an allocation of `n` slots after the sequence `seq` returns: the slots, filling the rest
of the sequence's last page and then the pages `fresh` taken from the front of the free list. -/
structure Allocates (a : CachePageAllocator) (seq : List ℕ) (n : ℕ)
    (a' : CachePageAllocator) (slots : List ℕ) (fresh : List ℕ) : Prop where
  pageSize_eq : a'.pageSize = a.pageSize
  slotCapacity_eq : a'.slotCapacity = a.slotCapacity
  free_eq : a.freePageIndices = fresh ++ a'.freePageIndices
  allocated_eq : a'.allocatedPageIndices = a.allocatedPageIndices ∪ fresh.toFinset
  slots_eq : slots = List.range' (seq.getLast?.getD 0 + 1) (min (a.reusableTailSlots seq) n) ++
    layout a.pageSize fresh (n - min (a.reusableTailSlots seq) n)
  fills : ∃ rest < a.pageSize,
    n - min (a.reusableTailSlots seq) n + rest = fresh.length * a.pageSize

/-- **Specification of allocation.** A successful `allocate_for_sequence` takes the pages it needs
from the front of the free list. -/
theorem allocates_of_allocateForSequence (hp : 0 < a.pageSize) {seq : List ℕ} {n : ℕ}
    {slots : List ℕ} (h : a.allocateForSequence seq n = .ok (a', slots)) :
    ∃ fresh, Allocates a seq n a' slots fresh := by
  unfold allocateForSequence at h
  split_ifs at h with hn
  · obtain ⟨rfl, rfl⟩ := Prod.mk.inj (Except.ok.inj h)
    exact ⟨[], rfl, rfl, rfl, by simp, by simp [hn], 0, hp, by simp [hn]⟩
  · dsimp only at h
    split_ifs at h with hreq
    set r := min (a.reusableTailSlots seq) n
    set c := (n - r + a.pageSize - 1) / a.pageSize
    have hmod := Nat.div_add_mod (n - r + a.pageSize - 1) a.pageSize
    have hmodlt := Nat.mod_lt (n - r + a.pageSize - 1) hp
    have hrest : n - r + (a.pageSize - 1 - (n - r + a.pageSize - 1) % a.pageSize) =
        c * a.pageSize := by
      rw [Nat.mul_comm]
      change a.pageSize * c + _ = _ at hmod
      omega
    have hc : c ≤ a.freePageIndices.length := Nat.le_of_not_lt hreq
    rw [takePages_eq hp hc _ hrest (by omega)] at h
    obtain ⟨rfl, rfl⟩ := Prod.mk.inj (Except.ok.inj h)
    refine ⟨a.freePageIndices.take c, rfl, rfl, (List.take_append_drop _ _).symm, rfl, rfl,
      a.pageSize - 1 - (n - r + a.pageSize - 1) % a.pageSize, by omega, ?_⟩
    rw [List.length_take, Nat.min_eq_left hc]
    exact hrest

theorem pageSize_allocateForSequence {seq slots : List ℕ} {n : ℕ}
    (h : a.allocateForSequence seq n = .ok (a', slots)) : a'.pageSize = a.pageSize := by
  unfold allocateForSequence at h
  split_ifs at h with hn
  · rw [(Prod.mk.inj (Except.ok.inj h)).1]
  · dsimp only at h
    split_ifs at h
    rw [← (Prod.mk.inj (Except.ok.inj h)).1]

/-- The only error of an allocation is that the slots run out. -/
theorem eq_outOfSlots_of_allocateForSequence {seq : List ℕ} {n : ℕ}
    {e : CacheAllocationError} (h : a.allocateForSequence seq n = .error e) :
    ∃ requested available, e = .outOfSlots requested available := by
  unfold allocateForSequence at h
  split_ifs at h with hn
  dsimp only at h
  split_ifs at h with hreq
  exact ⟨_, _, (Except.error.inj h).symm⟩

/-- An allocation succeeds if there are enough free pages for all its slots. -/
theorem allocateForSequence_eq_ok (seq : List ℕ) {n : ℕ}
    (h : (n + a.pageSize - 1) / a.pageSize ≤ a.availablePages) :
    ∃ a' slots, a.allocateForSequence seq n = .ok (a', slots) := by
  unfold allocateForSequence
  split_ifs with hn
  · exact ⟨a, [], rfl⟩
  · dsimp only
    have hle : (n - min (a.reusableTailSlots seq) n + a.pageSize - 1) / a.pageSize ≤
        (n + a.pageSize - 1) / a.pageSize := Nat.div_le_div_right (by omega)
    have hnot : ¬(n - min (a.reusableTailSlots seq) n + a.pageSize - 1) / a.pageSize >
        a.freePageIndices.length := Nat.not_lt.mpr (Nat.le_trans hle h)
    rw [if_neg hnot]
    exact ⟨_, _, rfl⟩

namespace Allocates

variable {seq : List ℕ} {n : ℕ} {slots : List ℕ} {fresh : List ℕ}

theorem length_slots (h : Allocates a seq n a' slots fresh) : slots.length = n := by
  rw [h.slots_eq]
  simp

theorem mem_allocated (h : Allocates a seq n a' slots fresh) {g : ℕ} :
    g ∈ a'.allocatedPageIndices ↔ g ∈ a.allocatedPageIndices ∨ g ∈ fresh := by
  simp [h.allocated_eq]

/-- The reused slots stay on the page of the sequence's last slot. -/
theorem reusable_lt (hp : 0 < a.pageSize) :
    seq.getLast?.getD 0 % a.pageSize + a.reusableTailSlots seq < a.pageSize := by
  have hmod := Nat.mod_lt (seq.getLast?.getD 0) hp
  unfold reusableTailSlots
  cases hlast : seq.getLast? with
  | none => simpa using hp
  | some slot =>
    rw [hlast] at hmod
    simp only [Option.getD_some] at hmod ⊢
    split_ifs <;> omega

/-- An allocation owns exactly the pages it took. -/
theorem firstPages_slots (hp : 0 < a.pageSize) (h : Allocates a seq n a' slots fresh) :
    firstPages a.pageSize slots = fresh := by
  obtain ⟨rest, hlt, hrest⟩ := h.fills
  have hr : seq.getLast?.getD 0 % a.pageSize + min (a.reusableTailSlots seq) n < a.pageSize :=
    (Nat.add_le_add_left (Nat.min_le_left _ _) _).trans_lt (reusable_lt hp)
  rw [h.slots_eq, firstPages_append, firstPages_range'_tail hr,
    firstPages_layout hp fresh hrest hlt, List.nil_append]

theorem valid (h : Allocates a seq n a' slots fresh) (ha : a.Valid) : a'.Valid := by
  have hnodup := ha.nodup_free
  rw [h.free_eq] at hnodup
  refine ⟨h.pageSize_eq ▸ ha.pageSize_pos, (List.nodup_append.mp hnodup).2.1, ?_, ?_⟩
  · intro g hg hmem
    rcases h.mem_allocated.mp hmem with hold | hfresh
    · exact ha.free_notMem g (h.free_eq ▸ List.mem_append_right _ hg) hold
    · exact (List.disjoint_of_nodup_append hnodup) hfresh hg
  · intro g
    rw [h.pageSize_eq, h.slotCapacity_eq, ← ha.mem_or_mem g, h.mem_allocated, h.free_eq,
      List.mem_append]
    tauto

/-- The pages taken were free. -/
theorem fresh_notMem (h : Allocates a seq n a' slots fresh) (ha : a.Valid) {g : ℕ}
    (hg : g ∈ fresh) : g ∉ a.allocatedPageIndices :=
  ha.free_notMem g (h.free_eq ▸ List.mem_append_left _ hg)

theorem nodup_fresh (h : Allocates a seq n a' slots fresh) (ha : a.Valid) : fresh.Nodup := by
  have hnodup := ha.nodup_free
  rw [h.free_eq] at hnodup
  exact (List.nodup_append.mp hnodup).1

/-- A sequence whose last slot is the last of its page has no free slots to reuse. -/
theorem reusableTailSlots_eq_zero (hp : 0 < a.pageSize)
    (h : ∀ x, seq.getLast? = some x → x % a.pageSize = a.pageSize - 1) :
    a.reusableTailSlots seq = 0 := by
  unfold reusableTailSlots
  cases hlast : seq.getLast? with
  | none => rfl
  | some slot =>
    have := h slot hlast
    dsimp only
    split_ifs <;> omega

/-- **Continuing a sequence.** A sequence that is laid out on pages from a page boundary `k` on,
these pages being allocated, is continued by an allocation in the same way. -/
theorem paged_append (hp : 0 < a.pageSize) (h : Allocates a seq n a' slots fresh) {k : ℕ}
    (hk : a.pageSize ∣ k) (hle : k ≤ seq.length)
    (hoffset : ∀ i x, seq[i]? = some x → x % a.pageSize = i % a.pageSize)
    (hpaged : Paged a.pageSize (seq.drop k))
    (hown : ∀ g ∈ firstPages a.pageSize (seq.drop k), g ∈ a.allocatedPageIndices) :
    Paged a.pageSize (seq.drop k ++ slots) := by
  rcases eq_or_ne (seq.drop k) [] with hnil | hne
  · -- the sequence ends at the page boundary `k`
    have hlen : seq.length = k := Nat.le_antisymm (List.drop_eq_nil_iff.mp hnil) hle
    have hreuse : a.reusableTailSlots seq = 0 := by
      refine reusableTailSlots_eq_zero hp fun x hx => ?_
      rw [List.getLast?_eq_getElem?] at hx
      rw [hoffset _ _ hx, hlen]
      have hpos : 0 < k := by
        rcases Nat.eq_zero_or_pos k with h0 | h0
        · rw [hlen, h0, List.getElem?_eq_none (by omega)] at hx
          cases hx
        · exact h0
      obtain ⟨m, rfl⟩ := hk
      have hm : 0 < m := Nat.pos_of_mul_pos_left hpos
      have hsub : a.pageSize * m - 1 = a.pageSize * (m - 1) + (a.pageSize - 1) := by
        rw [Nat.mul_sub, Nat.mul_one]
        have := Nat.le_mul_of_pos_right a.pageSize hm
        omega
      rw [hsub, Nat.mul_add_mod, Nat.mod_eq_of_lt (by omega)]
    obtain ⟨rest, hlt, hrest⟩ := h.fills
    rw [hnil, List.nil_append, h.slots_eq, hreuse]
    simp only [Nat.zero_min, List.range'_zero, List.nil_append, Nat.sub_zero]
    rw [hreuse, Nat.zero_min, Nat.sub_zero] at hrest
    exact paged_layout hp fresh hrest hlt
  · have hlast : seq.getLast? = some ((seq.drop k).getLast hne) := by
      rw [← List.getLast?_eq_some_getLast hne, List.getLast?_drop, if_neg]
      exact fun hle => hne (List.drop_eq_nil_iff.mpr hle)
    have hmem : (seq.drop k).getLast hne / a.pageSize ∈ a.allocatedPageIndices :=
      hown _ (hpaged.page_mem_firstPages hp (List.getLast_mem hne))
    have hreuse : a.reusableTailSlots seq =
        a.pageSize - (seq.drop k).getLast hne % a.pageSize - 1 := by
      rw [reusableTailSlots, hlast]
      exact if_pos hmem
    rw [h.slots_eq, hlast, Option.getD_some]
    refine (hpaged.grow hp hne rfl ?_ ?_).1
    · rw [hreuse]
    · exact h.fills

end Allocates

/-! ### Release -/

theorem releasePages_fst {cap p : ℕ} (slots : List ℕ) (allocated : Finset ℕ)
    (hcap : ∀ g ∈ allocated, g * p < cap) :
    (releasePages cap p slots allocated).1 = allocated \ (firstPages p slots).toFinset := by
  induction slots generalizing allocated with
  | nil => simp [releasePages]
  | cons slot slots ih =>
    rw [← List.singleton_append, firstPages_append, List.toFinset_append,
      ← Finset.sup_eq_union, ← sdiff_sdiff_left]
    simp only [List.singleton_append, releasePages]
    split_ifs with hskip hmem
    · -- the slot is not the first slot of an allocated page
      rw [ih allocated hcap]
      congr 1
      symm
      apply Finset.sdiff_eq_self_of_disjoint
      rw [Finset.disjoint_left]
      intro g hg hfirst
      simp only [firstPages, List.mem_toFinset, List.mem_map, List.mem_filter,
        List.mem_singleton, decide_eq_true_eq] at hfirst
      obtain ⟨x, ⟨rfl, hmod⟩, rfl⟩ := hfirst
      have hlt := hcap _ hg
      rw [Nat.div_mul_cancel (Nat.dvd_of_mod_eq_zero hmod)] at hlt
      rcases hskip with hge | hne
      · omega
      · exact hne hmod
    · push Not at hskip
      rw [ih _ fun g hg => hcap g (Finset.mem_of_mem_erase hg)]
      simp [firstPages, hskip.2, Finset.sdiff_singleton_eq_erase]
    · push Not at hskip
      rw [ih allocated hcap]
      simp [firstPages, hskip.2, Finset.sdiff_singleton_eq_erase, Finset.erase_eq_of_notMem hmem]

/-- Releasing only removes pages. -/
theorem releasePages_subset {cap p : ℕ} (slots : List ℕ) (allocated : Finset ℕ) :
    (releasePages cap p slots allocated).1 ⊆ allocated := by
  induction slots generalizing allocated with
  | nil => simp [releasePages]
  | cons slot slots ih =>
    simp only [releasePages]
    split_ifs
    · exact ih _
    · exact (ih _).trans (Finset.erase_subset _ _)
    · exact ih _

/-- The pages released are those removed from the set, each once. -/
theorem releasePages_snd (cap p : ℕ) (slots : List ℕ) (allocated : Finset ℕ) :
    (releasePages cap p slots allocated).2.Nodup ∧
      ∀ g, g ∈ (releasePages cap p slots allocated).2 ↔
        g ∈ allocated ∧ g ∉ (releasePages cap p slots allocated).1 := by
  induction slots generalizing allocated with
  | nil => simp [releasePages]
  | cons slot slots ih =>
    simp only [releasePages]
    split_ifs with hskip hmem
    · exact ih allocated
    · obtain ⟨hnodup, hiff⟩ := ih (allocated.erase (slot / p))
      refine ⟨List.nodup_cons.mpr ⟨fun h => ?_, hnodup⟩, fun g => ?_⟩
      · exact Finset.notMem_erase _ _ ((hiff _).mp h).1
      · by_cases hg : g = slot / p
        · subst hg
          simp only [List.mem_cons, true_or, true_iff]
          exact ⟨hmem, fun h => Finset.notMem_erase _ _ (releasePages_subset slots _ h)⟩
        · simp [hg, hiff]
    · exact ih allocated

/-- Distinct allocated pages are released in the order of their first slots. -/
theorem releasePages_snd_eq {cap p : ℕ} (slots : List ℕ) (allocated : Finset ℕ)
    (hcap : ∀ g ∈ allocated, g * p < cap) (hnodup : (firstPages p slots).Nodup)
    (hsub : ∀ g ∈ firstPages p slots, g ∈ allocated) :
    (releasePages cap p slots allocated).2 = firstPages p slots := by
  induction slots generalizing allocated with
  | nil => rfl
  | cons slot slots ih =>
    by_cases hmod : slot % p = 0
    · have hfirst : firstPages p (slot :: slots) = slot / p :: firstPages p slots := by
        simp [firstPages, hmod]
      rw [hfirst] at hnodup hsub ⊢
      rw [List.nodup_cons] at hnodup
      have hmem : slot / p ∈ allocated := hsub _ List.mem_cons_self
      have hlt := hcap _ hmem
      rw [Nat.div_mul_cancel (Nat.dvd_of_mod_eq_zero hmod)] at hlt
      simp only [releasePages, ge_iff_le, Nat.not_le.mpr hlt, hmod, ne_eq, not_true_eq_false,
        or_self, ↓reduceIte, hmem, List.cons.injEq, true_and]
      refine ih _ (fun g hg => hcap g (Finset.mem_of_mem_erase hg)) hnodup.2 fun g hg => ?_
      exact Finset.mem_erase.mpr ⟨fun h => hnodup.1 (h ▸ hg), hsub g (List.mem_cons_of_mem _ hg)⟩
    · have hfirst : firstPages p (slot :: slots) = firstPages p slots := by
        simp [firstPages, hmod]
      rw [hfirst] at hnodup hsub ⊢
      simp only [releasePages, ne_eq, hmod, not_false_eq_true, or_true, ↓reduceIte]
      exact ih allocated hcap hnodup hsub

@[simp] theorem pageSize_release (slots : List ℕ) : (a.release slots).pageSize = a.pageSize := rfl

@[simp] theorem slotCapacity_release (slots : List ℕ) :
    (a.release slots).slotCapacity = a.slotCapacity := rfl

@[simp] theorem pageSize_reset : a.reset.pageSize = a.pageSize := rfl

@[simp] theorem allocated_reset : a.reset.allocatedPageIndices = ∅ := rfl

/-- **Specification of release.** The pages whose first slot is given leave the allocated set. -/
theorem Valid.allocated_release (ha : a.Valid) (slots : List ℕ) :
    (a.release slots).allocatedPageIndices =
      a.allocatedPageIndices \ (firstPages a.pageSize slots).toFinset :=
  releasePages_fst slots _ fun _ => ha.mul_lt_of_mem

theorem Valid.mem_allocated_release (ha : a.Valid) (slots : List ℕ) {g : ℕ} :
    g ∈ (a.release slots).allocatedPageIndices ↔
      g ∈ a.allocatedPageIndices ∧ g ∉ firstPages a.pageSize slots := by
  simp [ha.allocated_release]

theorem Valid.mem_free_release (ha : a.Valid) (slots : List ℕ) {g : ℕ} :
    g ∈ (a.release slots).freePageIndices ↔ g ∈ a.freePageIndices ∨
      g ∈ a.allocatedPageIndices ∧ g ∈ firstPages a.pageSize slots := by
  have hsnd := (releasePages_snd a.slotCapacity a.pageSize slots a.allocatedPageIndices).2 g
  rw [releasePages_fst slots _ fun _ => ha.mul_lt_of_mem] at hsnd
  simp only [release, List.mem_append, hsnd, Finset.mem_sdiff, List.mem_toFinset]
  tauto

theorem Valid.release (ha : a.Valid) (slots : List ℕ) : (a.release slots).Valid := by
  have hsnd := releasePages_snd a.slotCapacity a.pageSize slots a.allocatedPageIndices
  refine ⟨ha.pageSize_pos, ?_, ?_, fun g => ?_⟩
  · refine List.nodup_append.mpr ⟨hsnd.1, ha.nodup_free, ?_⟩
    rintro g hg _ hfree rfl
    exact ha.free_notMem g hfree ((hsnd.2 g).mp hg).1
  · intro g hg hmem
    rw [ha.mem_allocated_release] at hmem
    rcases (ha.mem_free_release slots).mp hg with hfree | hrel
    · exact ha.free_notMem g hfree hmem.1
    · exact hmem.2 hrel.2
  · rw [ha.mem_free_release, ha.mem_allocated_release, pageSize_release, slotCapacity_release,
      ← ha.mem_or_mem g]
    tauto

/-- **Releasing an allocation undoes it**, the order of the free pages included. -/
theorem Allocates.release_slots {seq : List ℕ} {n : ℕ} {slots : List ℕ} {fresh : List ℕ}
    (h : Allocates a seq n a' slots fresh) (ha : a.Valid) : a'.release slots = a := by
  have ha' := h.valid ha
  have hfirst : firstPages a'.pageSize slots = fresh := by
    rw [h.pageSize_eq]
    exact h.firstPages_slots ha.pageSize_pos
  have hfree : (a'.release slots).freePageIndices = a.freePageIndices := by
    change (releasePages a'.slotCapacity a'.pageSize slots a'.allocatedPageIndices).2 ++ _ = _
    rw [h.free_eq, releasePages_snd_eq slots _ (fun _ => ha'.mul_lt_of_mem)
        (hfirst ▸ h.nodup_fresh ha) (fun g hg => h.mem_allocated.mpr (.inr (hfirst ▸ hg))), hfirst]
  have halloc : (a'.release slots).allocatedPageIndices = a.allocatedPageIndices := by
    rw [ha'.allocated_release, hfirst, h.allocated_eq, Finset.union_sdiff_right]
    refine Finset.sdiff_eq_self_of_disjoint (Finset.disjoint_left.mpr fun g hg hf => ?_)
    exact h.fresh_notMem ha (List.mem_toFinset.mp hf) hg
  exact CachePageAllocator.ext h.slotCapacity_eq h.pageSize_eq hfree halloc

end CachePageAllocator

end SglangRs
