import Mathlib.Algebra.Order.Floor.Div
import SglangRs.Cache.Allocator

/-!
# Runs of the page allocator

Callers may hand any slots to the allocator: slots of other sequences, of pages that are free, slots
beyond the cache, the same slot twice. Whatever they do, free and allocated pages partition the pages
of the cache, and an allocation succeeds exactly when the free pages suffice for the slots that do
not fit on the last page of its sequence.

An allocation is undone by releasing what it returned. A sequence that grows from nothing fills its
pages one after the other, whoever else allocates in between.

## Main definitions

* `CachePageAllocator.Call`, `CachePageAllocator.run`: the calls of an allocator and its runs.
* `CachePageAllocator.tailRoom`: the slots left on the last page of a sequence.
* `CachePageAllocator.AllocatesExactly`: what an allocation promises.
* `CachePageAllocator.Grown`: a sequence grown by allocations.

## Main results

* `cache_page_allocator_partition`: the partition and the promises hold in every run.
* `cache_allocation_rollback`: rollbacks are exact, and grown sequences are laid out by pages.
-/

namespace SglangRs

open Paging

namespace CachePageAllocator

/-- The calls that change an allocator. -/
inductive Call where
  | allocate (slotCount : ℕ)
  | allocateForSequence (sequenceSlots : List ℕ) (slotCount : ℕ)
  | release (cachePages : List ℕ)
  | reset

variable (a : CachePageAllocator)

/-- The allocator after an allocation. The source checks that there are enough pages before it
changes anything. -/
def after (result : Except CacheAllocationError (CachePageAllocator × List ℕ)) :
    CachePageAllocator :=
  match result with
  | .error _ => a
  | .ok (a', _) => a'

/-- The allocator after a call. -/
def apply : Call → CachePageAllocator
  | .allocate slotCount => a.after (a.allocate slotCount)
  | .allocateForSequence sequenceSlots slotCount =>
      a.after (a.allocateForSequence sequenceSlots slotCount)
  | .release cachePages => a.release cachePages
  | .reset => a.reset

def run (calls : List Call) : CachePageAllocator := calls.foldl apply a

/-- The slots after the last slot of a sequence, on the same page, if that page is allocated. -/
def tailRoom (seq : List ℕ) : List ℕ :=
  List.range' (seq.getLast?.getD 0 + 1) (a.reusableTailSlots seq)

/-- What an allocation of `n` slots for a sequence promises. -/
structure AllocatesExactly (seq : List ℕ) (n : ℕ) : Prop where
  length : ∀ a' slots, a.allocateForSequence seq n = .ok (a', slots) → slots.length = n
  nodup : ∀ a' slots, a.allocateForSequence seq n = .ok (a', slots) → slots.Nodup
  lt_capacity : ∀ a' slots, a.allocateForSequence seq n = .ok (a', slots) →
    ∀ x ∈ slots, x < a.slotCapacity
  origin : ∀ a' slots, a.allocateForSequence seq n = .ok (a', slots) →
    ∀ x ∈ slots, x ∈ a.tailRoom seq ∨ x / a.pageSize ∈ a.freePageIndices
  outOfSlots_iff : (∃ requested available,
    a.allocateForSequence seq n = .error (.outOfSlots requested available)) ↔
      a.availablePages < (n - (a.tailRoom seq).length) ⌈/⌉ a.pageSize
  unchanged : ∀ error, a.allocateForSequence seq n = .error error →
    a.apply (.allocateForSequence seq n) = a

variable {a} {a' : CachePageAllocator} {seq : List ℕ} {n : ℕ} {slots : List ℕ}

/-! ### The partition -/

theorem Valid.after (h : a.Valid) (seq : List ℕ) (n : ℕ) :
    (a.after (a.allocateForSequence seq n)).Valid := by
  cases halloc : a.allocateForSequence seq n with
  | error error => exact h
  | ok allocation =>
    obtain ⟨fresh, hfresh⟩ := allocates_of_allocateForSequence h.pageSize_pos halloc
    exact hfresh.valid h

theorem Valid.apply (h : a.Valid) (call : Call) : (a.apply call).Valid := by
  cases call with
  | allocate slotCount => exact h.after [] slotCount
  | allocateForSequence seq n => exact h.after seq n
  | release cachePages => exact h.release cachePages
  | reset => exact h.reset

theorem Valid.run (h : a.Valid) (calls : List Call) : (a.run calls).Valid := by
  induction calls generalizing a with
  | nil => exact h
  | cons call calls ih => exact ih (h.apply call)

theorem slotCapacity_after (ha : a.Valid) (seq : List ℕ) (n : ℕ) :
    (a.after (a.allocateForSequence seq n)).slotCapacity = a.slotCapacity ∧
      (a.after (a.allocateForSequence seq n)).pageSize = a.pageSize := by
  cases halloc : a.allocateForSequence seq n with
  | error error => exact ⟨rfl, rfl⟩
  | ok allocation =>
    obtain ⟨fresh, hfresh⟩ := allocates_of_allocateForSequence ha.pageSize_pos halloc
    exact ⟨hfresh.slotCapacity_eq, hfresh.pageSize_eq⟩

/-- The size of the cache and of its pages never changes. -/
theorem slotCapacity_apply (ha : a.Valid) (call : Call) :
    (a.apply call).slotCapacity = a.slotCapacity ∧ (a.apply call).pageSize = a.pageSize := by
  cases call with
  | allocate slotCount => exact slotCapacity_after ha [] slotCount
  | allocateForSequence seq n => exact slotCapacity_after ha seq n
  | release cachePages => exact ⟨rfl, rfl⟩
  | reset => exact ⟨rfl, rfl⟩

theorem slotCapacity_run (ha : a.Valid) (calls : List Call) :
    (a.run calls).slotCapacity = a.slotCapacity ∧ (a.run calls).pageSize = a.pageSize := by
  induction calls generalizing a with
  | nil => exact ⟨rfl, rfl⟩
  | cons call calls ih =>
    obtain ⟨hcap, hpage⟩ := ih (ha.apply call)
    obtain ⟨hcap', hpage'⟩ := slotCapacity_apply ha call
    exact ⟨hcap.trans hcap', hpage.trans hpage'⟩

theorem Valid.disjoint (h : a.Valid) :
    Disjoint a.freePageIndices.toFinset a.allocatedPageIndices :=
  Finset.disjoint_left.mpr fun g hg => h.free_notMem g (List.mem_toFinset.mp hg)

theorem Valid.union_eq (h : a.Valid) :
    a.freePageIndices.toFinset ∪ a.allocatedPageIndices =
      Finset.range (a.slotCapacity / a.pageSize) := by
  ext g
  rw [Finset.mem_union, List.mem_toFinset, Finset.mem_range]
  exact h.mem_or_mem g

/-! ### The slots of an allocation -/

/-- The room of a sequence is what follows its last slot on the same page. -/
theorem mem_tailRoom (hp : 0 < a.pageSize) {x : ℕ} :
    x ∈ a.tailRoom seq ↔ ∃ last, seq.getLast? = some last ∧
      last / a.pageSize ∈ a.allocatedPageIndices ∧ last < x ∧
      x / a.pageSize = last / a.pageSize := by
  unfold tailRoom reusableTailSlots
  cases hlast : seq.getLast? with
  | none => simp
  | some last =>
    have hmod := Nat.mod_lt last hp
    have hdiv := Nat.div_add_mod last a.pageSize
    simp only [Option.getD_some, Option.some.injEq, exists_eq_left']
    split_ifs with hmem
    · simp only [List.mem_range'_1, hmem, true_and, Nat.div_eq_iff hp]
      rw [Nat.mul_comm] at hdiv
      omega
    · simp [hmem]

@[simp] theorem length_tailRoom : (a.tailRoom seq).length = a.reusableTailSlots seq := by
  simp [tailRoom]

/-- A slot of an allocated page lies in the cache. -/
theorem Valid.lt_slotCapacity (h : a.Valid) {x : ℕ}
    (hx : x / a.pageSize < a.slotCapacity / a.pageSize) : x < a.slotCapacity := by
  calc x < (x / a.pageSize + 1) * a.pageSize := by
        have hmod := Nat.mod_lt x h.pageSize_pos
        have hdiv := Nat.div_add_mod x a.pageSize
        rw [Nat.add_mul, one_mul, Nat.mul_comm]
        omega
    _ ≤ a.slotCapacity / a.pageSize * a.pageSize := Nat.mul_le_mul_right _ hx
    _ ≤ a.slotCapacity := Nat.div_mul_le_self _ _

/-- The slots on fresh pages are laid out on them. -/
theorem Allocates.paged_layout {fresh : List ℕ} (hp : 0 < a.pageSize)
    (h : Allocates a seq n a' slots fresh) :
    Paged a.pageSize (layout a.pageSize fresh (n - min (a.reusableTailSlots seq) n)) ∧
      firstPages a.pageSize (layout a.pageSize fresh (n - min (a.reusableTailSlots seq) n)) =
        fresh := by
  obtain ⟨rest, hlt, hrest⟩ := h.fills
  exact ⟨Paging.paged_layout hp fresh hrest hlt, firstPages_layout hp fresh hrest hlt⟩

/-- Slots whose first one starts a page continue no page, so all of them are on fresh pages. -/
theorem Allocates.paged_of_head {fresh : List ℕ} (hp : 0 < a.pageSize)
    (h : Allocates a seq n a' slots fresh)
    (hfirst : ∀ x, slots.head? = some x → a.pageSize ∣ x) : Paged a.pageSize slots := by
  have hlt : seq.getLast?.getD 0 % a.pageSize + a.reusableTailSlots seq < a.pageSize :=
    reusable_lt hp
  have hslots := h.slots_eq
  have hpaged := (h.paged_layout hp).1
  cases hreuse : min (a.reusableTailSlots seq) n with
  | zero =>
    rw [hreuse] at hslots hpaged
    rwa [hslots]
  | succ m =>
    exfalso
    rw [hreuse, List.range'_succ, List.cons_append] at hslots
    obtain ⟨k, hk⟩ := hfirst (seq.getLast?.getD 0 + 1) (by rw [hslots, List.head?_cons])
    have hmod : (seq.getLast?.getD 0 + 1) % a.pageSize =
        seq.getLast?.getD 0 % a.pageSize + 1 := by
      rw [Nat.add_mod, Nat.mod_eq_of_lt (a := 1) (by omega)]
      exact Nat.mod_eq_of_lt (by omega)
    rw [hk, Nat.mul_mod_right] at hmod
    omega

theorem Allocates.origin {fresh : List ℕ} (hp : 0 < a.pageSize)
    (h : Allocates a seq n a' slots fresh) {x : ℕ} (hx : x ∈ slots) :
    x ∈ a.tailRoom seq ∨ x / a.pageSize ∈ fresh := by
  obtain ⟨hpaged, hfirst⟩ := h.paged_layout hp
  rw [h.slots_eq] at hx
  rcases List.mem_append.mp hx with hx | hx
  · left
    rw [List.mem_range'_1] at hx
    rw [tailRoom, List.mem_range'_1]
    have := Nat.min_le_left (a.reusableTailSlots seq) n
    omega
  · right
    have hpage := hpaged.page_mem_firstPages hp hx
    rwa [hfirst] at hpage

/-- The pages of the slots returned exist. -/
theorem Allocates.page_lt {fresh : List ℕ} (h : Allocates a seq n a' slots fresh) (ha : a.Valid)
    {x : ℕ} (hx : x ∈ slots) : x / a.pageSize < a.slotCapacity / a.pageSize := by
  rw [← ha.mem_or_mem]
  rcases h.origin ha.pageSize_pos hx with hx | hx
  · obtain ⟨last, -, hmem, -, heq⟩ := (mem_tailRoom ha.pageSize_pos).mp hx
    exact .inr (heq ▸ hmem)
  · exact .inl (h.free_eq ▸ List.mem_append_left _ hx)

/-- The slots returned are distinct: those of the room lie on an allocated page, the others on pages
that were free. -/
theorem Allocates.nodup_slots {fresh : List ℕ} (h : Allocates a seq n a' slots fresh)
    (ha : a.Valid) : slots.Nodup := by
  have hp := ha.pageSize_pos
  obtain ⟨hpaged, hfirst⟩ := h.paged_layout hp
  rw [h.slots_eq]
  refine List.nodup_append.mpr
    ⟨List.nodup_range', hpaged.nodup hp (hfirst.symm ▸ h.nodup_fresh ha), ?_⟩
  rintro x hroom _ hx rfl
  have hmem : x ∈ a.tailRoom seq := by
    rw [List.mem_range'_1] at hroom
    rw [tailRoom, List.mem_range'_1]
    have := Nat.min_le_left (a.reusableTailSlots seq) n
    omega
  obtain ⟨last, -, hallocated, -, heq⟩ := (mem_tailRoom hp).mp hmem
  have hpage := hpaged.page_mem_firstPages hp hx
  rw [hfirst, heq] at hpage
  exact h.fresh_notMem ha hpage hallocated

theorem outOfSlots_iff (a : CachePageAllocator) (seq : List ℕ) (n : ℕ) :
    (∃ requested available,
      a.allocateForSequence seq n = .error (.outOfSlots requested available)) ↔
        a.availablePages < (n - (a.tailRoom seq).length) ⌈/⌉ a.pageSize := by
  have hsub : n - min (a.reusableTailSlots seq) n = n - a.reusableTailSlots seq := by omega
  rw [length_tailRoom, Nat.ceilDiv_eq_add_pred_div, ← hsub]
  unfold allocateForSequence availablePages
  dsimp only
  split_ifs with hn hreq
  · subst hn
    have hzero : (0 - min (a.reusableTailSlots seq) 0 + a.pageSize - 1) / a.pageSize = 0 := by
      rcases Nat.eq_zero_or_pos a.pageSize with hp | hp
      · rw [hp, Nat.div_zero]
      · exact Nat.div_eq_of_lt (by omega)
    refine iff_of_false (by simp) ?_
    rw [hzero]
    exact Nat.not_lt_zero _
  · exact iff_of_true ⟨_, _, rfl⟩ hreq
  · exact iff_of_false (by simp) hreq

theorem Valid.allocatesExactly (ha : a.Valid) (seq : List ℕ) (n : ℕ) :
    a.AllocatesExactly seq n := by
  have hspec {a' : CachePageAllocator} {slots : List ℕ}
      (h : a.allocateForSequence seq n = .ok (a', slots)) :=
    allocates_of_allocateForSequence ha.pageSize_pos h
  refine ⟨fun a' slots h => ?_, fun a' slots h => ?_, fun a' slots h x hx => ?_,
    fun a' slots h x hx => ?_, outOfSlots_iff a seq n, fun error h => ?_⟩
  · obtain ⟨fresh, hfresh⟩ := hspec h
    exact hfresh.length_slots
  · obtain ⟨fresh, hfresh⟩ := hspec h
    exact hfresh.nodup_slots ha
  · obtain ⟨fresh, hfresh⟩ := hspec h
    exact ha.lt_slotCapacity (hfresh.page_lt ha hx)
  · obtain ⟨fresh, hfresh⟩ := hspec h
    refine (hfresh.origin ha.pageSize_pos hx).imp_right fun hmem => ?_
    exact hfresh.free_eq ▸ List.mem_append_left _ hmem
  · rw [CachePageAllocator.apply, h]
    rfl

/-! ### Growing a sequence -/

/-- A sequence grown from nothing by allocations, while pages are allocated for other sequences and
pages that are not its own are released. -/
inductive Grown : CachePageAllocator → List ℕ → Prop
  | empty {a : CachePageAllocator} (ha : a.Valid) : Grown a []
  | grow {a a' : CachePageAllocator} {seq slots : List ℕ} {n : ℕ} (h : Grown a seq)
      (halloc : a.allocateForSequence seq n = .ok (a', slots)) : Grown a' (seq ++ slots)
  | allocate {a a' : CachePageAllocator} {seq other slots : List ℕ} {n : ℕ} (h : Grown a seq)
      (halloc : a.allocateForSequence other n = .ok (a', slots)) : Grown a' seq
  | release {a : CachePageAllocator} {seq cachePages : List ℕ} (h : Grown a seq)
      (hother : ∀ x ∈ cachePages, ∀ y ∈ seq, x / a.pageSize ≠ y / a.pageSize) :
      Grown (a.release cachePages) seq

/-- A grown sequence is laid out on pages that are allocated. -/
structure OnPages (a : CachePageAllocator) (seq : List ℕ) : Prop where
  valid : a.Valid
  paged : Paged a.pageSize seq
  allocated : ∀ g ∈ firstPages a.pageSize seq, g ∈ a.allocatedPageIndices

theorem OnPages.grow (h : OnPages a seq) (halloc : a.allocateForSequence seq n = .ok (a', slots)) :
    OnPages a' (seq ++ slots) := by
  have hp := h.valid.pageSize_pos
  obtain ⟨fresh, hfresh⟩ := allocates_of_allocateForSequence hp halloc
  refine ⟨hfresh.valid h.valid, ?_, fun g hg => ?_⟩
  · rw [hfresh.pageSize_eq]
    refine hfresh.paged_append hp (Nat.dvd_zero _) (Nat.zero_le _) (fun i x hx => ?_) h.paged
      h.allocated
    obtain ⟨hi, rfl⟩ := List.getElem?_eq_some_iff.mp hx
    exact h.paged.mod_getElem hi
  · rw [hfresh.pageSize_eq, firstPages_append, hfresh.firstPages_slots hp] at hg
    exact hfresh.mem_allocated.mpr ((List.mem_append.mp hg).imp_left (h.allocated g))

theorem OnPages.allocate (h : OnPages a seq) {other : List ℕ}
    (halloc : a.allocateForSequence other n = .ok (a', slots)) : OnPages a' seq := by
  obtain ⟨fresh, hfresh⟩ := allocates_of_allocateForSequence h.valid.pageSize_pos halloc
  refine ⟨hfresh.valid h.valid, hfresh.pageSize_eq ▸ h.paged, fun g hg => ?_⟩
  rw [hfresh.pageSize_eq] at hg
  exact hfresh.mem_allocated.mpr (.inl (h.allocated g hg))

theorem OnPages.release (h : OnPages a seq) {cachePages : List ℕ}
    (hother : ∀ x ∈ cachePages, ∀ y ∈ seq, x / a.pageSize ≠ y / a.pageSize) :
    OnPages (a.release cachePages) seq := by
  have hp := h.valid.pageSize_pos
  refine ⟨h.valid.release cachePages, h.paged, fun g hg => ?_⟩
  rw [pageSize_release] at hg
  refine (h.valid.mem_allocated_release cachePages).mpr ⟨h.allocated g hg, fun hmem => ?_⟩
  exact hother _ ((mem_firstPages hp).mp hmem) _ ((mem_firstPages hp).mp hg) rfl

theorem Grown.onPages (h : Grown a seq) : OnPages a seq := by
  induction h with
  | empty ha => exact ⟨ha, Paged.nil ha.pageSize_pos, by simp⟩
  | grow h halloc ih => exact ih.grow halloc
  | allocate h halloc ih => exact ih.allocate halloc
  | release h hother ih => exact ih.release hother

/-- The slots of one block of a sequence laid out on pages lie one after the other on one page. -/
theorem OnPages.block (h : OnPages a seq) {i j x y : ℕ} (hx : seq[i]? = some x)
    (hy : seq[j]? = some y) (hij : i / a.pageSize = j / a.pageSize) :
    x / a.pageSize = y / a.pageSize ∧ (j = i + 1 → y = x + 1) := by
  have hp := h.valid.pageSize_pos
  obtain ⟨hi, rfl⟩ := List.getElem?_eq_some_iff.mp hx
  obtain ⟨hj, rfl⟩ := List.getElem?_eq_some_iff.mp hy
  refine ⟨?_, ?_⟩
  · rw [h.paged.div_getElem hp hi, h.paged.div_getElem hp hj, hij]
  · rintro rfl
    have hmod := Nat.div_add_mod i a.pageSize
    have hmod' := Nat.div_add_mod (i + 1) a.pageSize
    rw [h.paged.getElem_eq hi, h.paged.getElem_eq hj, hij]
    rw [hij] at hmod
    omega

end CachePageAllocator

open CachePageAllocator

/-- **The partition of the pages.** In every run of an allocator the free list has no duplicates and
partitions the pages together with the allocated set, and an allocation that succeeds returns as
many distinct slots of the cache as requested, each following the last slot of the sequence on the
same page or on a page that was free. It fails exactly if the slots beyond the room on the last page
need more pages than are free, and then changes nothing. -/
theorem cache_page_allocator_partition {slotCapacity pageSize : ℕ} {a : CachePageAllocator}
    (hnew : withPageSize slotCapacity pageSize = .ok a) (calls : List Call) :
    (a.run calls).slotCapacity = slotCapacity ∧ (a.run calls).pageSize = pageSize ∧
      (a.run calls).freePageIndices.Nodup ∧
      Disjoint (a.run calls).freePageIndices.toFinset (a.run calls).allocatedPageIndices ∧
      (a.run calls).freePageIndices.toFinset ∪ (a.run calls).allocatedPageIndices =
        Finset.range (slotCapacity / pageSize) ∧
      ∀ seq n, (a.run calls).AllocatesExactly seq n := by
  have hvalid := valid_withPageSize hnew
  have hcapacity : a.slotCapacity = slotCapacity := by
    unfold withPageSize at hnew
    split_ifs at hnew
    rw [← Except.ok.inj hnew]
  obtain ⟨hcap, hpage⟩ := slotCapacity_run hvalid calls
  rw [hcapacity] at hcap
  rw [pageSize_withPageSize hnew] at hpage
  have hrun := hvalid.run calls
  refine ⟨hcap, hpage, hrun.nodup_free, hrun.disjoint, ?_, hrun.allocatesExactly⟩
  rw [hrun.union_eq, hcap, hpage]

/-- Three pages of two slots, a sequence continued on its page and on a new one, a repeated release,
and an allocation that finds no pages. -/
theorem cache_page_allocator_partition_threePages :
    let calls : List Call := [.allocate 1, .allocateForSequence [0] 2, .release [2, 2, 3, 99],
      .allocateForSequence [7] 100]
    ∃ a, withPageSize 6 2 = .ok a ∧ (a.run calls).freePageIndices.Nodup ∧
      (a.run calls).freePageIndices = [1, 2] :=
  ⟨⟨6, 2, [0, 1, 2], ∅⟩, by decide,
    (@cache_page_allocator_partition 6 2 _ (by decide) _).2.2.1, by decide⟩

/-- **Rollback is exact.** Releasing the slots that an allocation returned restores the allocator,
the order of the free list included, and in a sequence grown by allocations the slot at position `i`
is at index `i % pageSize` of its page, the slots of one block lying one after the other on one
page. -/
theorem cache_allocation_rollback :
    (∀ (a a' : CachePageAllocator) (seq slots : List ℕ) (n : ℕ), a.Valid →
      a.allocateForSequence seq n = .ok (a', slots) → a'.release slots = a) ∧
    ∀ (a : CachePageAllocator) (seq : List ℕ), Grown a seq →
      (∀ i x, seq[i]? = some x → x % a.pageSize = i % a.pageSize) ∧
      ∀ i j x y, seq[i]? = some x → seq[j]? = some y → i / a.pageSize = j / a.pageSize →
        x / a.pageSize = y / a.pageSize ∧ (j = i + 1 → y = x + 1) := by
  refine ⟨fun a a' seq slots n ha halloc => ?_, fun a seq hgrown => ⟨fun i x hx => ?_, ?_⟩⟩
  · obtain ⟨fresh, hfresh⟩ := allocates_of_allocateForSequence ha.pageSize_pos halloc
    exact hfresh.release_slots ha
  · obtain ⟨hi, rfl⟩ := List.getElem?_eq_some_iff.mp hx
    exact hgrown.onPages.paged.mod_getElem hi
  · exact fun i j x y hx hy hij => hgrown.onPages.block hx hy hij

/-- A sequence of one slot grows by two, on the rest of its page and on a new page. -/
theorem cache_allocation_rollback_twoPages :
    release ⟨6, 2, [2], insert 1 {0}⟩ [1, 2] = (⟨6, 2, [1, 2], {0}⟩ : CachePageAllocator) :=
  cache_allocation_rollback.1 _ _ [0] _ 2
    ⟨by decide, by decide, by decide, fun g => by
      simp only [List.mem_cons, List.not_mem_nil, or_false, Finset.mem_singleton]
      omega⟩
    rfl

end SglangRs
