import SglangRs.Paging.Layout
import SglangRs.Runner.Lowering

/-!
# The block tables of the descriptor

A kernel finds the slot of the `i`-th token of a sequence through its block table: the page at entry
`i / p` of the table, and the slot `i % p` of that page. The descriptor builds the table of a
request from the set of the pages of its slots (`graph_runner.rs`, lines 217–237). The set is
ordered by page number, and the tables of a batch are filled up with page 0 to one width.

The allocator hands out pages in the order of its free list, which after some releases is not the
order of their numbers. So a table is right only if the blocks of the sequence happen to lie on
pages of increasing numbers.

## Main definitions

* `Paging.Addresses`: a block table finds the slots of a sequence.
* `Paging.blockPages`: the page of every block of a sequence.
* `ScheduledRequest.InBlockOrder`: the pages of the blocks are in increasing order.

## Main results

* `block_tables_address_iff`: the block tables of a formed batch find all slots exactly if the
  blocks of every sequence are in order.
-/

namespace Paging

variable {p : ℕ} {slots : List ℕ}

/-! ### Tables of pages by block -/

/-- The page of the first slot of every block. -/
def blockPages (p : ℕ) (slots : List ℕ) : List ℕ :=
  (List.range ((slots.length + p - 1) / p)).map fun k => slots.getD (k * p) 0 / p

/-- The table finds every slot by the block and the offset of its position. -/
def Addresses (p : ℕ) (table slots : List ℕ) : Prop :=
  ∀ i, ∀ hi : i < slots.length, ∃ g, table[i / p]? = some g ∧ g * p + i % p = slots[i]

theorem lt_length_blockPages (hp : 0 < p) {k : ℕ} :
    k < (blockPages p slots).length ↔ k * p < slots.length := by
  rw [blockPages, List.length_map, List.length_range, Nat.lt_div_iff_mul_lt hp]
  omega

theorem getElem_blockPages {k : ℕ} (hk : k < (blockPages p slots).length) :
    (blockPages p slots)[k] = slots.getD (k * p) 0 / p := by
  simp [blockPages]

theorem div_lt_length_blockPages (hp : 0 < p) {i : ℕ} (hi : i < slots.length) :
    i / p < (blockPages p slots).length :=
  (lt_length_blockPages hp).mpr ((Nat.div_mul_le_self i p).trans_lt hi)

/-- The pages of the blocks are pages of slots. -/
theorem mem_of_mem_blockPages (hp : 0 < p) {g : ℕ} (hg : g ∈ blockPages p slots) :
    g ∈ slots.map (· / p) := by
  obtain ⟨k, hk, rfl⟩ := List.mem_iff_getElem.mp hg
  have hlt := (lt_length_blockPages hp).mp hk
  rw [getElem_blockPages, List.getD_eq_getElem _ _ hlt]
  exact List.mem_map_of_mem (List.getElem_mem hlt)

/-- A table finds the slots exactly if these are laid out block by block and the table begins with
the pages of the blocks. -/
theorem addresses_iff (hp : 0 < p) {table : List ℕ} : Addresses p table slots ↔
    slots = layout p (blockPages p slots) slots.length ∧ blockPages p slots <+: table := by
  constructor
  · intro h
    have hblock (k : ℕ) (hk : k < (blockPages p slots).length) :
        table[k]? = some (blockPages p slots)[k] := by
      have hlt := (lt_length_blockPages hp).mp hk
      obtain ⟨g, hg, heq⟩ := h (k * p) hlt
      rw [Nat.mul_div_cancel _ hp] at hg
      rw [Nat.mul_mod_left, Nat.add_zero] at heq
      rw [hg, getElem_blockPages, List.getD_eq_getElem _ _ hlt, ← heq, Nat.mul_div_cancel _ hp]
    refine ⟨List.ext_getElem (by simp) fun i hi hi' => ?_, ?_⟩
    · have hlt := div_lt_length_blockPages hp hi
      obtain ⟨g, hg, heq⟩ := h i hi
      rw [hblock _ hlt] at hg
      rw [getElem_layout, List.getD_eq_getElem _ _ hlt, Option.some.inj hg, heq]
    · rw [List.prefix_iff_getElem?]
      exact hblock
  · rintro ⟨hlaid, hprefix⟩ i hi
    have hlt := div_lt_length_blockPages hp hi
    refine ⟨_, List.prefix_iff_getElem?.mp hprefix (i / p) hlt, ?_⟩
    have hslot := getElem_layout p (blockPages p slots) (n := slots.length) (i := i) (by simpa)
    rw [List.getD_eq_getElem _ _ hlt] at hslot
    rw [← hslot]
    congr 1
    exact hlaid.symm

/-- If a sequence is laid out block by block then its pages are those of its blocks. -/
theorem mem_blockPages_iff (hp : 0 < p)
    (hlaid : slots = layout p (blockPages p slots) slots.length) {g : ℕ} :
    g ∈ slots.map (· / p) ↔ g ∈ blockPages p slots := by
  refine ⟨fun hg => ?_, mem_of_mem_blockPages hp⟩
  obtain ⟨x, hx, rfl⟩ := List.mem_map.mp hg
  obtain ⟨i, hi, rfl⟩ := List.mem_iff_getElem.mp hx
  have haddress := (addresses_iff hp).mpr ⟨hlaid, List.prefix_refl _⟩
  obtain ⟨g, hg, heq⟩ := haddress i hi
  have hpage : slots[i] / p = g := by
    rw [← heq, Nat.mul_comm, Nat.mul_add_div hp, Nat.div_eq_of_lt (Nat.mod_lt _ hp), Nat.add_zero]
  rw [hpage]
  exact List.mem_of_getElem? hg

/-! ### Tables made from the set of pages -/

/-- The blocks lie on pages of increasing numbers, except that blocks at the end may lie on page 0
again. -/
def Ascending (p : ℕ) (slots : List ℕ) : Prop :=
  ∃ pages k, blockPages p slots = pages ++ List.replicate k 0 ∧ pages.Pairwise (· < ·) ∧
    (k ≠ 0 → 0 ∈ pages)

/-- The sorted pages of a sequence, filled up with page 0, begin with the pages of its blocks
exactly if these are in order and there are enough entries. -/
theorem blockPages_prefix_iff (hp : 0 < p)
    (hlaid : slots = layout p (blockPages p slots) slots.length) {table : List ℕ}
    (hsorted : table.Pairwise (· < ·)) (hmem : ∀ g, g ∈ table ↔ g ∈ slots.map (· / p)) {width : ℕ}
    (hwidth : table.length ≤ width) : blockPages p slots <+: table.rightpad width 0 ↔
      Ascending p slots ∧ (blockPages p slots).length ≤ width := by
  have hblock (g : ℕ) : g ∈ table ↔ g ∈ blockPages p slots :=
    (hmem g).trans (mem_blockPages_iff hp hlaid)
  constructor
  · intro hprefix
    have hle : (blockPages p slots).length ≤ width := by
      simpa [List.rightpad, hwidth] using hprefix.length_le
    have hlength : table.length ≤ (blockPages p slots).length :=
      (hsorted.nodup.subperm fun g => (hblock g).mp).length_le
    have heq : blockPages p slots =
        table ++ List.replicate ((blockPages p slots).length - table.length) 0 := by
      have htake := List.prefix_iff_eq_take.mp hprefix
      rw [List.rightpad, List.take_append, List.take_of_length_le hlength,
        List.take_replicate] at htake
      rw [Nat.min_eq_left (by omega)] at htake
      exact htake
    refine ⟨⟨table, _, heq, hsorted, fun hne => (hblock 0).mpr ?_⟩, hle⟩
    rw [heq]
    exact List.mem_append_right _ (List.mem_replicate.mpr ⟨hne, rfl⟩)
  · rintro ⟨⟨pages, k, heq, hpages, hzero⟩, hle⟩
    obtain rfl : table = pages := hsorted.eq_of_mem_iff hpages fun g => by
      rw [hblock, heq, List.mem_append, List.mem_replicate]
      exact ⟨fun h => h.elim id fun ⟨hne, hg⟩ => hg ▸ hzero hne, .inl⟩
    rw [heq, List.length_append, List.length_replicate] at hle
    rw [heq, List.rightpad, List.prefix_append_right_inj]
    exact ⟨List.replicate (width - table.length - k) 0, by
      rw [← List.replicate_add]
      congr 1
      omega⟩

end Paging

namespace SglangRs

open Paging

namespace ScheduledRequest

variable (r : ScheduledRequest)

theorem pairwise_blockTable (pageSize : ℕ) : (r.blockTable pageSize).Pairwise (· < ·) := by
  have hle := List.pairwise_insertionSort (· ≤ ·) (r.sequenceCachePages.map (· / pageSize)).dedup
  have hnodup : (r.blockTable pageSize).Nodup :=
    (List.perm_insertionSort _ _).nodup_iff.mpr (List.nodup_dedup _)
  exact (hle.and hnodup).imp fun h => lt_of_le_of_ne h.1 h.2

theorem mem_blockTable {pageSize g : ℕ} :
    g ∈ r.blockTable pageSize ↔ g ∈ r.sequenceCachePages.map (· / pageSize) := by
  rw [blockTable, List.mem_insertionSort, List.mem_dedup]

/-- The blocks of a sequence are laid out on pages, one after the other, and the pages are in
increasing order. Blocks at the end may lie on page 0 again if some request of the batch has as many
pages as this one has blocks. -/
structure InBlockOrder (batch : ScheduleBatch) (pageSize : ℕ) : Prop where
  laid_out : r.sequenceCachePages =
    layout pageSize (blockPages pageSize r.sequenceCachePages) r.sequenceCachePages.length
  ascending : Ascending pageSize r.sequenceCachePages
  width : ∃ r' ∈ batch.requests, (blockPages pageSize r.sequenceCachePages).length ≤
    (r'.sequenceCachePages.map (· / pageSize)).dedup.length

end ScheduledRequest

namespace ModelInputDescriptor

/-- The block tables of a descriptor find the slots of all sequences of the batch. -/
def AddressesSlots (d : ModelInputDescriptor) (batch : ScheduleBatch) (pageSize : ℕ) : Prop :=
  ∀ k, ∀ hk : k < batch.requests.length, ∃ table, d.blockTables[k]? = some table ∧
    Addresses pageSize table batch.requests[k].sequenceCachePages

theorem blockTables_pushRequest (forwardMode : ForwardMode) (pageSize : ℕ)
    (d : ModelInputDescriptor) (r : ScheduledRequest) :
    (pushRequest forwardMode pageSize d r).blockTables =
      d.blockTables ++ [r.blockTable pageSize] := by
  unfold pushRequest
  cases forwardMode with
  | prefill => rfl
  | decode => rfl
  | mixed =>
    dsimp only
    split_ifs <;> rfl

theorem blockTables_describe (batch : ScheduleBatch) (pageSize : ℕ) :
    (describe batch pageSize).blockTables =
      alignBlockTables (batch.requests.map (·.blockTable pageSize)) := by
  rw [List.map_eq_flatMap]
  exact congrArg alignBlockTables
    (foldl_eq_append_flatMap (fun r _ d => blockTables_pushRequest _ pageSize d r) _)

/-- The width that the tables are filled up to. -/
theorem le_width_iff {tables : List (List ℕ)} (hne : tables ≠ []) {n : ℕ} :
    n ≤ max ((tables.map List.length).max?.getD 1) 1 ↔
      n ≤ 1 ∨ ∃ table ∈ tables, n ≤ table.length := by
  obtain ⟨m, hm⟩ : ∃ m, (tables.map List.length).max? = some m :=
    Option.isSome_iff_exists.mp (by simpa [List.isSome_max?_iff] using hne)
  obtain ⟨hmem, hmax⟩ := List.max?_eq_some_iff.mp hm
  rw [hm, Option.getD_some, le_max_iff, or_comm]
  refine or_congr_right ⟨fun hn => ?_, fun ⟨table, htable, hn⟩ => ?_⟩
  · obtain ⟨table, htable, rfl⟩ := List.mem_map.mp hmem
    exact ⟨table, htable, hn⟩
  · exact hn.trans (hmax _ (List.mem_map_of_mem htable))

end ModelInputDescriptor

namespace ScheduledRequest

variable {r : ScheduledRequest} {batch : ScheduleBatch} {pageSize : ℕ}

/-- A sequence with a block is on a page. -/
theorem length_blockPages_le_of_le_one (hp : 0 < pageSize)
    (h : (blockPages pageSize r.sequenceCachePages).length ≤ 1) :
    (blockPages pageSize r.sequenceCachePages).length ≤ (r.blockTable pageSize).length := by
  rcases Nat.eq_zero_or_pos (blockPages pageSize r.sequenceCachePages).length with hzero | hpos
  · omega
  · obtain ⟨g, hg⟩ := List.exists_mem_of_length_pos hpos
    have hmem := r.mem_blockTable.mpr (mem_of_mem_blockPages hp hg)
    exact h.trans (List.length_pos_of_mem hmem)

/-- The table of one request finds its slots exactly if its blocks are in order. -/
theorem addresses_blockTable_iff (hp : 0 < pageSize) (hr : r ∈ batch.requests) {width : ℕ}
    (hwidth : width =
      max (((batch.requests.map (·.blockTable pageSize)).map List.length).max?.getD 1) 1) :
    Addresses pageSize ((r.blockTable pageSize).rightpad width 0) r.sequenceCachePages ↔
      r.InBlockOrder batch pageSize := by
  have hne : batch.requests.map (·.blockTable pageSize) ≠ [] := by
    simpa using List.ne_nil_of_mem hr
  have hle (n : ℕ) := hwidth ▸ ModelInputDescriptor.le_width_iff (n := n) hne
  have htable : (r.blockTable pageSize).length ≤ width :=
    (hle _).mpr (.inr ⟨_, List.mem_map_of_mem hr, le_rfl⟩)
  have hblocks : (blockPages pageSize r.sequenceCachePages).length ≤ width ↔
      ∃ r' ∈ batch.requests, (blockPages pageSize r.sequenceCachePages).length ≤
        (r'.sequenceCachePages.map (· / pageSize)).dedup.length := by
    rw [hle]
    constructor
    · rintro (hone | ⟨_, htable, hlength⟩)
      · exact ⟨r, hr, by simpa [blockTable] using length_blockPages_le_of_le_one hp hone⟩
      · obtain ⟨r', hr', rfl⟩ := List.mem_map.mp htable
        exact ⟨r', hr', by simpa [blockTable] using hlength⟩
    · rintro ⟨r', hr', hlength⟩
      exact .inr ⟨_, List.mem_map_of_mem hr', by simpa [blockTable] using hlength⟩
  rw [addresses_iff hp]
  constructor
  · rintro ⟨hlaid, hprefix⟩
    obtain ⟨hascending, hlength⟩ := (blockPages_prefix_iff hp hlaid (r.pairwise_blockTable pageSize)
      (fun _ => r.mem_blockTable) htable).mp hprefix
    exact ⟨hlaid, hascending, hblocks.mp hlength⟩
  · rintro ⟨hlaid, hascending, hlength⟩
    exact ⟨hlaid, (blockPages_prefix_iff hp hlaid (r.pairwise_blockTable pageSize)
      (fun _ => r.mem_blockTable) htable).mpr ⟨hascending, hblocks.mpr hlength⟩⟩

end ScheduledRequest

/-! ### Batches -/

/-- The block tables of a batch find all slots exactly if the blocks of every sequence are in
order. -/
theorem describe_addressesSlots_iff {batch : ScheduleBatch} {pageSize : ℕ} (hp : 0 < pageSize) :
    (ModelInputDescriptor.describe batch pageSize).AddressesSlots batch pageSize ↔
      ∀ r ∈ batch.requests, r.InBlockOrder batch pageSize := by
  have hrow (k : ℕ) (hk : k < batch.requests.length) :
      (∃ table, (ModelInputDescriptor.describe batch pageSize).blockTables[k]? = some table ∧
        Addresses pageSize table batch.requests[k].sequenceCachePages) ↔
      (batch.requests[k]).InBlockOrder batch pageSize := by
    rw [ModelInputDescriptor.blockTables_describe, ← ScheduledRequest.addresses_blockTable_iff hp
      (List.getElem_mem hk) rfl]
    simp [ModelInputDescriptor.alignBlockTables, hk]
  constructor
  · intro h r hr
    obtain ⟨k, hk, rfl⟩ := List.mem_iff_getElem.mp hr
    exact (hrow k hk).mp (h k hk)
  · exact fun h k hk => (hrow k hk).mpr (h _ (List.getElem_mem hk))

section Runs

open Scheduler

variable {W : Type} [WorkerExecutor W]

/-- **Block tables find the slots of sequences in block order.** In every run over a scheduler with
an allocator the graph runner describes every formed batch, and the block tables find the slots of
all sequences exactly if the blocks of every sequence are laid out on pages of increasing
numbers. -/
theorem block_tables_address_iff (worker : W) {slotCapacity pageSize : ℕ} {a : CachePageAllocator}
    (policy : PrefixCachePolicy) (chunk maxRunning : Option ℕ)
    (ha : CachePageAllocator.withPageSize slotCapacity pageSize = .ok a) (ops : List (Operation W))
    {former : Former} {s' : Scheduler W} {batch : ScheduleBatch}
    (hform : former.form (ops.foldl Scheduler.step
      (Scheduler.withCacheResourcesAndPolicy worker a policy chunk maxRunning)) =
        (s', .ok batch)) :
    (∃ d, ModelInputDescriptor.fromScheduleBatch batch pageSize = .ok d ∧
        d.AddressesSlots batch pageSize) ↔
      ∀ r ∈ batch.requests, r.InBlockOrder batch pageSize := by
  have hp : 0 < pageSize :=
    CachePageAllocator.pageSize_withPageSize ha ▸
      (CachePageAllocator.valid_withPageSize ha).pageSize_pos
  have hok : ModelInputDescriptor.fromScheduleBatch batch pageSize =
      .ok (ModelInputDescriptor.describe batch pageSize) := by
    have hne := requests_ne_nil_of_form hform
    unfold ModelInputDescriptor.fromScheduleBatch
    rw [if_neg (by simpa using hne), if_neg hp.ne']
  rw [hok]
  simp only [Except.ok.injEq, exists_eq_left', describe_addressesSlots_iff hp]

end Runs

/-- A request that gets the pages of two others, given back one by one, has its blocks on page 1 and
page 0. Its table says page 0 and page 1. -/
theorem block_tables_of_reused_pages :
    let s := [.submit "a" [1] 1, .submit "b" [2] 1, .dispatch (.prefill 2 8),
      .submit "c" [1, 2] 1].foldl Scheduler.step (Scheduler.scripted {} 1 4 .disabled)
    ∃ s' batch d, (Former.prefill 1 8).form s = (s', .ok batch) ∧
      batch.requests.map (·.sequenceCachePages) = [[1, 0]] ∧
      ModelInputDescriptor.fromScheduleBatch batch 1 = .ok d ∧ d.blockTables = [[0, 1]] ∧
      ¬d.AddressesSlots batch 1 := by
  refine ⟨_, _, _, rfl, rfl, rfl, rfl, fun h => ?_⟩
  obtain ⟨_, htable, haddress⟩ := h 0 (by decide)
  obtain rfl := Option.some.inj htable
  obtain ⟨g, hg, heq⟩ := haddress 0 (by decide)
  obtain rfl := Option.some.inj hg
  exact absurd heq (by decide)

/-- The theorem applied to a batch whose second request continues on a later page. -/
theorem block_tables_of_fresh_pages :
    let s := [.submit "a" [1, 2, 3] 1, .submit "b" [4, 5, 6] 1].foldl Scheduler.step
      (Scheduler.scripted {} 2 8)
    ∃ s' batch, (Former.prefill 2 8).form s = (s', .ok batch) ∧
      ∃ d, ModelInputDescriptor.fromScheduleBatch batch 2 = .ok d ∧ d.AddressesSlots batch 2 := by
  have ha : CachePageAllocator.withPageSize 16 2 = .ok ⟨16, 2, List.range 8, ∅⟩ := rfl
  refine ⟨_, _, rfl, ?_⟩
  refine (@block_tables_address_iff ScriptedWorker _ {} 16 2 _ .enabled none none ha
    [.submit "a" [1, 2, 3] 1, .submit "b" [4, 5, 6] 1] (.prefill 2 8) _ _ rfl).mpr ?_
  refine List.forall_mem_cons.mpr ⟨⟨by decide, ⟨[0, 1], 0, by decide, by decide, by decide⟩,
    ⟨_, List.mem_cons_self, by decide⟩⟩, List.forall_mem_cons.mpr ⟨⟨by decide,
    ⟨[2, 3], 0, by decide, by decide, by decide⟩, ⟨_, List.mem_cons_self, by decide⟩⟩, ?_⟩⟩
  exact fun r hr => nomatch hr

end SglangRs
