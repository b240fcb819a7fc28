import SglangRs.Runner.Padding
import SglangRs.Scheduler.Safety

/-!
# Where the padding rows write

A row added by padding has slot 0, and a model writes the keys and values of every row to its slot.
Slot 0 is a slot like any other: it lies on page 0, the first page a new allocator hands out. So
the padding rows write outside of the slots in use if and only if nothing in use lies on page 0 when
a padded batch is run.

## Main definitions

* `Config.Held`: the slots of live requests and of the prefix cache.
* `PadsSafely`, `PageZeroUnused`: the two conditions on an operation of a scheduler.

## Main results

* `slotMapping_drop_of_padded`: the slots of the padding rows.
* `pads_safely_iff_page_zero_unused`: the two conditions hold along the same runs.
* `plain_run_pads_safely_of_free`: over plain requests it is enough that page 0 is free.
-/

namespace SglangRs

open Transition

/-- The slots of live requests and of the prefix cache. -/
def Config.Held {W : Type} (c : Config W) (x : ℕ) : Prop :=
  c.scheduler.prefixCache.Holds x ∨ ∃ r ∈ c.live, x ∈ r.sequenceCachePages

variable {M S L : Type}

/-! ### One batch -/

/-- The batch is padded to the bucket. -/
def GraphModelRunner.Pads (g : GraphModelRunner M S) (batch : ScheduleBatch) (bucket : ℕ) : Prop :=
  g.selectedBucket batch = some bucket ∧ batch.requests.length < bucket

/-- **The padding rows have slot 0.** -/
theorem slotMapping_drop_of_padded {g : GraphModelRunner M S} {batch : ScheduleBatch} {bucket : ℕ}
    (h : g.Pads batch bucket) {d : ModelInputDescriptor} (hd : g.modelDescriptor batch = .ok d) :
    g.pageSize ≠ 0 ∧ d.slotMapping.drop batch.requests.length =
      List.replicate (bucket - batch.requests.length) 0 := by
  obtain ⟨hbucket, hlt⟩ := h
  have hmode : batch.forwardMode = .decode := by
    by_contra hne
    rw [GraphModelRunner.selectedBucket, if_neg hne] at hbucket
    cases hbucket
  unfold GraphModelRunner.modelDescriptor ModelInputDescriptor.fromScheduleBatch at hd
  split_ifs at hd with hempty hpage
  rw [hbucket] at hd
  dsimp only at hd
  have hsize := ModelInputDescriptor.batchSize_describe batch g.pageSize
  rw [GraphModelRunner.graphDescriptor, if_pos (by omega), ModelInputDescriptor.padToBucket,
    if_neg (by omega), if_neg (by omega)] at hd
  obtain rfl := Except.ok.inj hd
  refine ⟨hpage, ?_⟩
  dsimp only
  rw [(ModelInputDescriptor.rows_describe_of_decode _ hmode).2, hsize,
    List.drop_left' (List.length_map _)]

/-- A padded descriptor exists if the page size of the runner is positive. -/
theorem exists_modelDescriptor_of_padded {g : GraphModelRunner M S} {batch : ScheduleBatch}
    {bucket : ℕ} (h : g.Pads batch bucket) (hne : batch.requests ≠ []) (hpage : g.pageSize ≠ 0) :
    ∃ d, g.modelDescriptor batch = .ok d := by
  have hsize := ModelInputDescriptor.batchSize_describe batch g.pageSize
  have hlt := h.2
  unfold GraphModelRunner.modelDescriptor ModelInputDescriptor.fromScheduleBatch
  rw [if_neg (by simpa using hne), if_neg hpage, h.1]
  dsimp only
  rw [GraphModelRunner.graphDescriptor, if_pos (by omega), ModelInputDescriptor.padToBucket,
    if_neg (by omega), if_neg (by omega)]
  exact ⟨_, rfl⟩

/-! ### Runs -/

variable [GraphForwardModel M L] [LogitSamplerLike S L]

/-- The slots of the padding rows of a batch that an operation has the graph runner replay lie on no
page of a slot in use. Pages have `p` slots. -/
def PadsSafely (p : ℕ) (s : Scheduler (GraphModelRunner M S))
    (op : Operation (GraphModelRunner M S)) : Prop :=
  ∀ former s' batch bucket d, op = .dispatch former → former.form s = (s', .ok batch) →
    s'.worker.Pads batch bucket → s'.worker.modelDescriptor batch = .ok d →
    ∀ x ∈ d.slotMapping.drop batch.requests.length,
      ∀ y, (Config.mk s' batch.requests []).Held y → y / p ≠ x / p

/-- No slot in use lies on page 0 when an operation has the graph runner replay a padded batch. -/
def PageZeroUnused (p : ℕ) (s : Scheduler (GraphModelRunner M S))
    (op : Operation (GraphModelRunner M S)) : Prop :=
  ∀ former s' batch bucket, op = .dispatch former → former.form s = (s', .ok batch) →
    s'.worker.Pads batch bucket → s'.worker.pageSize ≠ 0 →
    ∀ y, (Config.mk s' batch.requests []).Held y → p ≤ y

theorem padsSafely_iff {p : ℕ} (hp : 0 < p) (s : Scheduler (GraphModelRunner M S))
    (op : Operation (GraphModelRunner M S)) : PadsSafely p s op ↔ PageZeroUnused p s op := by
  constructor
  · intro h former s' batch bucket hop hform hpads hpage y hy
    have hne := Scheduler.requests_ne_nil_of_form hform
    obtain ⟨d, hd⟩ := exists_modelDescriptor_of_padded hpads hne hpage
    have hmem : 0 ∈ d.slotMapping.drop batch.requests.length := by
      rw [(slotMapping_drop_of_padded hpads hd).2, List.mem_replicate]
      exact ⟨by have := hpads.2; omega, rfl⟩
    have hpage := h former s' batch bucket d hop hform hpads hd 0 hmem y hy
    rw [Nat.zero_div, Nat.div_ne_zero_iff] at hpage
    exact hpage.2
  · intro h former s' batch bucket d hop hform hpads hd x hx y hy
    obtain ⟨hpage, hdrop⟩ := slotMapping_drop_of_padded hpads hd
    rw [hdrop] at hx
    obtain rfl := List.eq_of_mem_replicate hx
    rw [Nat.zero_div, Nat.div_ne_zero_iff]
    exact ⟨hp.ne', h former s' batch bucket hop hform hpads hpage y hy⟩

/-- **The padding rows touch no slot in use exactly along the runs in which page 0 is unused
whenever a batch is padded.** -/
theorem pads_safely_iff_page_zero_unused (worker : GraphModelRunner M S)
    {slotCapacity pageSize : ℕ} {a : CachePageAllocator}
    (ha : CachePageAllocator.withPageSize slotCapacity pageSize = .ok a)
    (policy : PrefixCachePolicy) (chunk maxRunning : Option ℕ)
    (ops : List (Operation (GraphModelRunner M S))) :
    Along Scheduler.step (PadsSafely pageSize)
        (Scheduler.withCacheResourcesAndPolicy worker a policy chunk maxRunning) ops ↔
      Along Scheduler.step (PageZeroUnused pageSize)
        (Scheduler.withCacheResourcesAndPolicy worker a policy chunk maxRunning) ops := by
  have hp : 0 < pageSize := by
    have hvalid := (CachePageAllocator.valid_withPageSize ha).pageSize_pos
    rwa [CachePageAllocator.pageSize_withPageSize ha] at hvalid
  exact ⟨fun h => h.imp fun s op => (padsSafely_iff hp s op).mp,
    fun h => h.imp fun s op => (padsSafely_iff hp s op).mpr⟩

/-! ### Two runs -/

/-- A scheduler over the echo model, whose decode batches are padded to two rows. -/
def paddedScheduler (pageSize pages : ℕ) (policy : PrefixCachePolicy) :
    Scheduler (GraphModelRunner (GraphModelAdapter EchoModel) EchoSampler) :=
  Scheduler.withCacheResourcesAndPolicy (echoRunner 2 (by decide))
    ⟨pages * pageSize, pageSize, List.range pages, ∅⟩ policy none none

/-- A request is prefilled and decoded. -/
def decodeOps : List (Operation (GraphModelRunner (GraphModelAdapter EchoModel) EchoSampler)) :=
  [.submit "a" [5] 3, .dispatch (.prefill 1 8), .dispatch (.decode 4)]

/-- Two requests are prefilled; the first is finished then, and the second decoded. -/
def decodeLastOps : List (Operation (GraphModelRunner (GraphModelAdapter EchoModel) EchoSampler)) :=
  [.submit "a" [5] 1, .submit "b" [6] 3, .dispatch (.prefill 2 8), .dispatch (.decode 4)]

/-- The padding row of the decode batch writes slot 0, which holds the prompt of the request. -/
theorem padding_row_writes_prompt_slot :
    (∃ s' batch d, (Former.decode 4).form ((decodeOps.take 2).foldl Scheduler.step
        (paddedScheduler 1 8 .enabled)) = (s', .ok batch) ∧
      s'.worker.modelDescriptor batch = .ok d ∧ d.slotMapping = [1, 0] ∧
      batch.requests.map (·.sequenceCachePages) = [[0, 1]]) ∧
    ¬Along Scheduler.step (PadsSafely 1) (paddedScheduler 1 8 .enabled) decodeOps := by
  refine ⟨⟨_, _, _, rfl, rfl, rfl, rfl⟩, fun h => ?_⟩
  obtain ⟨-, -, hdecode, -⟩ := h
  refine hdecode (.decode 4) _ _ 2 _ rfl rfl ⟨rfl, by decide⟩ rfl 0 (by decide) 0 ?_ rfl
  exact .inr ⟨_, List.mem_cons_self, by decide⟩

/-- The theorem applied to a run in which the page of the finished request is free again when the
other is decoded. -/
theorem pads_safely_of_page_released :
    Along Scheduler.step (PadsSafely 4) (paddedScheduler 4 2 .disabled) decodeLastOps := by
  have ha : CachePageAllocator.withPageSize 8 4 = .ok ⟨8, 4, List.range 2, ∅⟩ := rfl
  refine (pads_safely_iff_page_zero_unused (echoRunner 2 (by decide)) ha .disabled none none
    decodeLastOps).mpr ⟨?_, ?_, ?_, ?_, trivial⟩
  · exact fun _ _ _ _ hop => absurd hop (by simp [Operation.submit])
  · exact fun _ _ _ _ hop => absurd hop (by simp [Operation.submit])
  · intro former s' batch bucket hop hform hpads
    cases hop
    cases hform
    have hnone : none = some bucket := hpads.1
    cases hnone
  · intro former s' batch bucket hop hform hpads _ y hy
    cases hop
    cases hform
    rcases hy with hy | ⟨r, hr, hy⟩
    · exact absurd hy (RadixCache.not_holds_default y)
    · refine (?_ : ∀ r ∈ Config.live _, ∀ y ∈ r.sequenceCachePages, 4 ≤ y) r hr y hy
      decide

/-- Page 0 is on the free list of the allocator when an operation has the graph runner replay a
padded batch. -/
def PageZeroFree (s : Scheduler (GraphModelRunner M S))
    (op : Operation (GraphModelRunner M S)) : Prop :=
  ∀ former s' batch bucket, op = .dispatch former → former.form s = (s', .ok batch) →
    s'.worker.Pads batch bucket → ∀ a, s'.cachePageAllocator = some a → 0 ∈ a.freePageIndices

/-- **Over plain requests it is enough that page 0 is free.** Every slot in use lies on an allocated
page, by the ownership invariant, so none lies on a free one. -/
theorem plain_run_pads_safely_of_free (worker : GraphModelRunner M S)
    {slotCapacity pageSize : ℕ} {a : CachePageAllocator}
    (ha : CachePageAllocator.withPageSize slotCapacity pageSize = .ok a)
    (policy : PrefixCachePolicy) {chunk : Option ℕ} (hchunk : chunk ≠ some 0)
    (maxRunning : Option ℕ) {ops : List (Operation (GraphModelRunner M S))}
    (hops : ∀ op ∈ ops, op.Plain)
    (hfree : Along Scheduler.step PageZeroFree
      (Scheduler.withCacheResourcesAndPolicy worker a policy chunk maxRunning) ops) :
    Along Scheduler.step (PadsSafely pageSize)
      (Scheduler.withCacheResourcesAndPolicy worker a policy chunk maxRunning) ops := by
  have hplain : Along Scheduler.step (fun _ op => op.Plain)
      (Scheduler.withCacheResourcesAndPolicy worker a policy chunk maxRunning) ops :=
    along_of_forall_mem (fun op hop _ => hops op hop) _
  have hinit : (Scheduler.withCacheResourcesAndPolicy worker a policy chunk
      maxRunning).WaitingStaged := by
    simp [Scheduler.WaitingStaged, Scheduler.withCacheResourcesAndPolicy]
  have hstep (s : Scheduler (GraphModelRunner M S)) (op : Operation (GraphModelRunner M S))
      (hop : op.Plain) (hI : s.WaitingStaged ∧ s.idle.Plain ∧ Ownership pageSize s.idle) :
      (s.step op).WaitingStaged ∧ (s.step op).idle.Plain ∧ Ownership pageSize (s.step op).idle := by
    have hops : ∀ op' ∈ [op], op'.Plain := by simpa using hop
    exact ownership_of_plain_run hops hI.1 hI.2.1 hI.2.2
  have hinv := hplain.and_invariant
    (I := fun s => s.WaitingStaged ∧ s.idle.Plain ∧ Ownership pageSize s.idle) hstep
    ⟨hinit, plain_withCacheResourcesAndPolicy worker a policy chunk maxRunning,
      ownership_withCacheResourcesAndPolicy worker ha policy hchunk maxRunning⟩
  refine (hfree.and hinv).imp fun s op h => ?_
  obtain ⟨hfree, -, hstaged, hplain, hown⟩ := h
  intro former s' batch bucket d hop hform hpads hd x hx y hy
  rw [(slotMapping_drop_of_padded hpads hd).2] at hx
  obtain rfl := List.eq_of_mem_replicate hx
  have hown' := ownership_of_plain_form hstaged hplain hown hform
  obtain ⟨a', ha', -⟩ := hown'.exclusive
  have hnot := (hown'.page_allocated ha' hy).2
  rw [Nat.zero_div]
  intro heq
  exact hnot (heq ▸ hfree former s' batch bucket hop hform hpads a' ha')

end SglangRs
