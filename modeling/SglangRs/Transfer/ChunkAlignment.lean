import SglangRs.Scheduler.Safety
import SglangRs.Scheduler.Selection
import SglangRs.Transfer.PlanAlignment

/-!
# Which prefill batches can be transferred

The chunks of a prompt of a pair are planned one by one. The first one starts at a page, behind a
cached prefix of whole pages (`scheduler.rs`, lines 625–698). A later one continues where the one
before ended. A chunk is as long as the chunk size, the rest of the prompt, or what a mixed step has
left of its token budget (lines 958–995), and the last of these need not be a multiple of the page
size. Then the next chunk begins inside the page that the chunk before has started, its first slot
starts no page, and the plan of the whole batch is refused.

This file follows the slots of the requests of pairs through all moves and states, for every batch
formed in a run, when it can be planned.

## Main definitions

* `ScheduledRequest.WaitingAligned`, `ScheduledRequest.TakenAligned`,
  `ScheduledRequest.ExecutedAligned`: the slots of a request of a pair, by its place.
* `Guard.unreferenced`: pending inserts are released only when nothing refers to their pages.

## Main results

* `takenAligned_of_form`: the requests of pairs in a formed batch.
* `ScheduledRequest.TakenAligned.dvd_head_iff`: the first slot of a chunk starts a page exactly if
  the tokens processed before end one.
* `prefill_batch_planned_iff`: which formed batches have a plan.
-/

namespace SglangRs

open Paging Scheduler Transition

variable {W : Type} {p : ℕ}

/-! ### One request -/

namespace ScheduledRequest

/-- A waiting request of a pair has the slots of the processed part of its prompt, behind a prefix
of whole pages. -/
structure WaitingAligned (p : ℕ) (r : ScheduledRequest) : Prop where
  kept : r.WaitingKept
  prefix_dvd : p ∣ r.forwardPrefixTokenCount
  allocated_eq : r.allocatedCachePages = []
  length_eq : r.sequenceCachePages.length = r.promptTokensProcessed

/-- A request of a pair taken for a batch: the slots of its chunk come after those of the processed
part of its prompt, and are laid out on pages if the first one starts a page. -/
structure TakenAligned (p : ℕ) (r : ScheduledRequest) : Prop where
  kept : r.TakenKept
  prefix_dvd : p ∣ r.forwardPrefixTokenCount
  sequence_eq : ∃ base, r.sequenceCachePages = base ++ r.allocatedCachePages ∧
    base.length = r.promptTokensProcessed
  forward_eq : r.stage = .prefillForward → r.forwardCachePages = r.allocatedCachePages
  paged : r.stage = .prefillForward → (∀ x, r.forwardCachePages.head? = some x → p ∣ x) →
    Paged p r.forwardCachePages

/-- A request of a pair whose chunk has been executed. -/
structure ExecutedAligned (p : ℕ) (r : ScheduledRequest) : Prop where
  kept : r.PromptKept
  prefix_dvd : p ∣ r.forwardPrefixTokenCount
  length_eq : r.isPrefillComplete = false → r.sequenceCachePages.length = r.promptTokensProcessed

variable {r r' : ScheduledRequest} {s s' : Scheduler W}

theorem waitingAligned_new (p : ℕ) (n : NewRequest) : n.toScheduled.WaitingAligned p :=
  ⟨⟨rfl, promptKept_new n⟩, Nat.dvd_zero p, rfl, rfl⟩

/-- The prefix attached to a request of a pair consists of whole pages. -/
theorem WaitingAligned.withPrefix (h : r.WaitingAligned p) (hnot : ¬s.Replays r)
    (hs : HasPages p s.cachePageAllocator) : (s.withPrefix r).WaitingAligned p := by
  by_cases h0 : r.promptTokensProcessed = 0
  · obtain ⟨-, hprocessed⟩ | ⟨hrep, -⟩ := promptTokensProcessed_withPrefix (s := s) h0
    · refine ⟨⟨by simpa using h.kept.stage_eq, h.kept.kept.withPrefix⟩, ?_,
        by simpa using h.allocated_eq, ?_⟩
      · rw [forwardPrefixTokenCount_withPrefix h0, hprocessed, ← hs.pageSize_eq]
        exact s.pageSize_dvd_lookupPrefix r.inputIds
      · rw [sequenceCachePages_withPrefix h0, hprocessed, length_lookupPrefix]
    · exact absurd hrep hnot
  · rw [withPrefix_of_ne h0]
    exact h

theorem WaitingAligned.takenAligned (h : r.WaitingAligned p) : r.TakenAligned p := by
  have hstage := h.kept.stage_eq
  refine ⟨h.kept.takenKept, h.prefix_dvd, ⟨r.sequenceCachePages, ?_, h.length_eq⟩,
    by simp [hstage], by simp [hstage]⟩
  rw [h.allocated_eq, List.append_nil]

/-- Preparing a chunk of a prompt of a pair. -/
theorem WaitingAligned.prepare (h : r.WaitingAligned p) (hpair : r.disaggregatedParams ≠ none)
    (hs : HasPages p s.cachePageAllocator) {k : ℕ}
    (hp : s.preparePrefillRequestChunk r k = (s', r', .ok ())) : r'.TakenAligned p := by
  have hchunk := h.kept.kept.chunkAllocated hs hp
  have hkept := hchunk.takenKept (stage_of_preparePrefillRequestChunk hp)
  obtain ⟨hrep, -⟩ | ⟨hnot, slots, halloc, -, rfl⟩ | ⟨-, _, -, -, -, hres⟩ :=
    preparePrefillRequestChunk_cases hp
  · exact absurd (replays_iff.mp hrep).2.1 hpair
  · have hwhole := h.withPrefix hnot hs
    obtain ⟨a, a', fresh, hvalid, rfl, hfresh⟩ := hs.allocates halloc
    exact ⟨hkept, hwhole.prefix_dvd, ⟨_, rfl, hwhole.length_eq⟩, fun _ => rfl,
      fun _ => hfresh.paged_of_head hvalid.pageSize_pos⟩
  · cases hres

/-- A chunk given up leaves the slots of the processed part of the prompt. -/
theorem TakenAligned.clear (h : r.TakenAligned p) (hstage : r.stage ≠ .decodeForward) :
    (r.clearForwardCacheAllocation.setStage .prefillWaiting).WaitingAligned p := by
  obtain ⟨base, hseq, hlength⟩ := h.sequence_eq
  refine ⟨⟨rfl, (h.kept.kept hstage).clear .prefillWaiting⟩, h.prefix_dvd, rfl, ?_⟩
  change r.clearForwardCacheAllocation.sequenceCachePages.length = r.promptTokensProcessed
  rw [sequenceCachePages_clearForwardCacheAllocation, keptSlots_of_append hseq, hlength]

/-- An executed chunk that does not finish the prompt was not empty, and its slots are those of the
tokens processed by it. -/
theorem TakenAligned.advanceChunk (h : r.TakenAligned p) (hstage : r.stage = .prefillForward) :
    r.advanceChunk.ExecutedAligned p := by
  have hchunk := h.kept.chunk hstage
  obtain ⟨base, hseq, hlength⟩ := h.sequence_eq
  refine ⟨hchunk.promptKept.advanceChunk, h.prefix_dvd, fun hincomplete => ?_⟩
  have hforward := hchunk.forward_eq
  rw [h.forward_eq hstage] at hforward
  have hmatched := hchunk.matched_le
  have huncached : r.uncachedInputIds.length = r.inputIds.length - r.forwardPrefixTokenCount := by
    rw [hchunk.uncached_eq, List.length_drop]
  change r.sequenceCachePages.length = _
  rw [hseq, List.length_append, hlength, hforward]
  simp only [isPrefillComplete, ScheduledRequest.advanceChunk, advancePromptTokens,
    forwardedChunkLen, decide_eq_false_iff_not, ge_iff_le, Nat.not_le] at hincomplete ⊢
  split_ifs at hincomplete ⊢ with hpos <;> omega

theorem ExecutedAligned.awaitChunk (h : r.ExecutedAligned p)
    (hincomplete : r.isPrefillComplete = false) : r.awaitChunk.WaitingAligned p :=
  ⟨⟨rfl, h.kept.awaitChunk⟩, h.prefix_dvd, rfl, h.length_eq hincomplete⟩

/-- The first slot of a chunk starts a page exactly if the tokens processed before end one. -/
theorem TakenAligned.dvd_head_iff (h : r.TakenAligned p) (hstage : r.stage = .prefillForward)
    (hplaced : r.Placed p) {x : ℕ} (hx : r.forwardCachePages.head? = some x) :
    p ∣ x ↔ p ∣ r.promptTokensProcessed := by
  obtain ⟨base, hseq, hlength⟩ := h.sequence_eq
  have hslot : r.sequenceCachePages[r.promptTokensProcessed]? = some x := by
    rw [hseq, ← hlength, List.getElem?_append_right le_rfl, Nat.sub_self, ← List.head?_eq_getElem?,
      ← h.forward_eq hstage, hx]
  rw [Nat.dvd_iff_mod_eq_zero, Nat.dvd_iff_mod_eq_zero, hplaced.offset _ _ hslot]

end ScheduledRequest

/-! ### All requests -/

/-- The slots of the requests of pairs, by their place. -/
def alignedPlaces (p : ℕ) : Places where
  waiting r := r.disaggregatedParams ≠ none → r.WaitingAligned p
  decode _ := True
  taken r := r.disaggregatedParams ≠ none → r.stage ≠ .decodeForward → r.TakenAligned p
  executed r := r.disaggregatedParams ≠ none → r.stage = .prefillForward → r.ExecutedAligned p

/-- What a move does to a request of a pair keeps its slots behind whole pages. -/
theorem alignedPlaces_carried (G : Guard W) (p : ℕ) :
    (alignedPlaces p).Carried G fun _ allocator _ => HasPages p allocator where
  submit n _ _ := ScheduledRequest.waitingAligned_new p n
  prepare hp hs _ hr hpair _ := by
    rw [(sameRequest_of_preparePrefillRequestChunk hp).disaggregatedParams_eq] at hpair
    exact (hr hpair).prepare hpair hs hp
  attach {s r} hnot hs hr hpair := by
    rw [disaggregatedParams_withPrefix] at hpair
    exact (hr hpair).withPrefix hnot hs
  wait hr hpair _ := (hr hpair).takenAligned
  undoPrefill hstage _ hr hpair := (hr hpair hstage).clear hstage
  prepareDecode _ _ _ _ hstage := absurd rfl hstage
  undoDecode _ _ := trivial
  park _ _ := trivial
  executeDecode hdecode _ _ hstage := by simp [hdecode] at hstage
  chunk hstage hr hpair _ := (hr hpair (by simp [hstage])).advanceChunk hstage
  stageError _ _ := trivial
  requeueChunk hstage hincomplete hr hpair := (hr hpair hstage).awaitChunk hincomplete
  requeueToken _ _ _ := trivial
  finishError _ _ _ := trivial

/-! ### Formed batches -/

/-- Pending inserts are released only when no slot in use lies on their pages. -/
def Guard.unreferenced : Guard W where
  releasePending s e := s.Unreferenced e

section Runs

variable [WorkerExecutor W] (worker : W) {slotCapacity pageSize : ℕ} {a : CachePageAllocator}
  (policy : PrefixCachePolicy) (chunk maxRunning : Option ℕ)

/-- The requests of a formed prefill batch have slots for their chunks, which for the requests of
pairs come after those of the processed part of the prompt. -/
theorem takenAligned_of_form
    (ha : CachePageAllocator.withPageSize slotCapacity pageSize = .ok a) (ops : List (Operation W))
    {former : Former} {s' : Scheduler W} {batch : ScheduleBatch}
    (hform : former.form (ops.foldl Scheduler.step
      (Scheduler.withCacheResourcesAndPolicy worker a policy chunk maxRunning)) =
        (s', .ok batch)) (hmode : batch.forwardMode = .prefill) :
    ∀ r ∈ batch.requests, r.stage = .prefillForward ∧ r.ChunkAllocated ∧
      (r.disaggregatedParams ≠ none → r.TakenAligned pageSize) := by
  obtain ⟨hstages, hallocated⟩ := allocated_of_form worker policy chunk maxRunning ha ops hform
  obtain ⟨-, htaken⟩ := taken_of_form worker policy chunk maxRunning
    (alignedPlaces_carried _ pageSize) ha ops hform
  intro r hr
  have hstage : r.stage = .prefillForward := by
    rcases hstages r hr with ⟨hstage, -⟩ | ⟨-, hne⟩
    · exact hstage
    · exact absurd hmode hne
  have hchunk := hallocated r hr
  rw [ScheduledRequest.Allocated, if_neg (by simp [hstage])] at hchunk
  exact ⟨hstage, hchunk, fun hpair => htaken r hr hpair (by simp [hstage])⟩

/-- A formed prefill batch has a plan exactly if no request of it has an empty chunk of an
unfinished prompt and the first slots of the chunks of pairs start pages. -/
theorem planned_iff_heads
    (ha : CachePageAllocator.withPageSize slotCapacity pageSize = .ok a) (ops : List (Operation W))
    {former : Former} {s' : Scheduler W} {batch : ScheduleBatch}
    (hform : former.form (ops.foldl Scheduler.step
      (Scheduler.withCacheResourcesAndPolicy worker a policy chunk maxRunning)) =
        (s', .ok batch)) (hmode : batch.forwardMode = .prefill) :
    (∃ plan, KvCacheTransferPlan.fromPrefillWorkerBatchWithPageSize (.fromScheduleBatch batch)
      pageSize = .ok plan) ↔
      (∀ r ∈ batch.requests, r.currentChunkLen = 0 → r.inputIds.length ≤ r.promptTokensProcessed) ∧
      ∀ r ∈ batch.requests, r.disaggregatedParams.isSome →
        ∀ x, r.forwardCachePages.head? = some x → pageSize ∣ x := by
  have hrequests := takenAligned_of_form worker policy chunk maxRunning ha ops hform hmode
  have hpage : 0 < pageSize := by
    rw [← CachePageAllocator.pageSize_withPageSize ha]
    exact (CachePageAllocator.valid_withPageSize ha).pageSize_pos
  rw [KvCacheTransferPlan.exists_iff hpage hmode fun r hr => (hrequests r hr).2.1.length_slots_le]
  refine and_congr ?_ ?_
  · refine forall₂_congr fun r hr => ?_
    exact (hrequests r hr).2.1.length_slots_iff
  · refine forall₂_congr fun r hr => forall_congr' fun hpair => ?_
    obtain ⟨hstage, -, haligned⟩ := hrequests r hr
    have htaken := haligned (Option.isSome_iff_ne_none.mp hpair)
    constructor
    · rintro ⟨pages, hpages⟩ x hx
      exact dvd_head_of_transferPageIndices hpage hpages hx
    · exact fun hhead =>
        exists_transferPageIndices hpage htaken.prefix_dvd (htaken.paged hstage hhead)

/-- Pages are released only when unused, up to the requests of a formed batch. -/
theorem ownership_of_unreferenced_form
    (ha : CachePageAllocator.withPageSize slotCapacity pageSize = .ok a) (hchunk : chunk ≠ some 0)
    {ops : List (Operation W)} (hops : Along Scheduler.step Guard.unreferenced.Admits
      (Scheduler.withCacheResourcesAndPolicy worker a policy chunk maxRunning) ops)
    {former : Former} {s' : Scheduler W} {batch : ScheduleBatch}
    (hform : former.form (ops.foldl Scheduler.step
      (Scheduler.withCacheResourcesAndPolicy worker a policy chunk maxRunning)) =
        (s', .ok batch)) : Ownership pageSize ⟨s', batch.requests, []⟩ := by
  have hmove (c c' : Config W) (h : Move Guard.unreferenced c c') (hc : Ownership pageSize c) :
      Ownership pageSize c' := h.ownership (fun _ _ _ hg => hg) hc
  obtain ⟨hstaged, hown⟩ := run_invariant hmove hops
    (by simp [WaitingStaged, withCacheResourcesAndPolicy])
    (ownership_withCacheResourcesAndPolicy worker ha policy hchunk maxRunning)
  have hadmits (s : Scheduler W) : Guard.unreferenced.AdmitsForm s former := by
    cases former with
    | decodeWhenReady => trivial
    | _ => exact fun _ _ => trivial
  have hmoves := moves_form _ former hstaged (hadmits _)
  rw [hform] at hmoves
  exact hmoves.invariant hmove hown

/-- With every page in its place the first slot of a chunk tells where the chunk before ended. -/
theorem planned_iff_processed
    (ha : CachePageAllocator.withPageSize slotCapacity pageSize = .ok a) (hchunk : chunk ≠ some 0)
    {ops : List (Operation W)} (hops : Along Scheduler.step Guard.unreferenced.Admits
      (Scheduler.withCacheResourcesAndPolicy worker a policy chunk maxRunning) ops)
    {former : Former} {s' : Scheduler W} {batch : ScheduleBatch}
    (hform : former.form (ops.foldl Scheduler.step
      (Scheduler.withCacheResourcesAndPolicy worker a policy chunk maxRunning)) =
        (s', .ok batch)) (hmode : batch.forwardMode = .prefill) :
    (∃ plan, KvCacheTransferPlan.fromPrefillWorkerBatchWithPageSize (.fromScheduleBatch batch)
      pageSize = .ok plan) ↔
      ∀ r ∈ batch.requests, r.disaggregatedParams.isSome →
        r.promptTokensProcessed < r.inputIds.length → pageSize ∣ r.promptTokensProcessed := by
  have hown := ownership_of_unreferenced_form worker policy chunk maxRunning ha hchunk hops hform
  have hrequests := takenAligned_of_form worker policy chunk maxRunning ha ops hform hmode
  have hplaced (r : ScheduledRequest) (hr : r ∈ batch.requests) : r.Placed pageSize :=
    hown.placed r (Config.mem_live.mpr (.inr (.inr (.inl hr))))
  have hempty (r : ScheduledRequest) (hr : r ∈ batch.requests) :
      r.currentChunkLen = 0 → r.inputIds.length ≤ r.promptTokensProcessed :=
    (hown.taken r hr).chunk_pos (hrequests r hr).1
  rw [planned_iff_heads worker policy chunk maxRunning ha ops hform hmode]
  constructor
  · rintro ⟨-, hheads⟩ r hr hpair hlt
    obtain ⟨hstage, hallocated, haligned⟩ := hrequests r hr
    have hne : r.forwardCachePages ≠ [] := by
      intro hnil
      have hzero := hempty r hr (by rw [← hallocated.forward_eq, hnil, List.length_nil])
      omega
    have hhead := List.head?_eq_some_head hne
    rw [← (haligned (Option.isSome_iff_ne_none.mp hpair)).dvd_head_iff hstage (hplaced r hr) hhead]
    exact hheads r hr hpair _ hhead
  · refine fun hprocessed => ⟨hempty, fun r hr hpair x hx => ?_⟩
    obtain ⟨hstage, hallocated, haligned⟩ := hrequests r hr
    rw [(haligned (Option.isSome_iff_ne_none.mp hpair)).dvd_head_iff hstage (hplaced r hr) hx]
    refine hprocessed r hr hpair ?_
    have hpos : 0 < r.forwardCachePages.length :=
      List.length_pos_of_ne_nil (List.ne_nil_of_mem (List.mem_of_head? hx))
    have hle := hallocated.chunk_le
    have hforward := hallocated.forward_eq
    omega

omit [WorkerExecutor W] in
/-- Preparing a chunk of a prompt that was begun leaves the number of processed tokens alone;
otherwise the prefix attached ends a page. -/
theorem Scheduler.Prepared.processed_iff {s : Scheduler W} {r r' : ScheduledRequest}
    (h : s.Prepared r r') (hwhole : pageSize ∣ r'.forwardPrefixTokenCount) :
    (r'.promptTokensProcessed < r'.inputIds.length → pageSize ∣ r'.promptTokensProcessed) ↔
      (r.promptTokensProcessed < r.inputIds.length → pageSize ∣ r.promptTokensProcessed) := by
  have hinput : r'.inputIds = (s.withPrefix r).inputIds := by cases h <;> rfl
  have hprocessed : r'.promptTokensProcessed = (s.withPrefix r).promptTokensProcessed := by
    cases h <;> rfl
  have hmatched : r'.forwardPrefixTokenCount = (s.withPrefix r).forwardPrefixTokenCount := by
    cases h <;> rfl
  rw [hinput, hprocessed, inputIds_withPrefix]
  by_cases h0 : r.promptTokensProcessed = 0
  · rw [hmatched, ScheduledRequest.forwardPrefixTokenCount_withPrefix h0] at hwhole
    exact iff_of_true (fun _ => hwhole) fun _ => h0 ▸ Nat.dvd_zero _
  · rw [withPrefix_of_ne h0]

omit [WorkerExecutor W] in
theorem Scheduler.Prepared.disaggregatedParams_eq {s : Scheduler W} {r r' : ScheduledRequest}
    (h : s.Prepared r r') : r'.disaggregatedParams = r.disaggregatedParams := by
  rw [← s.disaggregatedParams_withPrefix r]
  cases h <;> rfl

/-- A prefill batch is formed of the front of the waiting queue. -/
theorem prepared_of_prefill_form {s s' : Scheduler W} {former : Former} {batch : ScheduleBatch}
    (hform : former.form s = (s', .ok batch))
    (hstages : ∀ r ∈ batch.requests, r.stage = .prefillForward) :
    List.Forall₂ s.Prepared (s.waitingQueue.take batch.requests.length) batch.requests := by
  obtain ⟨decoded, prompted, hselects⟩ := Former.selects hform
  obtain ⟨decodes, prefills, hrequests, hdecodes, hprefills⟩ := hselects.requests_eq
  obtain ⟨kept, hwaiting, -⟩ := hselects.waiting_eq
  have hnil : decodes = [] := by
    refine List.eq_nil_iff_forall_not_mem.mpr fun r hr => ?_
    have hstage := hstages r (hrequests ▸ List.mem_append_left _ hr)
    obtain ⟨i, hi, rfl⟩ := List.mem_iff_getElem.mp hr
    obtain ⟨slots, hslots⟩ := hdecodes.get (hdecodes.length_eq ▸ hi) hi
    rw [List.get_eq_getElem] at hslots
    rw [hslots] at hstage
    cases hstage
  rw [hrequests, hnil, List.nil_append, hwaiting, ← hprefills.length_eq, List.take_left]
  exact hprefills

/-- **Which formed batches have a plan.** In every run over a scheduler with an allocator, a formed
prefill batch has a plan exactly if no request of it has an empty chunk of an unfinished prompt and
the first slot of the chunk of every request of a pair starts a page. In runs in which pending
inserts are released only when no slot in use lies on their pages, and with a chunk size other than
zero, this is so exactly if none of the requests of pairs that are taken from the waiting queue has
been stopped inside a page.

Source: `sglang-srt/src/transfer/mod.rs`, lines 602–664 and 709–751. -/
theorem prefill_batch_planned_iff
    (ha : CachePageAllocator.withPageSize slotCapacity pageSize = .ok a) (ops : List (Operation W))
    {former : Former} {s' : Scheduler W} {batch : ScheduleBatch}
    (hform : former.form (ops.foldl Scheduler.step
      (Scheduler.withCacheResourcesAndPolicy worker a policy chunk maxRunning)) =
        (s', .ok batch)) (hmode : batch.forwardMode = .prefill) :
    let s₀ := Scheduler.withCacheResourcesAndPolicy worker a policy chunk maxRunning
    let planned := ∃ plan, KvCacheTransferPlan.fromPrefillWorkerBatchWithPageSize
      (.fromScheduleBatch batch) pageSize = .ok plan
    (planned ↔
      (∀ r ∈ batch.requests,
        r.currentChunkLen = 0 → r.inputIds.length ≤ r.promptTokensProcessed) ∧
      ∀ r ∈ batch.requests, r.disaggregatedParams.isSome →
        ∀ x, r.forwardCachePages.head? = some x → pageSize ∣ x) ∧
    (chunk ≠ some 0 → Along Scheduler.step Guard.unreferenced.Admits s₀ ops →
      (planned ↔ ∀ r ∈ (ops.foldl Scheduler.step s₀).waitingQueue.take batch.requests.length,
        r.disaggregatedParams.isSome → r.promptTokensProcessed < r.inputIds.length →
          pageSize ∣ r.promptTokensProcessed)) := by
  intro s₀ planned
  refine ⟨planned_iff_heads worker policy chunk maxRunning ha ops hform hmode,
    fun hchunk hops => ?_⟩
  have hrequests := takenAligned_of_form worker policy chunk maxRunning ha ops hform hmode
  have hprepared := prepared_of_prefill_form hform fun r hr => (hrequests r hr).1
  refine (planned_iff_processed worker policy chunk maxRunning ha hchunk hops hform hmode).trans ?_
  refine (forall_mem_iff_of_forall₂ hprepared fun r r' hr' hprep => ?_).symm
  rw [hprep.disaggregatedParams_eq]
  refine forall_congr' fun hpair => ?_
  have haligned := (hrequests r' hr').2.2 (Option.isSome_iff_ne_none.mp ?_)
  · exact (hprep.processed_iff haligned.prefix_dvd).symm
  · rwa [hprep.disaggregatedParams_eq]

end Runs

/-- A mixed step with a budget of one token cuts the prompt after its first token. The next chunk
has the slots `1`, `2` and `3`, of which the first does not start a page, and the batch is
refused. -/
theorem prefill_batch_refused_after_budget_cut :
    let s := [pairedPrompt, .dispatch (.mixed 1 1)].foldl Scheduler.step
      (Scheduler.scripted {} 2 8)
    ∃ s' batch, (Former.prefill 1 8).form s = (s', .ok batch) ∧
      batch.forwardMode = .prefill ∧ (∃ r ∈ batch.requests, r.disaggregatedParams.isSome) ∧
      KvCacheTransferPlan.fromPrefillWorkerBatchWithPageSize (.fromScheduleBatch batch) 2 =
        .error (.unalignedCacheSlot ⟨"a"⟩ 1 2) ∧
      ¬∃ plan, KvCacheTransferPlan.fromPrefillWorkerBatchWithPageSize (.fromScheduleBatch batch) 2 =
        .ok plan := by
  refine ⟨_, _, rfl, rfl, ⟨_, List.mem_cons_self, rfl⟩, rfl, ?_⟩
  rintro ⟨plan, hplan⟩
  cases hplan

/-- The theorem applied to the second of two chunks of two tokens. -/
theorem prefill_batch_planned_of_second_chunk :
    let s := [pairedPrompt, .dispatch (.prefill 1 8)].foldl Scheduler.step
      (Scheduler.scripted {} 2 8 .enabled (some 2))
    ∃ s' batch, (Former.prefill 1 8).form s = (s', .ok batch) ∧
      ∃ plan, KvCacheTransferPlan.fromPrefillWorkerBatchWithPageSize (.fromScheduleBatch batch) 2 =
        .ok plan := by
  have ha : CachePageAllocator.withPageSize 16 2 = .ok ⟨16, 2, List.range 8, ∅⟩ := rfl
  have hops : Along Scheduler.step Guard.unreferenced.Admits
      (Scheduler.scripted {} 2 8 .enabled (some 2)) [pairedPrompt, .dispatch (.prefill 1 8)] := by
    refine ⟨trivial, ⟨fun _ _ => trivial, ?_⟩, trivial⟩
    exact ⟨⟨trivial, fun h => absurd h (by decide)⟩, trivial⟩
  refine ⟨_, _, rfl, ?_⟩
  refine ((@prefill_batch_planned_iff ScriptedWorker _ {} 16 2 _ .enabled (some 2) none ha
    [pairedPrompt, .dispatch (.prefill 1 8)] (.prefill 1 8) _ _ rfl rfl).2 (by decide) hops).mpr ?_
  decide

end SglangRs
