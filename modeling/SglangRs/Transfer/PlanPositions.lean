import SglangRs.Runner.Lowering
import SglangRs.Transfer.Plan

/-!
# The positions of a plan

A span of a transfer plan says where in the prompt its slots belong: from `token_offset` on. The
plan takes this offset from the number of tokens found in the prefix cache at the first match
(`sglang-srt/src/transfer/mod.rs`, lines 602–664), the model runner takes the position of the first
token from the number of prompt tokens processed so far (`model_executor.rs`, lines 171–203). The
two are the same for the first chunk of a prompt only.

A plan is accepted only if its requests consume exactly the slots of the batch. A request never has
more slots than the plan takes for it, so the slots of every span are those of its request.

## Main definitions

* `KvCacheTransferSpan.Locates`: a span has the slots and the positions of the chunk of a request.

## Main results

* `KvCacheTransferPlan.cuts`: how an accepted plan cuts the slots of the batch.
* `plan_locates_iff`: in a plan of a formed batch all spans have the positions of their chunks
  exactly if the requests that belong to a pair are at their first chunk.
-/

namespace SglangRs

open Scheduler

/-- A span has the slots that a request forwards, in number and at the positions at which they are
forwarded: it begins where the chunks before ended and ends where the chunks so far end. -/
structure KvCacheTransferSpan.Locates (span : KvCacheTransferSpan) (r : ScheduledRequest) :
    Prop where
  requestId : span.requestId = r.requestId
  cachePages : span.cachePages = r.forwardCachePages
  tokenCount : span.tokenCount = r.chunkPositions.length
  tokenOffset : ∀ position, r.chunkPositions.head? = some position → span.tokenOffset = position
  tiles : (List.range span.tokenCount).map (span.tokenOffset + ·) =
    (List.range (r.advanceChunk.promptTokensProcessed - r.promptTokensProcessed)).map
      (r.promptTokensProcessed + ·)

/-! ### The slots of a plan -/

section Cuts

variable {b : ModelWorkerBatch} {pageSize : ℕ} {pre rest : List ScheduledRequest}
  {r : ScheduledRequest}

theorem outCachePages_fromScheduleBatch (requests : List ScheduledRequest) :
    (ModelWorkerBatch.fromScheduleBatch (.prefill requests)).outCachePages =
      requests.flatMap (·.forwardCachePages) :=
  foldl_eq_append_flatMap (fun _ _ _ => rfl) _

theorem ScheduleBatch.eq_prefill {batch : ScheduleBatch} (h : batch.forwardMode = .prefill) :
    batch = .prefill batch.requests := by
  obtain ⟨mode, requests⟩ := batch
  obtain rfl : mode = .prefill := h
  rfl

/-- What an accepted plan has for a request. -/
structure KvCacheTransferSpan.Cuts (span : KvCacheTransferSpan) (r : ScheduledRequest) : Prop where
  requestId : span.requestId = r.requestId
  cachePages : span.cachePages = r.forwardCachePages
  tokenCount : span.tokenCount = r.chunkEnd - r.chunkStart
  tokenOffset : span.tokenOffset = r.forwardPrefixTokenCount
  length_slots : r.forwardCachePages.length = r.chunkEnd - r.chunkStart

/-- An accepted plan consumes exactly the slots of the batch. If no request has more slots than
tokens then each has as many. -/
theorem KvCacheTransferPlan.length_slots_eq {batch : ScheduleBatch} {plan : KvCacheTransferPlan}
    (h : fromPrefillWorkerBatchWithPageSize (.fromScheduleBatch batch) pageSize = .ok plan)
    (hle : ∀ r ∈ batch.requests, r.forwardCachePages.length ≤ r.chunkEnd - r.chunkStart) :
    ∀ r ∈ batch.requests, r.forwardCachePages.length = r.chunkEnd - r.chunkStart := by
  have hslots := outCachePages_fromScheduleBatch batch.requests
  rw [← ScheduleBatch.eq_prefill (forwardMode_eq h)] at hslots
  have htotal := (taken h).1
  rw [hslots] at htotal
  have hlength := length_eq_of_length_flatMap_eq
    (f := ScheduledRequest.chunkPositions) (g := ScheduledRequest.forwardCachePages)
    (fun r hr => by simpa using hle r hr) htotal.symm
  exact fun r hr => by simpa using hlength r hr

/-- If no request of an accepted plan has more slots than tokens then each span has the slots of
its request. -/
theorem KvCacheTransferPlan.cuts {batch : ScheduleBatch} {plan : KvCacheTransferPlan}
    (h : fromPrefillWorkerBatchWithPageSize (.fromScheduleBatch batch) pageSize = .ok plan)
    (hle : ∀ r ∈ batch.requests, r.forwardCachePages.length ≤ r.chunkEnd - r.chunkStart) :
    List.Forall₂ KvCacheTransferSpan.Cuts plan.spans
      (batch.requests.filter (·.disaggregatedParams.isSome)) := by
  have hslots := outCachePages_fromScheduleBatch batch.requests
  rw [← ScheduleBatch.eq_prefill (forwardMode_eq h)] at hslots
  have hlength := length_slots_eq h hle
  refine (taken h).2.imp fun span r => ?_
  rintro ⟨before, after, hrequests, htaken⟩
  have hr := hlength r (by rw [hrequests]; exact List.mem_append_right _ List.mem_cons_self)
  refine ⟨htaken.requestId, ?_, htaken.tokenCount, htaken.tokenOffset, hr⟩
  have hbefore : (before.flatMap (·.chunkPositions)).length =
      (before.flatMap (·.forwardCachePages)).length := by
    simp only [List.length_flatMap, ScheduledRequest.length_chunkPositions]
    refine congrArg _ (List.map_congr_left fun x hx => (hlength x ?_).symm)
    rw [hrequests]
    exact List.mem_append_left _ hx
  rw [htaken.cachePages, hslots, hrequests, hbefore, List.flatMap_append, List.drop_left,
    List.flatMap_cons, ← hr, List.take_left]

end Cuts

/-! ### The positions of a plan -/

namespace ScheduledRequest

variable {r : ScheduledRequest}

/-- The chunk of a prompt starts behind the tokens processed so far. -/
theorem ChunkAllocated.chunkStart_eq (h : r.ChunkAllocated) :
    r.chunkStart = r.promptTokensProcessed := by
  rw [chunkStart, h.prefix_eq, max_eq_left h.matched_le]

/-- The chunk of a prompt ends where the tokens processed after it end. -/
theorem ChunkAllocated.chunkEnd_eq (h : r.ChunkAllocated) :
    r.chunkEnd = r.advanceChunk.promptTokensProcessed := by
  rw [chunkEnd, h.chunkStart_eq]
  rfl

theorem ChunkAllocated.length_slots_le (h : r.ChunkAllocated) :
    r.forwardCachePages.length ≤ r.chunkEnd - r.chunkStart := by
  have hle := h.chunk_le
  rw [h.forward_eq, chunkEnd, h.chunkStart_eq]
  split_ifs with hpos <;> omega

theorem head?_chunkPositions {position : ℕ} : r.chunkPositions.head? = some position ↔
    r.chunkStart < r.chunkEnd ∧ position = r.chunkStart := by
  rw [chunkPositions]
  cases hlength : r.chunkEnd - r.chunkStart with
  | zero =>
      have hempty : ¬ r.chunkStart < r.chunkEnd := by omega
      simp [hempty]
  | succ n =>
      rw [List.range_succ_eq_map, List.map_cons, List.head?_cons, Option.some.injEq, Nat.add_zero]
      omega

/-- A span has the positions of a chunk exactly if the chunk is the first one of its prompt. -/
theorem ChunkAllocated.locates_iff (h : r.ChunkAllocated) {span : KvCacheTransferSpan}
    (hcuts : span.Cuts r) : span.Locates r ↔
      (r.chunkStart < r.chunkEnd → r.promptTokensProcessed = r.forwardPrefixTokenCount) := by
  constructor
  · intro hlocates hne
    rw [← hcuts.tokenOffset, ← h.chunkStart_eq]
    exact (hlocates.tokenOffset _ (head?_chunkPositions.mpr ⟨hne, rfl⟩)).symm
  · intro hfirst
    refine ⟨hcuts.requestId, hcuts.cachePages, by simpa using hcuts.tokenCount,
      fun position hposition => ?_, ?_⟩
    · obtain ⟨hne, rfl⟩ := head?_chunkPositions.mp hposition
      rw [hcuts.tokenOffset, h.chunkStart_eq, hfirst hne]
    · rw [hcuts.tokenCount, h.chunkEnd_eq, h.chunkStart_eq]
      rcases Nat.lt_or_ge r.chunkStart r.chunkEnd with hne | hempty
      · rw [hcuts.tokenOffset, hfirst hne]
      · rw [← h.chunkEnd_eq, ← h.chunkStart_eq, Nat.sub_eq_zero_of_le hempty]
        rfl

end ScheduledRequest

/-- Two relations between the entries of lists, the second of which is a condition on one side if
the first one holds. -/
theorem forall₂_iff_forall_mem {α β : Type} {R S : α → β → Prop} {P : β → Prop} {as : List α}
    {bs : List β} (h : List.Forall₂ R as bs) (hiff : ∀ a, ∀ b ∈ bs, R a b → (S a b ↔ P b)) :
    List.Forall₂ S as bs ↔ ∀ b ∈ bs, P b := by
  induction h with
  | nil => simp
  | cons hab _ ih =>
      rw [List.forall₂_cons, List.forall_mem_cons, hiff _ _ List.mem_cons_self hab,
        ih fun a b hb => hiff a b (List.mem_cons_of_mem _ hb)]

/-- Conditions on related entries that come to the same. -/
theorem forall_mem_iff_of_forall₂ {α β : Type} {R : α → β → Prop} {P : α → Prop} {Q : β → Prop}
    {as : List α} {bs : List β} (h : List.Forall₂ R as bs)
    (hiff : ∀ a, ∀ b ∈ bs, R a b → (P a ↔ Q b)) : (∀ a ∈ as, P a) ↔ ∀ b ∈ bs, Q b := by
  induction h with
  | nil => simp
  | cons hab _ ih =>
      rw [List.forall_mem_cons, List.forall_mem_cons, hiff _ _ List.mem_cons_self hab,
        ih fun a b hb => hiff a b (List.mem_cons_of_mem _ hb)]

section Runs

variable {W : Type} [WorkerExecutor W]

/-- **The positions of a transfer plan.** In every run over a scheduler with an allocator, the spans
of an accepted plan of a formed batch have the slots of their requests, the number and the positions
of the tokens forwarded, and reach from where the chunks before ended to where the chunks so far
end, exactly if every request of the batch that belongs to a pair and forwards a token is at its
first chunk.

Source: `sglang-srt/src/transfer/mod.rs`, lines 602–664. -/
theorem plan_locates_iff (worker : W) {slotCapacity pageSize : ℕ} {a : CachePageAllocator}
    (policy : PrefixCachePolicy) (chunk maxRunning : Option ℕ)
    (ha : CachePageAllocator.withPageSize slotCapacity pageSize = .ok a) (ops : List (Operation W))
    {former : Former} {s' : Scheduler W} {batch : ScheduleBatch}
    (hform : former.form (ops.foldl Scheduler.step
      (Scheduler.withCacheResourcesAndPolicy worker a policy chunk maxRunning)) =
        (s', .ok batch)) {spanPageSize : ℕ} {plan : KvCacheTransferPlan}
    (hplan : KvCacheTransferPlan.fromPrefillWorkerBatchWithPageSize (.fromScheduleBatch batch)
      spanPageSize = .ok plan) :
    List.Forall₂ KvCacheTransferSpan.Locates plan.spans
        (batch.requests.filter (·.disaggregatedParams.isSome)) ↔
      ∀ r ∈ batch.requests, r.disaggregatedParams.isSome → r.chunkStart < r.chunkEnd →
        r.promptTokensProcessed = r.forwardPrefixTokenCount := by
  obtain ⟨hstaged, hallocated⟩ := allocated_of_form worker policy chunk maxRunning ha ops hform
  have hmode := KvCacheTransferPlan.forwardMode_eq hplan
  have hchunk (r : ScheduledRequest) (hr : r ∈ batch.requests) : r.ChunkAllocated := by
    obtain ⟨hstage, -⟩ | ⟨-, hne⟩ := hstaged r hr
    · have h := hallocated r hr
      rwa [ScheduledRequest.Allocated, if_neg (by simp [hstage])] at h
    · exact absurd hmode hne
  have hcuts := KvCacheTransferPlan.cuts hplan fun r hr => (hchunk r hr).length_slots_le
  rw [forall₂_iff_forall_mem hcuts fun span r hr =>
    (hchunk r (List.mem_of_mem_filter hr)).locates_iff]
  simp only [List.mem_filter, and_imp]

end Runs

/-- A prompt of four tokens for a pair of workers. -/
def pairedPrompt : Operation ScriptedWorker :=
  .enqueue ⟨⟨"a"⟩, [1, 2, 3, 4], ⟨1⟩, some ⟨"10.0.0.1", 8998, 7⟩, 0⟩

/-- The second chunk of a prompt is planned at the positions of the first. -/
theorem plan_of_second_chunk :
    let s := [pairedPrompt, .dispatch (.prefill 1 8)].foldl Scheduler.step
      (Scheduler.scripted {} 2 8 .enabled (some 2))
    ∃ s' batch plan, (Former.prefill 1 8).form s = (s', .ok batch) ∧
      (ModelWorkerBatch.fromScheduleBatch batch).positions = [2, 3] ∧
      KvCacheTransferPlan.fromPrefillWorkerBatchWithPageSize (.fromScheduleBatch batch) 2 =
        .ok plan ∧
      (∃ span, plan.spans = [span] ∧ span.tokenOffset = 0) ∧
      ¬List.Forall₂ KvCacheTransferSpan.Locates plan.spans
        (batch.requests.filter (·.disaggregatedParams.isSome)) := by
  refine ⟨_, _, _, rfl, rfl, rfl, ⟨_, rfl, rfl⟩, fun h => ?_⟩
  obtain ⟨hlocates, -⟩ := List.forall₂_cons.mp h
  exact absurd (hlocates.tokenOffset 2 rfl) (by decide)

/-- The theorem applied to the first chunk. -/
theorem plan_of_first_chunk :
    let s := [pairedPrompt].foldl Scheduler.step (Scheduler.scripted {} 2 8 .enabled (some 2))
    ∃ s' batch plan, (Former.prefill 1 8).form s = (s', .ok batch) ∧
      KvCacheTransferPlan.fromPrefillWorkerBatchWithPageSize (.fromScheduleBatch batch) 2 =
        .ok plan ∧
      List.Forall₂ KvCacheTransferSpan.Locates plan.spans
        (batch.requests.filter (·.disaggregatedParams.isSome)) := by
  have ha : CachePageAllocator.withPageSize 16 2 = .ok ⟨16, 2, List.range 8, ∅⟩ := rfl
  refine ⟨_, _, _, rfl, rfl, ?_⟩
  refine (@plan_locates_iff ScriptedWorker _ {} 16 2 _ .enabled (some 2) none ha [pairedPrompt]
    (.prefill 1 8) _ _ rfl 2 _ rfl).mpr ?_
  decide

end SglangRs
