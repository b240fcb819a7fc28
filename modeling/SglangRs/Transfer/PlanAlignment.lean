import SglangRs.Cache.AllocatorRuns
import SglangRs.Transfer.PlanPositions

/-!
# Which batches can be planned

A transfer plan is made page by page, so it is refused for a span whose slots do not start a page or
do not follow each other on a page (`sglang-srt/src/transfer/mod.rs`, lines 709–751), and for a
batch that has more or fewer slots than tokens (lines 602–664). This file turns the two checks
around: slots laid out on pages pass the first one, and a batch of prompt chunks passes the second
exactly if every request has as many slots as tokens.

## Main results

* `exists_transferPageIndices`: slots laid out on pages have page indices.
* `KvCacheTransferPlan.exists_iff`: which batches of prompt chunks have a plan.
* `ScheduledRequest.ChunkAllocated.length_slots_iff`: a chunk has a slot for every token exactly if
  it is not an empty chunk of an unfinished prompt.
-/

namespace SglangRs

open Paging

/-! ### Page indices of slots laid out on pages -/

section Pages

variable {requestId : RequestId} {pageSize tokenOffset : ℕ} {slots : List ℕ}

theorem checkContiguous_of_getElem? {first : ℕ}
    (h : ∀ m x, slots[m]? = some x → x = first + m) :
    checkContiguous requestId first slots = .ok () := by
  induction slots generalizing first with
  | nil => rfl
  | cons slot slots ih =>
      have hslot : slot = first := h 0 slot rfl
      rw [checkContiguous, if_neg (not_not.mpr hslot)]
      refine ih fun m x hx => ?_
      have hnext := h (m + 1) x (by rwa [List.getElem?_cons_succ])
      omega

/-- Slots that fill a page from its start on have the index of the page. -/
theorem slotsPage_of_getElem? (hpage : 0 < pageSize) {page : ℕ} (hne : slots ≠ [])
    (h : ∀ m x, slots[m]? = some x → x = page * pageSize + m) :
    slotsPage requestId pageSize slots = .ok page := by
  obtain ⟨slot, rest, rfl⟩ := List.exists_cons_of_ne_nil hne
  obtain rfl : slot = page * pageSize := h 0 slot rfl
  have hcheck : checkContiguous requestId (page * pageSize) (page * pageSize :: rest) = .ok () :=
    checkContiguous_of_getElem? h
  have hdvd : pageSize ∣ page * pageSize := Nat.dvd_mul_left _ _
  simp only [slotsPage, List.headD_cons, hdvd, not_true_eq_false, if_false, hcheck,
    Nat.mul_div_cancel page hpage]

/-- Slots laid out on pages have page indices. -/
theorem exists_transferPageIndices (hpage : 0 < pageSize) (hoffset : pageSize ∣ tokenOffset)
    (hslots : Paged pageSize slots) :
    ∃ pages, transferPageIndices requestId tokenOffset slots pageSize = .ok pages := by
  unfold transferPageIndices
  split_ifs with hnil
  · exact ⟨[], rfl⟩
  refine exists_mapM_eq_ok_iff.mpr fun chunk hchunk => ?_
  obtain ⟨k, hk, rfl⟩ := List.mem_map.mp hchunk
  rw [List.mem_range] at hk
  refine ⟨(firstPages pageSize slots).getD k 0,
    slotsPage_of_getElem? hpage (pageOf_ne_nil hpage hk) fun m x hx => ?_⟩
  rw [getElem?_pageOf] at hx
  split_ifs at hx with hm
  obtain ⟨hlt, rfl⟩ := List.getElem?_eq_some_iff.mp hx
  have hdiv : (k * pageSize + m) / pageSize = k := by
    rw [Nat.mul_comm, Nat.mul_add_div hpage, Nat.div_eq_of_lt hm, Nat.add_zero]
  have hmod : (k * pageSize + m) % pageSize = m := by
    rw [Nat.mul_comm, Nat.mul_add_mod, Nat.mod_eq_of_lt hm]
  rw [hslots.getElem_eq hlt, hdiv, hmod]

/-- The first of the slots of a span starts a page. -/
theorem dvd_head_of_transferPageIndices {pages : List ℕ} (hpage : 0 < pageSize)
    (h : transferPageIndices requestId tokenOffset slots pageSize = .ok pages) {x : ℕ}
    (hx : slots.head? = some x) : pageSize ∣ x := by
  rw [List.head?_eq_getElem?] at hx
  obtain ⟨page, -, hslot⟩ := transferPageIndices_slot h hpage (List.getElem?_eq_some_iff.mp hx).1
  rw [hx, Option.some.injEq, Nat.zero_mod, Nat.add_zero] at hslot
  exact hslot ▸ Nat.dvd_mul_left _ _

end Pages

/-! ### Batches with a plan -/

section Plans

variable {b : ModelWorkerBatch} {pageSize : ℕ} {pre rest : List ScheduledRequest}

/-- The loop goes through if every request has a slot for every token and the slots of the requests
that belong to a pair have page indices. -/
theorem exists_planSpans (hpage : 0 < pageSize) (hb : b.Flattens (pre ++ rest))
    (hslots : b.outCachePages = (pre ++ rest).flatMap (·.forwardCachePages))
    (hlength : ∀ r ∈ rest, r.forwardCachePages.length = r.chunkEnd - r.chunkStart)
    (hpages : ∀ r ∈ rest, r.disaggregatedParams.isSome → ∃ pages,
      transferPageIndices r.requestId r.forwardPrefixTokenCount r.forwardCachePages pageSize =
        .ok pages) (spans : List KvCacheTransferSpan) :
    ∃ spans', planSpans b pageSize hpage (List.range' pre.length rest.length)
      (pre.flatMap (·.forwardCachePages)).length spans = .ok (spans', b.outCachePages.length) := by
  induction rest generalizing pre spans with
  | nil => exact ⟨spans, by simp [planSpans, hslots]⟩
  | cons r rest ih =>
      have hr := hlength r List.mem_cons_self
      have hcut : (b.outCachePages.drop (pre.flatMap (·.forwardCachePages)).length).take
          (r.chunkEnd - r.chunkStart) = r.forwardCachePages := by
        rw [hslots, List.flatMap_append, List.drop_left, List.flatMap_cons, ← hr, List.take_left]
      have hfits : ¬b.outCachePages.length <
          (pre.flatMap (·.forwardCachePages)).length + (r.chunkEnd - r.chunkStart) := by
        rw [hslots, ← hr]
        simp only [List.flatMap_append, List.flatMap_cons, List.length_append]
        omega
      have hoffset : (pre.flatMap (·.forwardCachePages)).length + (r.chunkEnd - r.chunkStart) =
          ((pre ++ [r]).flatMap (·.forwardCachePages)).length := by
        simp [hr]
      have hlen : pre.length + 1 = (pre ++ [r]).length := by simp
      have hnext := @ih (pre ++ [r]) (by simpa using hb) (by simpa using hslots)
        (fun x hx => hlength x (List.mem_cons_of_mem _ hx))
        (fun x hx => hpages x (List.mem_cons_of_mem _ hx))
      rw [List.length_cons, List.range'_succ]
      rw [planSpans_at hpage hb, if_neg hfits, hcut, hoffset, hlen]
      cases hpair : r.disaggregatedParams with
      | none => exact hnext spans
      | some params =>
          obtain ⟨pages, hok⟩ := hpages r List.mem_cons_self (by simp [hpair])
          simp only [hok, bind, Except.bind]
          exact hnext _

/-- **The batches that have a plan.** A batch of prompt chunks none of which has more slots than
tokens has a plan exactly if each has as many, and the slots of the requests that belong to a pair
have page indices. -/
theorem KvCacheTransferPlan.exists_iff {batch : ScheduleBatch} (hpage : 0 < pageSize)
    (hmode : batch.forwardMode = .prefill)
    (hle : ∀ r ∈ batch.requests, r.forwardCachePages.length ≤ r.chunkEnd - r.chunkStart) :
    (∃ plan, fromPrefillWorkerBatchWithPageSize (.fromScheduleBatch batch) pageSize = .ok plan) ↔
      (∀ r ∈ batch.requests, r.forwardCachePages.length = r.chunkEnd - r.chunkStart) ∧
      ∀ r ∈ batch.requests, r.disaggregatedParams.isSome → ∃ pages,
        transferPageIndices r.requestId r.forwardPrefixTokenCount r.forwardCachePages pageSize =
          .ok pages := by
  constructor
  · rintro ⟨plan, hplan⟩
    refine ⟨length_slots_eq hplan hle, fun r hr hpair => ?_⟩
    have hcarries := carries hplan
    have hcuts := cuts hplan hle
    have hmem : r ∈ batch.requests.filter (·.disaggregatedParams.isSome) :=
      List.mem_filter.mpr ⟨hr, hpair⟩
    obtain ⟨i, hi, hri⟩ := List.mem_iff_getElem.mp hmem
    have hi' : i < plan.spans.length := hcarries.length_eq ▸ hi
    have hspan := hcarries.get hi' hi
    have hcut := hcuts.get hi' hi
    simp only [List.get_eq_getElem, hri] at hspan hcut
    have hpages := hspan.pageIndices
    rw [hcut.requestId, hcut.tokenOffset, hcut.cachePages] at hpages
    exact ⟨_, hpages⟩
  · rintro ⟨hlength, hpages⟩
    obtain ⟨requests, rfl⟩ : ∃ requests, batch = .prefill requests :=
      ⟨_, ScheduleBatch.eq_prefill hmode⟩
    have hb := flattens_fromScheduleBatch requests
    have hslots := outCachePages_fromScheduleBatch requests
    obtain ⟨spans, hspans⟩ := @exists_planSpans _ _ [] _ hpage hb hslots hlength hpages []
    have hcount : (ModelWorkerBatch.fromScheduleBatch (.prefill requests)).requestIds.length =
        requests.length := by
      rw [hb.requestIds, List.length_map]
    refine ⟨⟨spans⟩, ?_⟩
    unfold fromPrefillWorkerBatchWithPageSize
    rw [if_neg (by rw [forwardMode_fromScheduleBatch]; exact not_not.mpr rfl),
      dif_neg hpage.ne']
    have hloop : planSpans (.fromScheduleBatch (.prefill requests)) pageSize hpage
        (List.range (ModelWorkerBatch.fromScheduleBatch (.prefill requests)).requestIds.length)
        0 [] = .ok (spans,
          (ModelWorkerBatch.fromScheduleBatch (.prefill requests)).outCachePages.length) := by
      rw [hcount, List.range_eq_range']
      exact hspans
    rw [hloop]
    exact if_neg (not_not.mpr rfl)

end Plans

/-- A chunk has a slot for every token, unless it is an empty chunk of a prompt that has tokens
left. -/
theorem ScheduledRequest.ChunkAllocated.length_slots_iff {r : ScheduledRequest}
    (h : r.ChunkAllocated) : r.forwardCachePages.length = r.chunkEnd - r.chunkStart ↔
      (r.currentChunkLen = 0 → r.inputIds.length ≤ r.promptTokensProcessed) := by
  have hle := h.chunk_le
  have hmatched := h.matched_le
  have huncached : r.uncachedInputIds.length = r.inputIds.length - r.forwardPrefixTokenCount := by
    rw [h.uncached_eq, List.length_drop]
  rw [h.forward_eq, chunkEnd, h.chunkStart_eq, huncached]
  split_ifs with hpos <;> omega

end SglangRs
