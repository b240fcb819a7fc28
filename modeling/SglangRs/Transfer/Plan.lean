import SglangRs.Collections.FallibleMap
import SglangRs.Scheduler.WorkerBatch
import SglangRs.Transfer.Spans

/-!
# Transfer plans

A worker of a disaggregated pair turns a prefill batch into a plan: a span for every request that
belongs to a pair, with the slots that the model runner writes for the chunk of the request, cut
into pages (`sglang-srt/src/transfer/mod.rs`, lines 602–664). Both workers of the pair do this, each
for its own batch. The slots and the positions of a batch are flat arrays; the plan walks through
the slots as `fromScheduleBatch` has laid out the positions, so that a page of a span holds a known
stretch of the prompt.

## Main definitions

* `transferPageIndices`: the pages of a list of slots.
* `KvCacheTransferPlan.fromPrefillWorkerBatchWithPageSize`: the plan of a batch.
* `ScheduledRequest.chunkPositions`, `ScheduledRequest.pagePositions`: the prompt positions of a
  chunk, and of one page of it.

## Main results

* `transferPageIndices_slot`: where a slot of a span lies.
* `KvCacheTransferPlan.carries`: what the spans of a plan carry.
* `forall_pageOf_eq_iff`: two lists agree page by page exactly when they agree.
-/

namespace SglangRs

/-! ### Pages of slots -/

inductive KvCacheTransferPlanError where
  | nonPrefillBatch
  | zeroPageSize
  | cachePageCountMismatch (requestId : RequestId) (inputTokenCount cachePageCount : ℕ)
  | trailingCachePages (consumedCachePageCount cachePageCount : ℕ)
  | unalignedTokenOffset (requestId : RequestId) (tokenOffset pageSize : ℕ)
  | unalignedCacheSlot (requestId : RequestId) (cacheSlot pageSize : ℕ)
  | nonContiguousCacheSlots (requestId : RequestId) (expected actual : ℕ)
deriving DecidableEq, Repr

def KvCacheTransferPlanError.display : KvCacheTransferPlanError → String
  | .nonPrefillBatch => "KV transfer plan requires prefill batch"
  | .zeroPageSize => "KV transfer page size must be non-zero"
  | .cachePageCountMismatch id tokens pages =>
      s!"request {id.asStr} has {tokens} input tokens but {pages} cache pages available"
  | .trailingCachePages consumed pages =>
      s!"KV transfer plan consumed {consumed} cache pages but batch has {pages}"
  | .unalignedTokenOffset id offset size =>
      s!"request {id.asStr} KV delta starts at token {offset}, which is not aligned to page size "
        ++ s!"{size}"
  | .unalignedCacheSlot id slot size =>
      s!"request {id.asStr} KV cache slot {slot} does not start a page of size {size}"
  | .nonContiguousCacheSlots id expected actual =>
      s!"request {id.asStr} KV cache page expected slot {expected} but found {actual}"

/-- A page of a list. -/
def pageOf {α : Type} (pageSize k : ℕ) (as : List α) : List α :=
  (as.drop (k * pageSize)).take pageSize

/-- The pages of a list, as the `chunks` of a slice. -/
def pagesOf {α : Type} (pageSize : ℕ) (as : List α) : List (List α) :=
  (List.range (divCeil as.length pageSize)).map fun k => pageOf pageSize k as

/-- The slots of a page follow each other. -/
def checkContiguous (requestId : RequestId) :
    ℕ → List ℕ → Except KvCacheTransferPlanError Unit
  | _, [] => .ok ()
  | expected, actual :: slots =>
      if actual ≠ expected then .error (.nonContiguousCacheSlots requestId expected actual)
      else checkContiguous requestId (expected + 1) slots

/-- The page with the given slots. -/
def slotsPage (requestId : RequestId) (pageSize : ℕ) (slots : List ℕ) :
    Except KvCacheTransferPlanError ℕ :=
  let firstSlot := slots.headD 0
  if ¬ pageSize ∣ firstSlot then .error (.unalignedCacheSlot requestId firstSlot pageSize)
  else
    match checkContiguous requestId firstSlot slots with
    | .error error => .error error
    | .ok () => .ok (firstSlot / pageSize)

/-- Source: `transfer/mod.rs`, lines 709–751. -/
def transferPageIndices (requestId : RequestId) (tokenOffset : ℕ) (cacheSlots : List ℕ)
    (pageSize : ℕ) : Except KvCacheTransferPlanError (List ℕ) :=
  if cacheSlots = [] then .ok []
  else if ¬ pageSize ∣ tokenOffset then
    .error (.unalignedTokenOffset requestId tokenOffset pageSize)
  else (pagesOf pageSize cacheSlots).mapM (slotsPage requestId pageSize)

/-! ### Plans -/

structure KvCacheTransferPlan where
  spans : List KvCacheTransferSpan := []

section Plan

variable (b : ModelWorkerBatch) (pageSize : ℕ) (hpage : 0 < pageSize)

/-- The loop over the requests of a batch, from an offset into its slots on. -/
def planSpans : List ℕ → ℕ → List KvCacheTransferSpan →
    Except KvCacheTransferPlanError (List KvCacheTransferSpan × ℕ)
  | [], cachePageOffset, spans => .ok (spans, cachePageOffset)
  | i :: indices, cachePageOffset, spans =>
      let requestId := b.requestIds.getD i ⟨""⟩
      let inputTokenCount := b.inputTokenCounts.getD i 0
      let cachePageEnd := cachePageOffset + inputTokenCount
      if b.outCachePages.length < cachePageEnd then
        .error (.cachePageCountMismatch requestId inputTokenCount
          (b.outCachePages.length - cachePageOffset))
      else
        let cachePages := (b.outCachePages.drop cachePageOffset).take inputTokenCount
        match b.disaggregatedParams.getD i none with
        | none => planSpans indices cachePageEnd spans
        | some disaggregatedParams => do
            let tokenOffset := b.cachedTokenCounts.getD i 0
            let pageIndices ← transferPageIndices requestId tokenOffset cachePages pageSize
            planSpans indices cachePageEnd (spans ++
              [{ requestId, disaggregatedParams
                 dataParallelRank := b.dataParallelRanks.getD i 0
                 tokenOffset
                 tokenCount := inputTokenCount
                 cachePages, pageSize, pageIndices
                 firstToken := none
                 pageSize_pos := hpage }])

/-- Source: `transfer/mod.rs`, lines 602–664. -/
def KvCacheTransferPlan.fromPrefillWorkerBatchWithPageSize :
    Except KvCacheTransferPlanError KvCacheTransferPlan :=
  if b.forwardMode ≠ .prefill then .error .nonPrefillBatch
  else if hpage : pageSize = 0 then .error .zeroPageSize
  else
    match planSpans b pageSize (Nat.pos_of_ne_zero hpage) (List.range b.requestIds.length) 0 [] with
    | .error error => .error error
    | .ok (spans, consumed) =>
        if consumed ≠ b.outCachePages.length then
          .error (.trailingCachePages consumed b.outCachePages.length)
        else .ok ⟨spans⟩

end Plan

/-! ### The slots of a page -/

section Pages

variable {α : Type} {pageSize : ℕ}

theorem getElem?_pageOf (k m : ℕ) (as : List α) :
    (pageOf pageSize k as)[m]? = if m < pageSize then as[k * pageSize + m]? else none := by
  rw [pageOf, List.getElem?_take]
  split_ifs
  · rw [List.getElem?_drop]
  · rfl

/-- An element by its page and its place in the page. -/
theorem getElem?_eq_pageOf (hpage : 0 < pageSize) (t : ℕ) (as : List α) :
    as[t]? = (pageOf pageSize (t / pageSize) as)[t % pageSize]? := by
  rw [getElem?_pageOf, if_pos (Nat.mod_lt t hpage), Nat.div_add_mod']

/-- Lists with the same pages are the same. -/
theorem forall_pageOf_eq_iff (hpage : 0 < pageSize) {as bs : List α} :
    (∀ k, pageOf pageSize k as = pageOf pageSize k bs) ↔ as = bs := by
  constructor
  · intro h
    refine List.ext_getElem? fun t => ?_
    rw [getElem?_eq_pageOf hpage t as, getElem?_eq_pageOf hpage t bs, h]
  · rintro rfl k
    rfl

theorem pageOf_ne_nil (hpage : 0 < pageSize) {k : ℕ} {as : List α}
    (hk : k < divCeil as.length pageSize) : pageOf pageSize k as ≠ [] := by
  intro hnil
  have hlt := (lt_divCeil hpage).1 hk
  have hlen := congrArg List.length hnil
  simp only [pageOf, List.length_take, List.length_drop, List.length_nil] at hlen
  omega

theorem checkContiguous_ok {requestId : RequestId} {slots : List ℕ} {first : ℕ}
    (h : checkContiguous requestId first slots = .ok ()) {m : ℕ} (hm : m < slots.length) :
    slots[m]? = some (first + m) := by
  induction slots generalizing first m with
  | nil => simp at hm
  | cons slot slots ih =>
      rw [checkContiguous] at h
      split_ifs at h with hslot
      rw [not_not] at hslot
      cases m with
      | zero => simp [hslot]
      | succ m =>
          rw [List.getElem?_cons_succ, ih h (by simpa using hm)]
          congr 1
          omega

/-- The slots of a page start at the page and follow each other. -/
theorem slotsPage_ok {requestId : RequestId} {slots : List ℕ} {page : ℕ}
    (h : slotsPage requestId pageSize slots = .ok page) {m : ℕ} (hm : m < slots.length) :
    slots[m]? = some (page * pageSize + m) := by
  simp only [slotsPage] at h
  split_ifs at h with hdvd
  split at h
  · cases h
  · rename_i hcheck
    rw [checkContiguous_ok hcheck hm, ← Except.ok.inj h, Nat.div_mul_cancel hdvd]

variable {requestId : RequestId} {tokenOffset : ℕ} {slots pages : List ℕ}

theorem transferPageIndices_forall₂
    (h : transferPageIndices requestId tokenOffset slots pageSize = .ok pages)
    (hpage : 0 < pageSize) :
    List.Forall₂ (fun chunk page => slotsPage requestId pageSize chunk = .ok page)
      (pagesOf pageSize slots) pages := by
  unfold transferPageIndices at h
  split_ifs at h with hnil hdvd
  · obtain rfl : [] = pages := Except.ok.inj h
    subst hnil
    rw [pagesOf, List.length_nil, divCeil_zero hpage]
    exact .nil
  · exact mapM_eq_ok_iff.1 h

/-- There is a page for every started stretch of slots. -/
theorem length_transferPageIndices
    (h : transferPageIndices requestId tokenOffset slots pageSize = .ok pages)
    (hpage : 0 < pageSize) :
    pages.length = divCeil slots.length pageSize := by
  rw [← (transferPageIndices_forall₂ h hpage).length_eq, pagesOf, List.length_map,
    List.length_range]

/-- A slot of a span lies in the page of its place. -/
theorem transferPageIndices_slot
    (h : transferPageIndices requestId tokenOffset slots pageSize = .ok pages)
    (hpage : 0 < pageSize)
    {t : ℕ} (ht : t < slots.length) :
    ∃ page, pages[t / pageSize]? = some page ∧
      slots[t]? = some (page * pageSize + t % pageSize) := by
  have hk : t / pageSize < divCeil slots.length pageSize :=
    (lt_divCeil hpage).2 ((Nat.div_mul_le_self t pageSize).trans_lt ht)
  have hpages := length_transferPageIndices h hpage
  have hlt : t / pageSize < pages.length := by omega
  refine ⟨_, List.getElem?_eq_getElem hlt, ?_⟩
  have hchunk := (transferPageIndices_forall₂ h hpage).get (i := t / pageSize)
    (by simpa [pagesOf] using hk) (by omega)
  simp only [pagesOf, List.get_eq_getElem, List.getElem_map, List.getElem_range] at hchunk
  rw [getElem?_eq_pageOf hpage]
  refine slotsPage_ok hchunk ?_
  have hmod := Nat.mod_lt t hpage
  have hdiv := Nat.div_add_mod' t pageSize
  simp only [pageOf, List.length_take, List.length_drop]
  omega

end Pages

/-! ### What a span carries -/

namespace ScheduledRequest

variable (r : ScheduledRequest)

/-- The positions of the tokens of a chunk in the prompt. -/
def chunkPositions : List ℕ := (List.range (r.chunkEnd - r.chunkStart)).map (r.chunkStart + ·)

/-- The positions of the tokens on a page of a chunk. -/
def pagePositions (pageSize k : ℕ) : List ℕ := pageOf pageSize k r.chunkPositions

@[simp] theorem length_chunkPositions : r.chunkPositions.length = r.chunkEnd - r.chunkStart := by
  simp [chunkPositions]

end ScheduledRequest

/-- The arrays of a prefill batch that a plan reads. -/
structure ModelWorkerBatch.Flattens (b : ModelWorkerBatch) (requests : List ScheduledRequest) :
    Prop where
  requestIds : b.requestIds = requests.map (·.requestId)
  inputTokenCounts : b.inputTokenCounts = requests.map fun r => r.chunkEnd - r.chunkStart
  cachedTokenCounts : b.cachedTokenCounts = requests.map (·.forwardPrefixTokenCount)
  disaggregatedParams : b.disaggregatedParams = requests.map (·.disaggregatedParams)
  positions : b.positions = requests.flatMap (·.chunkPositions)

theorem flattens_fromScheduleBatch (requests : List ScheduledRequest) :
    (ModelWorkerBatch.fromScheduleBatch (.prefill requests)).Flattens requests := by
  induction requests using List.reverseRecOn with
  | nil => exact ⟨rfl, rfl, rfl, rfl, rfl⟩
  | append_singleton requests r ih =>
      have hpush : ModelWorkerBatch.fromScheduleBatch (.prefill (requests ++ [r])) =
          ModelWorkerBatch.pushRequest .prefill
            (ModelWorkerBatch.fromScheduleBatch (.prefill requests)) r := by
        simp [ModelWorkerBatch.fromScheduleBatch, ScheduleBatch.prefill]
      rw [hpush]
      constructor
      · simp [ModelWorkerBatch.pushRequest, ModelWorkerBatch.pushPrefillRequest,
          ModelWorkerBatch.pushHeader, ih.requestIds]
      · simp [ModelWorkerBatch.pushRequest, ModelWorkerBatch.pushPrefillRequest,
          ModelWorkerBatch.pushHeader, ih.inputTokenCounts]
      · simp [ModelWorkerBatch.pushRequest, ModelWorkerBatch.pushPrefillRequest,
          ModelWorkerBatch.pushHeader, ih.cachedTokenCounts]
      · simp [ModelWorkerBatch.pushRequest, ModelWorkerBatch.pushPrefillRequest,
          ModelWorkerBatch.pushHeader, ih.disaggregatedParams]
      · simp [ModelWorkerBatch.pushRequest, ModelWorkerBatch.pushPrefillRequest,
          ModelWorkerBatch.pushHeader, ih.positions, ScheduledRequest.chunkPositions]

/-- A span carries the chunk of a request: its slots and the positions of the chunk are the same
stretch of the arrays of the batch. -/
structure KvCacheTransferSpan.Carries (span : KvCacheTransferSpan) (b : ModelWorkerBatch)
    (pageSize : ℕ) (r : ScheduledRequest) : Prop where
  disaggregatedParams : r.disaggregatedParams = some span.disaggregatedParams
  tokenOffset : span.tokenOffset = r.forwardPrefixTokenCount
  tokenCount : span.tokenCount = r.chunkEnd - r.chunkStart
  pageSize_eq : span.pageSize = pageSize
  pageIndices : transferPageIndices span.requestId span.tokenOffset span.cachePages pageSize =
    .ok span.pageIndices
  length_cachePages : span.cachePages.length = span.tokenCount
  arrays : ∃ offset, span.cachePages = (b.outCachePages.drop offset).take span.tokenCount ∧
    r.chunkPositions = (b.positions.drop offset).take span.tokenCount

section Carries

variable {b : ModelWorkerBatch} {pageSize : ℕ} {pre rest : List ScheduledRequest}
  {r : ScheduledRequest}

theorem ModelWorkerBatch.Flattens.chunkPositions (hb : b.Flattens (pre ++ r :: rest)) :
    r.chunkPositions = (b.positions.drop (pre.flatMap (·.chunkPositions)).length).take
      (r.chunkEnd - r.chunkStart) := by
  rw [hb.positions, List.flatMap_append, List.drop_left, List.flatMap_cons,
    List.take_left' r.length_chunkPositions]

/-- One round of the loop, in terms of the request. -/
theorem planSpans_at (hpage : 0 < pageSize) (hb : b.Flattens (pre ++ r :: rest))
    (indices : List ℕ) (offset : ℕ) (spans : List KvCacheTransferSpan) :
    planSpans b pageSize hpage (pre.length :: indices) offset spans =
      if b.outCachePages.length < offset + (r.chunkEnd - r.chunkStart) then
        .error (.cachePageCountMismatch r.requestId (r.chunkEnd - r.chunkStart)
          (b.outCachePages.length - offset))
      else
        match r.disaggregatedParams with
        | none => planSpans b pageSize hpage indices (offset + (r.chunkEnd - r.chunkStart)) spans
        | some disaggregatedParams =>
            let cachePages := (b.outCachePages.drop offset).take (r.chunkEnd - r.chunkStart)
            transferPageIndices r.requestId r.forwardPrefixTokenCount cachePages pageSize >>=
              fun pageIndices =>
                planSpans b pageSize hpage indices (offset + (r.chunkEnd - r.chunkStart)) (spans ++
                  [{ requestId := r.requestId, disaggregatedParams
                     dataParallelRank := b.dataParallelRanks.getD pre.length 0
                     tokenOffset := r.forwardPrefixTokenCount
                     tokenCount := r.chunkEnd - r.chunkStart
                     cachePages, pageSize, pageIndices
                     firstToken := none
                     pageSize_pos := hpage }]) := by
  have hcount : b.inputTokenCounts.getD pre.length 0 = r.chunkEnd - r.chunkStart := by
    simp [hb.inputTokenCounts]
  have hparams : b.disaggregatedParams.getD pre.length none = r.disaggregatedParams := by
    simp [hb.disaggregatedParams]
  have hcached : b.cachedTokenCounts.getD pre.length 0 = r.forwardPrefixTokenCount := by
    simp [hb.cachedTokenCounts]
  have hid : b.requestIds.getD pre.length ⟨""⟩ = r.requestId := by
    simp [hb.requestIds]
  simp only [planSpans, hcount, hparams, hcached, hid]

/-- What a plan takes for a request whose tokens begin at `offset` in the arrays of the batch. -/
structure KvCacheTransferSpan.TakenAt (span : KvCacheTransferSpan) (b : ModelWorkerBatch)
    (pageSize offset : ℕ) (r : ScheduledRequest) : Prop where
  requestId : span.requestId = r.requestId
  disaggregatedParams : r.disaggregatedParams = some span.disaggregatedParams
  tokenOffset : span.tokenOffset = r.forwardPrefixTokenCount
  tokenCount : span.tokenCount = r.chunkEnd - r.chunkStart
  pageSize_eq : span.pageSize = pageSize
  cachePages : span.cachePages = (b.outCachePages.drop offset).take (r.chunkEnd - r.chunkStart)
  length_cachePages : span.cachePages.length = span.tokenCount
  pageIndices : transferPageIndices span.requestId span.tokenOffset span.cachePages pageSize =
    .ok span.pageIndices

/-- One round of the loop: a request that belongs to a pair gets a span. -/
theorem planSpans_cons (hpage : 0 < pageSize) (hb : b.Flattens (pre ++ r :: rest))
    {indices : List ℕ} {spans : List KvCacheTransferSpan} {offset : ℕ}
    {result : List KvCacheTransferSpan × ℕ}
    (h : planSpans b pageSize hpage (pre.length :: indices) offset spans = .ok result) :
    ∃ new, List.Forall₂ (fun span r' => r' = r ∧ span.TakenAt b pageSize offset r) new
        ([r].filter (·.disaggregatedParams.isSome)) ∧
      planSpans b pageSize hpage indices (offset + (r.chunkEnd - r.chunkStart))
        (spans ++ new) = .ok result := by
  rw [planSpans_at hpage hb] at h
  split_ifs at h with hlen
  cases hr : r.disaggregatedParams with
  | none =>
      rw [hr] at h
      exact ⟨[], by simp [hr], by simpa using h⟩
  | some params =>
      simp only [hr] at h
      cases hpages : transferPageIndices r.requestId r.forwardPrefixTokenCount
          ((b.outCachePages.drop offset).take (r.chunkEnd - r.chunkStart)) pageSize with
      | error e =>
          simp only [hpages, bind, Except.bind] at h
          cases h
      | ok pages =>
          simp only [hpages, bind, Except.bind] at h
          refine ⟨_, ?_, h⟩
          simp only [hr, List.filter_cons, Option.isSome_some, if_true, List.filter_nil]
          refine .cons ⟨rfl, rfl, hr, rfl, rfl, rfl, rfl, ?_, hpages⟩ .nil
          show (List.take _ _).length = r.chunkEnd - r.chunkStart
          rw [List.length_take, List.length_drop]
          omega

/-- **The loop of a plan.** It consumes the tokens of all requests, and every span is taken where
the tokens of its request begin. -/
theorem planSpans_taken (hpage : 0 < pageSize) {requests : List ScheduledRequest}
    (hb : b.Flattens requests) (hrequests : requests = pre ++ rest)
    {spans spans' : List KvCacheTransferSpan} {consumed : ℕ}
    (h : planSpans b pageSize hpage (List.range' pre.length rest.length)
      (pre.flatMap (·.chunkPositions)).length spans = .ok (spans', consumed)) :
    consumed = (requests.flatMap (·.chunkPositions)).length ∧
      ∃ new, spans' = spans ++ new ∧
        List.Forall₂ (fun span r => ∃ before after, requests = before ++ r :: after ∧
            span.TakenAt b pageSize (before.flatMap (·.chunkPositions)).length r) new
          (rest.filter (·.disaggregatedParams.isSome)) := by
  induction rest generalizing pre spans with
  | nil =>
      obtain ⟨rfl, rfl⟩ : spans = spans' ∧ _ = consumed := by
        simpa only [planSpans, List.length_nil, List.range'_zero, Except.ok.injEq,
          Prod.mk.injEq] using h
      exact ⟨by rw [hrequests, List.append_nil], [], by simp, .nil⟩
  | cons r rest ih =>
      rw [List.length_cons, List.range'_succ] at h
      obtain ⟨new, hnew, hrest⟩ := planSpans_cons hpage (hrequests ▸ hb) h
      have hlen : pre.length + 1 = (pre ++ [r]).length := by simp
      have hoffset : (pre.flatMap (·.chunkPositions)).length + (r.chunkEnd - r.chunkStart) =
          ((pre ++ [r]).flatMap (·.chunkPositions)).length := by simp
      rw [hlen, hoffset] at hrest
      obtain ⟨hconsumed, more, hspans, hmore⟩ := ih (by simpa using hrequests) hrest
      refine ⟨hconsumed, new ++ more, by rw [hspans, List.append_assoc], ?_⟩
      have hfilter : (r :: rest).filter (·.disaggregatedParams.isSome) =
          [r].filter (·.disaggregatedParams.isSome) ++
            rest.filter (·.disaggregatedParams.isSome) := by
        rw [← List.filter_append, List.singleton_append]
      rw [hfilter]
      refine List.rel_append (hnew.imp ?_) hmore
      rintro span _ ⟨rfl, htaken⟩
      exact ⟨pre, rest, hrequests, htaken⟩

theorem forwardMode_pushRequest (mode : ForwardMode) (b : ModelWorkerBatch)
    (r : ScheduledRequest) : (b.pushRequest mode r).forwardMode = b.forwardMode := by
  unfold ModelWorkerBatch.pushRequest
  split
  · rfl
  · rfl
  · split
    · rfl
    · rfl
    · split_ifs <;> rfl

theorem forwardMode_fromScheduleBatch (batch : ScheduleBatch) :
    (ModelWorkerBatch.fromScheduleBatch batch).forwardMode = batch.forwardMode := by
  have hkeep : ∀ (requests : List ScheduledRequest) (b : ModelWorkerBatch),
      (requests.foldl (ModelWorkerBatch.pushRequest batch.forwardMode) b).forwardMode =
        b.forwardMode := by
    intro requests
    induction requests with
    | nil => exact fun b => rfl
    | cons r requests ih => exact fun b => (ih _).trans (forwardMode_pushRequest _ b r)
  exact hkeep batch.requests _

/-- Plans are made of prefill batches only. -/
theorem KvCacheTransferPlan.forwardMode_eq {batch : ScheduleBatch} {plan : KvCacheTransferPlan}
    (h : fromPrefillWorkerBatchWithPageSize (.fromScheduleBatch batch) pageSize = .ok plan) :
    batch.forwardMode = .prefill := by
  unfold fromPrefillWorkerBatchWithPageSize at h
  split_ifs at h with hmode
  rwa [not_not, forwardMode_fromScheduleBatch] at hmode

/-- The loop of an accepted plan goes through the requests and ends at the last slot. -/
theorem KvCacheTransferPlan.planSpans_of_ok {batch : ScheduleBatch} {plan : KvCacheTransferPlan}
    (h : fromPrefillWorkerBatchWithPageSize (.fromScheduleBatch batch) pageSize = .ok plan) :
    ∃ hpage, (ModelWorkerBatch.fromScheduleBatch batch).Flattens batch.requests ∧
      planSpans (.fromScheduleBatch batch) pageSize hpage
        (List.range' 0 batch.requests.length) 0 [] =
          .ok (plan.spans, (ModelWorkerBatch.fromScheduleBatch batch).outCachePages.length) := by
  have hmode := forwardMode_eq h
  have hb : (ModelWorkerBatch.fromScheduleBatch batch).Flattens batch.requests := by
    obtain ⟨mode, requests⟩ := batch
    obtain rfl : mode = .prefill := hmode
    exact flattens_fromScheduleBatch requests
  have hcount : (ModelWorkerBatch.fromScheduleBatch batch).requestIds.length =
      batch.requests.length := by
    rw [hb.requestIds, List.length_map]
  unfold fromPrefillWorkerBatchWithPageSize at h
  split_ifs at h with _ hpage
  split at h
  · cases h
  · rename_i spans consumed hspans
    split_ifs at h with hconsumed
    rw [not_not] at hconsumed
    obtain rfl := Except.ok.inj h
    rw [hcount, List.range_eq_range', hconsumed] at hspans
    exact ⟨Nat.pos_of_ne_zero hpage, hb, hspans⟩

/-- An accepted plan consumes exactly the slots of the batch, and takes its spans in their order for
the requests that belong to a pair. -/
theorem KvCacheTransferPlan.taken {batch : ScheduleBatch} {plan : KvCacheTransferPlan}
    (h : fromPrefillWorkerBatchWithPageSize (.fromScheduleBatch batch) pageSize = .ok plan) :
    (ModelWorkerBatch.fromScheduleBatch batch).outCachePages.length =
        (batch.requests.flatMap (·.chunkPositions)).length ∧
      List.Forall₂ (fun span r => ∃ before after, batch.requests = before ++ r :: after ∧
          span.TakenAt (.fromScheduleBatch batch) pageSize
            (before.flatMap (·.chunkPositions)).length r) plan.spans
        (batch.requests.filter (·.disaggregatedParams.isSome)) := by
  obtain ⟨hpage, hb, hspans⟩ := planSpans_of_ok h
  obtain ⟨hconsumed, new, hnew, htaken⟩ := @planSpans_taken _ _ [] _ hpage _ hb rfl _ _ _ hspans
  rw [hnew, List.nil_append]
  exact ⟨hconsumed, htaken⟩

/-- The spans of a plan carry the chunks of the requests that belong to a pair, in their order. -/
theorem KvCacheTransferPlan.carries {batch : ScheduleBatch} {plan : KvCacheTransferPlan}
    (h : fromPrefillWorkerBatchWithPageSize (.fromScheduleBatch batch) pageSize = .ok plan) :
    List.Forall₂ (fun span r => span.Carries (.fromScheduleBatch batch) pageSize r) plan.spans
      (batch.requests.filter (·.disaggregatedParams.isSome)) := by
  obtain ⟨hpage, hb, -⟩ := planSpans_of_ok h
  refine (taken h).2.imp fun span r => ?_
  rintro ⟨before, after, hrequests, htaken⟩
  rw [hrequests] at hb
  exact ⟨htaken.disaggregatedParams, htaken.tokenOffset, htaken.tokenCount, htaken.pageSize_eq,
    htaken.pageIndices, htaken.length_cachePages, _, htaken.tokenCount ▸ htaken.cachePages,
    htaken.tokenCount ▸ hb.chunkPositions⟩

end Carries

end SglangRs
