import SglangRs.Scheduler.Request

/-!
# The batch the model runner receives

A batch of the scheduler is flattened before it is run: the tokens to forward, their positions and
the slots they are written to, and the whole sequences with their slots, each request a range of
these arrays (`model_executor.rs`, lines 15–280). The model runner rejects a batch whose arrays do
not fit together. It accepts a batch if the request by request contributions fit.

Arrays are lists and their lengths natural numbers, so the branches for overflowing ranges of the
source do not appear. Slices that the source would take out of range are cut off here; for a request
that fits, no slice is out of range. The one subtraction of the source that is not guarded wraps
around, as in a build without overflow checks.

## Main definitions

* `ModelWorkerBatch`, `ModelWorkerBatch.fromScheduleBatch`: the flattened batch.
* `validateModelWorkerBatch`: the check of the model runner.
* `ScheduledRequest.FitsPrefill`, `ScheduledRequest.FitsDecode`: the contribution of a request fits.

## Main results

* `validate_fromScheduleBatch`: a batch of requests that fit is accepted.
-/

namespace SglangRs

structure ModelWorkerBatch where
  forwardMode : ForwardMode
  requestIds : List RequestId := []
  inputIds : List UInt32 := []
  positions : List ℕ := []
  sequenceLengths : List ℕ := []
  sequenceTokenIds : List UInt32 := []
  sequenceOffsets : List ℕ := []
  sequenceTokenCounts : List ℕ := []
  sequenceCachePages : List ℕ := []
  requestOffsets : List ℕ := []
  cachedTokenCounts : List ℕ := []
  inputTokenCounts : List ℕ := []
  prefixCachePages : List (List ℕ) := []
  outCachePages : List ℕ := []
  disaggregatedParams : List (Option DisaggregatedParams) := []
  dataParallelRanks : List ℤ := []
deriving DecidableEq, Repr

/-- The errors of the model runner; the check of a batch returns the last kind. -/
inductive ModelForwardError where
  | emptyVocabulary
  | raggedLogits
  | batchSizeMismatch (requestCount outputCount : ℕ)
  | tokenLogitCountMismatch (tokenCount logitCount : ℕ)
  | missingRequestTokenLogits (requestIndex : ℕ)
  | invalidProbabilityDistribution (requestIndex : ℕ)
  | runtime (message : String)
deriving DecidableEq, Repr

namespace ScheduledRequest

variable (r : ScheduledRequest)

def forwardPrefixTokenCount : ℕ := r.prefixMatch.matchedTokenCount

/-- The position of the first token of a chunk. -/
def chunkStart : ℕ := max r.promptTokensProcessed r.prefixCachePages.length

/-- The position after the last token of a chunk. -/
def chunkEnd : ℕ :=
  min (r.chunkStart +
    if r.currentChunkLen > 0 then r.currentChunkLen else r.uncachedInputIds.length)
    r.inputIds.length

/-- The position of a token that is decoded, a subtraction of machine words. A request without any
token has none: the subtraction wraps around, or panics if overflows are checked. -/
def decodePosition : ℕ :=
  let length := r.inputIds.length + r.outputIds.length
  if length = 0 then usizeMax else length - 1

variable {r} in
theorem decodePosition_eq (h : 0 < r.inputIds.length + r.outputIds.length) :
    r.decodePosition = r.inputIds.length + r.outputIds.length - 1 :=
  if_neg h.ne'

end ScheduledRequest

namespace ModelWorkerBatch

/-- Source: `model_executor.rs`, lines 171–203. -/
def pushPrefillRequest (b : ModelWorkerBatch) (request : ScheduledRequest) : ModelWorkerBatch :=
  let startPos := request.chunkStart
  let endPos := request.chunkEnd
  { b with
    sequenceOffsets := b.sequenceOffsets ++ [b.sequenceTokenIds.length]
    sequenceTokenIds := b.sequenceTokenIds ++ request.inputIds.take endPos
    sequenceTokenCounts := b.sequenceTokenCounts ++ [endPos]
    sequenceCachePages := b.sequenceCachePages ++
      if request.sequenceCachePages.isEmpty then request.sequenceCachePages
      else request.sequenceCachePages.take (min endPos request.sequenceCachePages.length)
    inputIds := b.inputIds ++ (request.inputIds.take endPos).drop startPos
    inputTokenCounts := b.inputTokenCounts ++ [endPos - startPos]
    outCachePages := b.outCachePages ++ request.forwardCachePages
    positions := b.positions ++ (List.range (endPos - startPos)).map (startPos + ·)
    sequenceLengths := b.sequenceLengths ++ [endPos] }

/-- Source: `model_executor.rs`, lines 205–225. -/
def pushDecodeRequest (b : ModelWorkerBatch) (request : ScheduledRequest) : ModelWorkerBatch :=
  let length := request.inputIds.length + request.outputIds.length
  { b with
    sequenceOffsets := b.sequenceOffsets ++ [b.sequenceTokenIds.length]
    sequenceTokenIds := b.sequenceTokenIds ++ request.inputIds ++ request.outputIds
    sequenceTokenCounts := b.sequenceTokenCounts ++ [length]
    sequenceCachePages := b.sequenceCachePages ++ request.sequenceCachePages
    inputIds := b.inputIds ++ [request.outputIds.getLast?.getD 0]
    inputTokenCounts := b.inputTokenCounts ++ [1]
    outCachePages := b.outCachePages ++ request.forwardCachePages
    positions := b.positions ++ [request.decodePosition]
    sequenceLengths := b.sequenceLengths ++ [length] }

/-- The fields that do not depend on the stage of the request. -/
def pushHeader (b : ModelWorkerBatch) (request : ScheduledRequest) : ModelWorkerBatch :=
  { b with
    requestIds := b.requestIds ++ [request.requestId]
    requestOffsets := b.requestOffsets ++ [b.inputIds.length]
    cachedTokenCounts := b.cachedTokenCounts ++ [request.forwardPrefixTokenCount]
    prefixCachePages := b.prefixCachePages ++ [request.prefixCachePages]
    disaggregatedParams := b.disaggregatedParams ++ [request.disaggregatedParams]
    dataParallelRanks := b.dataParallelRanks ++ [request.dataParallelRank] }

/-- Source: `model_executor.rs`, lines 141–169. -/
def pushRequest (forwardMode : ForwardMode) (b : ModelWorkerBatch) (request : ScheduledRequest) :
    ModelWorkerBatch :=
  let b := b.pushHeader request
  match forwardMode with
  | .prefill => b.pushPrefillRequest request
  | .decode => b.pushDecodeRequest request
  | .mixed =>
      match request.stage with
      | .prefillForward => b.pushPrefillRequest request
      | .decodeForward => b.pushDecodeRequest request
      | _ =>
          if request.outputIds.isEmpty then b.pushPrefillRequest request
          else b.pushDecodeRequest request

/-- Source: `model_executor.rs`, lines 42–67. -/
def fromScheduleBatch (batch : ScheduleBatch) : ModelWorkerBatch :=
  batch.requests.foldl (pushRequest batch.forwardMode) { forwardMode := batch.forwardMode }

/-- The ranges of a request lie within the arrays. -/
def RangeFits (b : ModelWorkerBatch) (i : ℕ) : Prop :=
  b.requestOffsets.getD i 0 + b.inputTokenCounts.getD i 0 ≤ b.inputIds.length ∧
    b.sequenceOffsets.getD i 0 + b.sequenceTokenCounts.getD i 0 ≤ b.sequenceCachePages.length

instance (b : ModelWorkerBatch) (i : ℕ) : Decidable (b.RangeFits i) :=
  inferInstanceAs (Decidable (_ ∧ _))

end ModelWorkerBatch

/-- Source: `model_executor.rs`, lines 228–279. -/
def validateModelWorkerBatch (batch : ModelWorkerBatch) : Except ModelForwardError Unit :=
  let requestCount := batch.requestIds.length
  let fields :=
    [("request_offsets", batch.requestOffsets.length),
      ("input_token_counts", batch.inputTokenCounts.length),
      ("sequence_offsets", batch.sequenceOffsets.length),
      ("sequence_token_counts", batch.sequenceTokenCounts.length)]
  match fields.find? fun field => field.2 ≠ requestCount with
  | some (name, actual) =>
      .error (.runtime s!"batch field {name} has length {actual}, expected {requestCount}")
  | none =>
      if batch.inputIds.length ≠ batch.positions.length ∨
          batch.inputIds.length ≠ batch.outCachePages.length then
        .error (.runtime (s!"dense decoder input/position/output-slot lengths differ: "
          ++ s!"{batch.inputIds.length}/{batch.positions.length}/{batch.outCachePages.length}"))
      else if batch.sequenceTokenIds.length ≠ batch.sequenceCachePages.length then
        .error (.runtime (s!"dense decoder sequence token/slot lengths differ: "
          ++ s!"{batch.sequenceTokenIds.length}/{batch.sequenceCachePages.length}"))
      else
        match (List.range requestCount).find? fun i => ¬batch.RangeFits i with
        | some i =>
            .error (.runtime s!"dense decoder request {i} batch ranges exceed flattened storage")
        | none => .ok ()

/-! ### Batches that are accepted -/

namespace ModelWorkerBatch

/-- The arrays fit together. -/
structure Consistent (b : ModelWorkerBatch) : Prop where
  requestOffsets : b.requestOffsets.length = b.requestIds.length
  inputTokenCounts : b.inputTokenCounts.length = b.requestIds.length
  sequenceOffsets : b.sequenceOffsets.length = b.requestIds.length
  sequenceTokenCounts : b.sequenceTokenCounts.length = b.requestIds.length
  positions : b.inputIds.length = b.positions.length
  outCachePages : b.inputIds.length = b.outCachePages.length
  sequence : b.sequenceTokenIds.length = b.sequenceCachePages.length
  ranges : ∀ i < b.requestIds.length, b.RangeFits i

theorem validate_eq_ok_iff (b : ModelWorkerBatch) :
    validateModelWorkerBatch b = .ok () ↔ b.Consistent := by
  unfold validateModelWorkerBatch
  constructor
  · intro h
    dsimp only at h
    split at h
    case h_1 => cases h
    case h_2 hfields =>
      split_ifs at h with hinput hseq
      split at h
      case h_1 => cases h
      case h_2 hranges =>
        simp only [List.find?_eq_none, List.mem_cons, List.not_mem_nil, or_false,
          forall_eq_or_imp, forall_eq, ne_eq, decide_not, Bool.not_eq_true', decide_eq_false_iff_not,
          not_not] at hfields
        push Not at hinput
        obtain ⟨h₁, h₂, h₃, h₄⟩ := hfields
        refine ⟨h₁, h₂, h₃, h₄, hinput.1, hinput.2, not_not.mp hseq, fun i hi => ?_⟩
        simpa using List.find?_eq_none.mp hranges i (List.mem_range.mpr hi)
  · intro h
    have hranges : (List.range b.requestIds.length).find? (fun i => !decide (b.RangeFits i)) =
        none := by
      rw [List.find?_eq_none]
      intro i hi
      simpa using h.ranges i (List.mem_range.mp hi)
    simp [h.requestOffsets, h.inputTokenCounts, h.sequenceOffsets, h.sequenceTokenCounts,
      ← h.positions, ← h.outCachePages, h.sequence, hranges]

/-- A request that adds `n` tokens to forward and a sequence of `e` tokens. -/
theorem Consistent.push {b b' : ModelWorkerBatch} (h : b.Consistent) {n e : ℕ} {id : RequestId}
    (hid : b'.requestIds = b.requestIds ++ [id])
    (hoffsets : b'.requestOffsets = b.requestOffsets ++ [b.inputIds.length])
    (hcounts : b'.inputTokenCounts = b.inputTokenCounts ++ [n])
    (hseqOffsets : b'.sequenceOffsets = b.sequenceOffsets ++ [b.sequenceTokenIds.length])
    (hseqCounts : b'.sequenceTokenCounts = b.sequenceTokenCounts ++ [e])
    (hinput : b'.inputIds.length = b.inputIds.length + n)
    (hpositions : b'.positions.length = b.positions.length + n)
    (hout : b'.outCachePages.length = b.outCachePages.length + n)
    (htokens : b'.sequenceTokenIds.length = b.sequenceTokenIds.length + e)
    (hpages : b'.sequenceCachePages.length = b.sequenceCachePages.length + e) :
    b'.Consistent := by
  refine ⟨by simp [hid, hoffsets, h.requestOffsets], by simp [hid, hcounts, h.inputTokenCounts],
    by simp [hid, hseqOffsets, h.sequenceOffsets], by simp [hid, hseqCounts, h.sequenceTokenCounts],
    by rw [hinput, hpositions, h.positions], by rw [hinput, hout, h.outCachePages],
    by rw [htokens, hpages, h.sequence], fun i hi => ?_⟩
  unfold RangeFits
  rw [hoffsets, hcounts, hseqOffsets, hseqCounts, hinput, hpages]
  rw [hid, List.length_append, List.length_singleton] at hi
  by_cases hlast : i < b.requestIds.length
  · obtain ⟨hrange, hseqRange⟩ := h.ranges i hlast
    rw [List.getD_append _ _ _ _ (by rw [h.requestOffsets]; exact hlast),
      List.getD_append _ _ _ _ (by rw [h.inputTokenCounts]; exact hlast),
      List.getD_append _ _ _ _ (by rw [h.sequenceOffsets]; exact hlast),
      List.getD_append _ _ _ _ (by rw [h.sequenceTokenCounts]; exact hlast)]
    omega
  · obtain rfl : i = b.requestIds.length := by omega
    rw [List.getD_append_right _ _ _ _ h.requestOffsets.le,
      List.getD_append_right _ _ _ _ h.inputTokenCounts.le,
      List.getD_append_right _ _ _ _ h.sequenceOffsets.le,
      List.getD_append_right _ _ _ _ h.sequenceTokenCounts.le]
    simp [h.requestOffsets, h.inputTokenCounts, h.sequenceOffsets, h.sequenceTokenCounts,
      h.sequence]

end ModelWorkerBatch

namespace ScheduledRequest

/-- The slots of a prompt chunk are as many as its tokens, and the sequence has a slot for every
token up to the end of the chunk. -/
structure FitsPrefill (r : ScheduledRequest) : Prop where
  forward : r.forwardCachePages.length = r.chunkEnd - r.chunkStart
  sequence : r.chunkEnd ≤ r.sequenceCachePages.length

/-- There is one slot for the next token, and the sequence has a slot for every token. -/
structure FitsDecode (r : ScheduledRequest) : Prop where
  forward : r.forwardCachePages.length = 1
  sequence : r.sequenceCachePages.length = r.inputIds.length + r.outputIds.length

theorem chunkEnd_le (r : ScheduledRequest) : r.chunkEnd ≤ r.inputIds.length := min_le_right _ _

end ScheduledRequest

namespace ModelWorkerBatch

variable {b : ModelWorkerBatch} {r : ScheduledRequest}

theorem Consistent.pushPrefillRequest (h : b.Consistent) (hr : r.FitsPrefill) :
    ((b.pushHeader r).pushPrefillRequest r).Consistent := by
  have hle := r.chunkEnd_le
  refine h.push (n := r.chunkEnd - r.chunkStart) (e := r.chunkEnd) rfl rfl rfl rfl rfl ?_ ?_ ?_ ?_ ?_
  · simp [ModelWorkerBatch.pushPrefillRequest, pushHeader, hle]
  · simp [ModelWorkerBatch.pushPrefillRequest, pushHeader]
  · simp [ModelWorkerBatch.pushPrefillRequest, pushHeader, hr.forward]
  · simp [ModelWorkerBatch.pushPrefillRequest, pushHeader, hle]
  · have hseq := hr.sequence
    simp only [ModelWorkerBatch.pushPrefillRequest, pushHeader, List.length_append]
    split_ifs with hempty
    · rw [List.isEmpty_iff.mp hempty] at hseq ⊢
      simp at hseq
      simp [hseq]
    · simp [hseq]

theorem Consistent.pushDecodeRequest (h : b.Consistent) (hr : r.FitsDecode) :
    ((b.pushHeader r).pushDecodeRequest r).Consistent := by
  refine h.push (n := 1) (e := r.inputIds.length + r.outputIds.length) rfl rfl rfl rfl rfl
    ?_ ?_ ?_ ?_ ?_
  · simp [ModelWorkerBatch.pushDecodeRequest, pushHeader]
  · simp [ModelWorkerBatch.pushDecodeRequest, pushHeader]
  · simp [ModelWorkerBatch.pushDecodeRequest, pushHeader, hr.forward]
  · simp [ModelWorkerBatch.pushDecodeRequest, pushHeader]
  · simp [ModelWorkerBatch.pushDecodeRequest, pushHeader, hr.sequence]

end ModelWorkerBatch

open ModelWorkerBatch in
/-- **A batch of requests that fit is accepted.** -/
theorem validate_fromScheduleBatch {batch : ScheduleBatch} (hstaged : batch.Staged)
    (hprefill : ∀ r ∈ batch.requests, r.stage = .prefillForward → r.FitsPrefill)
    (hdecode : ∀ r ∈ batch.requests, r.stage = .decodeForward → r.FitsDecode) :
    validateModelWorkerBatch (fromScheduleBatch batch) = .ok () := by
  rw [validate_eq_ok_iff]
  have hpush (b : ModelWorkerBatch) (hb : b.Consistent) (r : ScheduledRequest)
      (hr : r ∈ batch.requests) : (pushRequest batch.forwardMode b r).Consistent := by
    unfold pushRequest
    rcases hstaged r hr with ⟨hstage, hmode⟩ | ⟨hstage, hmode⟩
    · have hfits := hb.pushPrefillRequest (hprefill r hr hstage)
      cases hm : batch.forwardMode with
      | prefill => exact hfits
      | decode => exact absurd hm hmode
      | mixed =>
        rw [hstage]
        exact hfits
    · have hfits := hb.pushDecodeRequest (hdecode r hr hstage)
      cases hm : batch.forwardMode with
      | prefill => exact absurd hm hmode
      | decode => exact hfits
      | mixed =>
        rw [hstage]
        exact hfits
  unfold fromScheduleBatch
  refine List.foldlRecOn batch.requests _ ?_ hpush
  exact ⟨rfl, rfl, rfl, rfl, rfl, rfl, rfl, by simp⟩

end SglangRs
