import SglangRs.Runner.Padding

/-!
# The rows of a batch

The arrays of a flattened batch are divided into ranges, one for each request. If the slots of the
requests fit, the ranges of a request are its own tokens, positions and slots: the tokens to be
forwarded are those of its sequence from some position on, each with its position and with one of
the slots to be written.

## Main definitions

* `ScheduledRequest.tokenAt`: the tokens of a request, prompt and outputs.
* `ScheduledRequest.forwardStart`, `ScheduledRequest.forwardEnd`: the positions to be forwarded.
* `ScheduledRequest.forwardRow`: what a model reads of a request.

## Main results

* `rows_fromScheduleBatch`: the rows of a batch are those of its requests.
-/

namespace SglangRs

namespace ScheduledRequest

variable (r : ScheduledRequest)

/-- The token at a position of the prompt and the outputs. -/
def tokenAt (i : ℕ) : UInt32 := (r.inputIds ++ r.outputIds).getD i 0

/-- The position of the first token to be forwarded. -/
def forwardStart : ℕ :=
  if r.stage = .decodeForward then r.inputIds.length + r.outputIds.length - 1 else r.chunkStart

/-- The position after the last token to be forwarded. -/
def forwardEnd : ℕ :=
  if r.stage = .decodeForward then r.inputIds.length + r.outputIds.length else r.chunkEnd

/-- The slots of the sequence up to the last token to be forwarded. -/
def forwardSequence : List ℕ :=
  if r.stage = .decodeForward then r.sequenceCachePages else r.sequenceCachePages.take r.chunkEnd

/-- What a model reads of a request. -/
def forwardRow : WorkerRow where
  requestId := r.requestId
  inputIds :=
    if r.stage = .decodeForward then [r.outputIds.getLast?.getD 0]
    else (r.inputIds.take r.chunkEnd).drop r.chunkStart
  positions :=
    if r.stage = .decodeForward then [r.decodePosition]
    else (List.range (r.chunkEnd - r.chunkStart)).map (r.chunkStart + ·)
  sequenceLength := r.forwardEnd
  outCachePages := r.forwardCachePages
  sequenceCachePages := r.forwardSequence

/-- The slots of a request fit, whether a prompt chunk or a generated token is forwarded. -/
structure Fits (r : ScheduledRequest) : Prop where
  prefill : r.stage = .prefillForward → r.FitsPrefill
  decode : r.stage = .decodeForward → r.FitsDecode

end ScheduledRequest

namespace ModelWorkerBatch

variable {b b' : ModelWorkerBatch}

/-- A range that was there before. -/
theorem range_append_of_le {α : Type} {array new : List α} {offset count : ℕ}
    (h : offset + count ≤ array.length) :
    range (array ++ new) offset count = range array offset count := by
  rw [range, range, List.drop_append_of_le_length (by omega), List.take_append_of_le_length]
  rw [List.length_drop]
  omega

/-- The range that was added. -/
theorem range_append_self {α : Type} {array new : List α} {offset count : ℕ}
    (hoffset : offset = array.length) (hcount : new.length = count) :
    range (array ++ new) offset count = new := by
  rw [range, hoffset, List.drop_left, ← hcount, List.take_length]

/-- A request adds a row. -/
theorem Consistent.rows_push (h : b.Consistent)
    (hlengths : b.sequenceLengths.length = b.requestIds.length) {new : WorkerRow} {n e : ℕ}
    (hid : b'.requestIds = b.requestIds ++ [new.requestId])
    (hoffsets : b'.requestOffsets = b.requestOffsets ++ [b.inputIds.length])
    (hcounts : b'.inputTokenCounts = b.inputTokenCounts ++ [n])
    (hseqOffsets : b'.sequenceOffsets = b.sequenceOffsets ++ [b.sequenceTokenIds.length])
    (hseqCounts : b'.sequenceTokenCounts = b.sequenceTokenCounts ++ [e])
    (hseqLengths : b'.sequenceLengths = b.sequenceLengths ++ [new.sequenceLength])
    (hinput : b'.inputIds = b.inputIds ++ new.inputIds)
    (hpositions : b'.positions = b.positions ++ new.positions)
    (hout : b'.outCachePages = b.outCachePages ++ new.outCachePages)
    (hpages : b'.sequenceCachePages = b.sequenceCachePages ++ new.sequenceCachePages)
    (hinputCount : new.inputIds.length = n) (hpositionCount : new.positions.length = n)
    (houtCount : new.outCachePages.length = n) (hpageCount : new.sequenceCachePages.length = e) :
    b'.rows = b.rows ++ [new] := by
  rw [rows, hid, List.mapIdx_append, List.mapIdx_singleton, Nat.zero_add, rows]
  congr 1
  · refine List.mapIdx_eq_mapIdx_iff.mpr fun i hi => ?_
    obtain ⟨hrange, hseqRange⟩ := h.ranges i hi
    have hfirst {array : List ℕ} {x : ℕ} (hlen : array.length = b.requestIds.length) :
        (array ++ [x]).getD i 0 = array.getD i 0 :=
      List.getD_append _ _ _ _ (hlen ▸ hi)
    rw [row, row, hoffsets, hcounts, hseqOffsets, hseqCounts, hseqLengths, hinput, hpositions,
      hout, hpages, hfirst h.requestOffsets, hfirst h.inputTokenCounts, hfirst h.sequenceOffsets,
      hfirst h.sequenceTokenCounts, hfirst hlengths, range_append_of_le hrange,
      range_append_of_le (h.positions ▸ hrange), range_append_of_le (h.outCachePages ▸ hrange),
      range_append_of_le hseqRange]
  · have hlast {array : List ℕ} {x : ℕ} (hlen : array.length = b.requestIds.length) :
        (array ++ [x]).getD b.requestIds.length 0 = x := by
      rw [List.getD_append_right _ _ _ _ hlen.le, hlen, Nat.sub_self]
      rfl
    rw [row, hoffsets, hcounts, hseqOffsets, hseqCounts, hseqLengths, hinput, hpositions, hout,
      hpages, hlast h.requestOffsets, hlast h.inputTokenCounts, hlast h.sequenceOffsets,
      hlast h.sequenceTokenCounts, hlast hlengths, range_append_self rfl hinputCount,
      range_append_self h.positions hpositionCount, range_append_self h.outCachePages houtCount,
      range_append_self h.sequence hpageCount]

variable {r : ScheduledRequest}

/-- A prompt chunk adds the row of its request. -/
theorem Consistent.rows_pushPrefillRequest (h : b.Consistent)
    (hlengths : b.sequenceLengths.length = b.requestIds.length) (hr : r.FitsPrefill)
    (hstage : r.stage ≠ .decodeForward) :
    ((b.pushHeader r).pushPrefillRequest r).rows = b.rows ++ [r.forwardRow] := by
  have hle := r.chunkEnd_le
  have hseq := hr.sequence
  have hpages : (if r.sequenceCachePages.isEmpty then r.sequenceCachePages
      else r.sequenceCachePages.take (min r.chunkEnd r.sequenceCachePages.length)) =
      r.sequenceCachePages.take r.chunkEnd := by
    rw [Nat.min_eq_left hseq]
    split_ifs with hempty
    · rw [List.isEmpty_iff.mp hempty, List.take_nil]
    · rfl
  refine h.rows_push hlengths (n := r.chunkEnd - r.chunkStart) (e := r.chunkEnd) rfl rfl rfl rfl rfl
    ?_ ?_ ?_ rfl ?_ ?_ ?_ hr.forward ?_
  all_goals
    simp only [ScheduledRequest.forwardRow, ScheduledRequest.forwardEnd,
      ScheduledRequest.forwardSequence, if_neg hstage]
  · rfl
  · rfl
  · rfl
  · exact congrArg _ hpages
  · rw [List.length_drop, List.length_take_of_le hle]
  · rw [List.length_map, List.length_range]
  · exact List.length_take_of_le hseq

/-- A generated token adds the row of its request. -/
theorem Consistent.rows_pushDecodeRequest (h : b.Consistent)
    (hlengths : b.sequenceLengths.length = b.requestIds.length) (hr : r.FitsDecode)
    (hstage : r.stage = .decodeForward) :
    ((b.pushHeader r).pushDecodeRequest r).rows = b.rows ++ [r.forwardRow] := by
  refine h.rows_push hlengths (n := 1) (e := r.inputIds.length + r.outputIds.length)
    rfl rfl rfl rfl rfl ?_ ?_ ?_ rfl ?_ ?_ ?_ hr.forward ?_
  all_goals
    simp only [ScheduledRequest.forwardRow, ScheduledRequest.forwardEnd,
      ScheduledRequest.forwardSequence, if_pos hstage]
  all_goals first | rfl | exact hr.sequence

end ModelWorkerBatch

open ModelWorkerBatch in
/-- **The rows of a batch are those of its requests**, if their slots fit. -/
theorem rows_fromScheduleBatch {batch : ScheduleBatch} (hstaged : batch.Staged)
    (hfits : ∀ r ∈ batch.requests, r.Fits) :
    (fromScheduleBatch batch).rows = batch.requests.map ScheduledRequest.forwardRow := by
  have hpush (b : ModelWorkerBatch) (hb : b.Consistent)
      (hlengths : b.sequenceLengths.length = b.requestIds.length) (r : ScheduledRequest)
      (hr : r ∈ batch.requests) :
      (pushRequest batch.forwardMode b r).Consistent ∧
        (pushRequest batch.forwardMode b r).sequenceLengths.length =
          (pushRequest batch.forwardMode b r).requestIds.length ∧
        (pushRequest batch.forwardMode b r).rows = b.rows ++ [r.forwardRow] := by
    obtain ⟨hstage, hmode⟩ | ⟨hstage, hmode⟩ := hstaged r hr
    · have hpush : pushRequest batch.forwardMode b r = (b.pushHeader r).pushPrefillRequest r := by
        unfold pushRequest
        cases hm : batch.forwardMode with
        | prefill => rfl
        | decode => exact absurd hm hmode
        | mixed => rw [hstage]
      have hr' := (hfits r hr).prefill hstage
      rw [hpush]
      refine ⟨hb.pushPrefillRequest hr', ?_,
        hb.rows_pushPrefillRequest hlengths hr' (by rw [hstage]; decide)⟩
      simp [pushPrefillRequest, pushHeader, hlengths]
    · have hpush : pushRequest batch.forwardMode b r = (b.pushHeader r).pushDecodeRequest r := by
        unfold pushRequest
        cases hm : batch.forwardMode with
        | prefill => exact absurd hm hmode
        | decode => rfl
        | mixed => rw [hstage]
      have hr' := (hfits r hr).decode hstage
      rw [hpush]
      refine ⟨hb.pushDecodeRequest hr', ?_, hb.rows_pushDecodeRequest hlengths hr' hstage⟩
      simp [pushDecodeRequest, pushHeader, hlengths]
  have hfold (requests : List ScheduledRequest) (hsub : ∀ r ∈ requests, r ∈ batch.requests)
      (b : ModelWorkerBatch) (hb : b.Consistent)
      (hlengths : b.sequenceLengths.length = b.requestIds.length) :
      (requests.foldl (pushRequest batch.forwardMode) b).rows =
        b.rows ++ requests.map ScheduledRequest.forwardRow := by
    induction requests generalizing b with
    | nil => simp
    | cons r requests ih =>
      obtain ⟨hr, hsub⟩ := List.forall_mem_cons.mp hsub
      obtain ⟨hb', hlengths', hrows⟩ := hpush b hb hlengths r hr
      rw [List.foldl_cons, ih hsub _ hb' hlengths', hrows, List.append_assoc]
      rfl
  refine hfold batch.requests (fun _ hr => hr) { forwardMode := batch.forwardMode } ?_ rfl
  exact ⟨rfl, rfl, rfl, rfl, rfl, rfl, rfl, by simp⟩

end SglangRs
