import SglangRs.Runner.GraphRunner

/-!
# What padding does to the requests of a batch

A padded descriptor carries no batch of the scheduler, so the adapter makes up a request for every
row, from its identifier and its token. A made-up request has one prompt token, no generated token
and no slots. The model runner decodes a request from the last token it has generated; a made-up
request has none, and so the row the model is given has token 0 at position 0 of a sequence of
length 1, and no slots, whatever the request was. Padding is transparent if and only if every
request of the batch looks like this anyway.

## Main definitions

* `ModelWorkerBatch.rows`: what a model reads of each request.
* `RowLocal`: the outputs of a model for a row depend on the row only.
* `GraphModelRunner.modelBatch`: the batch the model is given.
* `ScheduledRequest.Bare`: a request that looks like a made-up one.

## Main results

* `rows_eq_bareRows_iff`: the rows of a decode batch are those of made-up requests exactly if every
  request is bare.
* `padding_transparent_iff`: when padding is transparent to the requests of a batch.
-/

namespace SglangRs

/-! ### Rows -/

/-- What a model reads of one request of a batch: its tokens, positions and slots to be written, and
the length and the slots of its sequence. -/
structure WorkerRow where
  requestId : RequestId
  inputIds : List UInt32
  positions : List ℕ
  sequenceLength : ℕ
  outCachePages : List ℕ
  sequenceCachePages : List ℕ
deriving DecidableEq

namespace ModelWorkerBatch

/-- A range of one of the arrays. -/
def range {α : Type} (array : List α) (offset count : ℕ) : List α :=
  (array.drop offset).take count

/-- The ranges of request number `i`. -/
def row (b : ModelWorkerBatch) (i : ℕ) (requestId : RequestId) : WorkerRow where
  requestId := requestId
  inputIds := range b.inputIds (b.requestOffsets.getD i 0) (b.inputTokenCounts.getD i 0)
  positions := range b.positions (b.requestOffsets.getD i 0) (b.inputTokenCounts.getD i 0)
  sequenceLength := b.sequenceLengths.getD i 0
  outCachePages := range b.outCachePages (b.requestOffsets.getD i 0) (b.inputTokenCounts.getD i 0)
  sequenceCachePages :=
    range b.sequenceCachePages (b.sequenceOffsets.getD i 0) (b.sequenceTokenCounts.getD i 0)

def rows (b : ModelWorkerBatch) : List WorkerRow := b.requestIds.mapIdx b.row

end ModelWorkerBatch

namespace ScheduledRequest

/-- A request that looks like one made up for a row: one token, decoded from token 0, without
slots. -/
structure Bare (r : ScheduledRequest) : Prop where
  token_eq : r.outputIds.getLast?.getD 0 = 0
  length_eq : r.inputIds.length + r.outputIds.length = 1
  forward_eq : r.forwardCachePages = []
  sequence_eq : r.sequenceCachePages = []

end ScheduledRequest

/-- The row of a request made up for the padded batch. -/
def bareRow (requestId : RequestId) : WorkerRow := ⟨requestId, [0], [0], 1, [], []⟩

theorem bare_new (id : RequestId) (token : UInt32) (sampling : SamplingParams) :
    (ScheduledRequest.new id [token] sampling).Bare := ⟨rfl, rfl, rfl, rfl⟩

/-! ### The rows of a decode batch -/

section DecodeBatch

open ModelWorkerBatch (range rows row fromScheduleBatch pushRequest)

variable (requests : List ScheduledRequest)

/-- The arrays to which a decoded request appends one entry or its slots. -/
theorem arrays_fromScheduleBatch_decode :
    (fromScheduleBatch (.decode requests)).requestIds = requests.map (·.requestId) ∧
      (fromScheduleBatch (.decode requests)).inputIds =
        requests.map (·.outputIds.getLast?.getD 0) ∧
      (fromScheduleBatch (.decode requests)).positions =
        requests.map (·.decodePosition) ∧
      (fromScheduleBatch (.decode requests)).sequenceLengths =
        requests.map (fun r => r.inputIds.length + r.outputIds.length) ∧
      (fromScheduleBatch (.decode requests)).inputTokenCounts = requests.map (fun _ => 1) ∧
      (fromScheduleBatch (.decode requests)).sequenceTokenCounts =
        requests.map (fun r => r.inputIds.length + r.outputIds.length) ∧
      (fromScheduleBatch (.decode requests)).outCachePages =
        requests.flatMap (·.forwardCachePages) ∧
      (fromScheduleBatch (.decode requests)).sequenceCachePages =
        requests.flatMap (·.sequenceCachePages) := by
  simp only [List.map_eq_flatMap]
  refine ⟨?_, ?_, ?_, ?_, ?_, ?_, ?_, ?_⟩
  all_goals exact foldl_eq_append_flatMap (fun _ _ _ => rfl) _

/-- A decoded request adds one token. -/
theorem requestOffsets_foldl_decode (b : ModelWorkerBatch) :
    (requests.foldl (pushRequest .decode) b).requestOffsets =
      b.requestOffsets ++ (List.range requests.length).map (b.inputIds.length + ·) := by
  induction requests generalizing b with
  | nil => simp
  | cons r requests ih =>
    have hlength : (pushRequest .decode b r).inputIds.length = b.inputIds.length + 1 :=
      List.length_append
    have hoffsets : (pushRequest .decode b r).requestOffsets =
        b.requestOffsets ++ [b.inputIds.length] := rfl
    rw [List.foldl_cons, ih, hlength, hoffsets, List.length_cons, List.range_succ_eq_map]
    simp [Function.comp_def, Nat.add_assoc, Nat.add_comm 1]

/-- The sequence of the first request comes first. -/
theorem sequenceOffsets_zero :
    (fromScheduleBatch (.decode requests)).sequenceOffsets.getD 0 0 = 0 := by
  have hprefix (l : List ScheduledRequest) (b : ModelWorkerBatch) :
      b.sequenceOffsets <+: (l.foldl (pushRequest .decode) b).sequenceOffsets := by
    induction l generalizing b with
    | nil => exact List.prefix_rfl
    | cons r l ih =>
      exact (List.prefix_append b.sequenceOffsets [b.sequenceTokenIds.length]).trans
        (ih (pushRequest .decode b r))
  cases requests with
  | nil => rfl
  | cons r requests =>
    obtain ⟨rest, hrest⟩ := hprefix requests (pushRequest .decode { forwardMode := .decode } r)
    change ((requests.foldl (pushRequest .decode)
      (pushRequest .decode { forwardMode := .decode } r)).sequenceOffsets).getD 0 0 = 0
    rw [← hrest]
    rfl

/-- The row of a decoded request. -/
theorem getElem?_rows_decode (i : ℕ) :
    (fromScheduleBatch (.decode requests)).rows[i]? = requests[i]?.map fun r =>
      { requestId := r.requestId
        inputIds := [r.outputIds.getLast?.getD 0]
        positions := [r.decodePosition]
        sequenceLength := r.inputIds.length + r.outputIds.length
        outCachePages := range (requests.flatMap (·.forwardCachePages)) i 1
        sequenceCachePages := range (requests.flatMap (·.sequenceCachePages))
          ((fromScheduleBatch (.decode requests)).sequenceOffsets.getD i 0)
          (r.inputIds.length + r.outputIds.length) } := by
  obtain ⟨hids, hinput, hpositions, hlengths, hcounts, hseqCounts, hout, hseq⟩ :=
    arrays_fromScheduleBatch_decode requests
  have hoffsets : (fromScheduleBatch (.decode requests)).requestOffsets =
      List.range requests.length :=
    (requestOffsets_foldl_decode requests { forwardMode := .decode }).trans (by simp)
  rw [rows, List.getElem?_mapIdx, hids, List.getElem?_map]
  cases hr : requests[i]? with
  | none => rfl
  | some r =>
    have hi : i < requests.length := (List.getElem?_eq_some_iff.mp hr).1
    have hone {α : Type} (f : ScheduledRequest → α) : range (requests.map f) i 1 = [f r] := by
      have hdrop : (requests.map f).drop i = f r :: (requests.map f).drop (i + 1) :=
        List.drop_eq_getElem?_toList_append.trans (by simp [hr])
      rw [range, hdrop]
      rfl
    have hoffset : (List.range requests.length).getD i 0 = i := by
      simp [List.getD_eq_getElem?_getD, hi]
    simp only [Option.map_some, row, hinput, hpositions, hlengths, hcounts, hseqCounts, hout, hseq,
      hoffsets, hoffset, List.getD_eq_getElem?_getD, List.getElem?_map, hr, Option.getD_some, hone]

/-- **The rows of a decode batch are those of made-up requests exactly if every request is bare.**
The slots of the whole batch come first in the range of the first request, so if its range is empty
no request has slots. -/
theorem rows_eq_bareRows_iff :
    (fromScheduleBatch (.decode requests)).rows = requests.map (fun r => bareRow r.requestId) ↔
      ∀ r ∈ requests, r.Bare := by
  constructor
  · intro h
    have hrow (i : ℕ) := congrArg (·[i]?) h
    simp only [getElem?_rows_decode, List.getElem?_map] at hrow
    have hfields (i : ℕ) (r : ScheduledRequest) (hr : requests[i]? = some r) :
        r.outputIds.getLast?.getD 0 = 0 ∧ r.inputIds.length + r.outputIds.length = 1 ∧
          range (requests.flatMap (·.forwardCachePages)) i 1 = [] ∧
          range (requests.flatMap (·.sequenceCachePages))
            ((fromScheduleBatch (.decode requests)).sequenceOffsets.getD i 0)
            (r.inputIds.length + r.outputIds.length) = [] := by
      have heq := hrow i
      rw [hr] at heq
      simp only [Option.map_some, Option.some.injEq, bareRow, WorkerRow.mk.injEq] at heq
      obtain ⟨-, htoken, -, hlength, hout, hseq⟩ := heq
      exact ⟨by simpa using htoken, hlength, hout, hseq⟩
    intro r hr
    obtain ⟨i, hi⟩ := List.mem_iff_getElem?.mp hr
    obtain ⟨first, hfirst⟩ : ∃ first, requests[0]? = some first := by
      have hpos := List.length_pos_of_mem hr
      exact ⟨requests[0], List.getElem?_eq_getElem hpos⟩
    obtain ⟨-, hlength, hout, hseq⟩ := hfields 0 first hfirst
    rw [sequenceOffsets_zero, hlength] at hseq
    have hnil {flat : List ℕ} (h : range flat 0 1 = []) : flat = [] := by
      simpa [range] using h
    obtain ⟨htoken, hone, -, -⟩ := hfields i r hi
    exact ⟨htoken, hone, List.flatMap_eq_nil_iff.mp (hnil hout) r hr,
      List.flatMap_eq_nil_iff.mp (hnil hseq) r hr⟩
  · intro hbare
    have hout : requests.flatMap (·.forwardCachePages) = [] :=
      List.flatMap_eq_nil_iff.mpr fun r hr => (hbare r hr).forward_eq
    have hseq : requests.flatMap (·.sequenceCachePages) = [] :=
      List.flatMap_eq_nil_iff.mpr fun r hr => (hbare r hr).sequence_eq
    refine List.ext_getElem? fun i => ?_
    rw [getElem?_rows_decode, List.getElem?_map, hout, hseq]
    cases hr : requests[i]? with
    | none => rfl
    | some r =>
      have hr' := hbare r (List.mem_of_getElem? hr)
      have hposition : r.decodePosition = 0 := by
        rw [ScheduledRequest.decodePosition_eq (by rw [hr'.length_eq]; exact one_pos),
          hr'.length_eq]
      simp only [Option.map_some, hr'.token_eq, hr'.length_eq, hposition, range, List.drop_nil,
        List.take_nil, bareRow]

end DecodeBatch

theorem length_rows_fromScheduleBatch {batch : ScheduleBatch}
    (hmode : batch.forwardMode = .decode) :
    (ModelWorkerBatch.fromScheduleBatch batch).rows.length = batch.requests.length := by
  obtain ⟨mode, requests⟩ := batch
  obtain rfl : mode = .decode := hmode
  rw [ModelWorkerBatch.rows, List.length_mapIdx]
  exact (congrArg _ (arrays_fromScheduleBatch_decode requests).1).trans (List.length_map _)

/-! ### The batch the model is given -/

/-- A model answers with one row of logits for each row of the batch, which depends on that row
only. -/
def RowLocal (M : Type) {L : Type} [ForwardModel M L] : Prop :=
  ∃ f : M → WorkerRow → List L, ∀ model b, ∃ model' output,
    ForwardModel.forward model b = (model', .ok output) ∧ output.logits = b.rows.map (f model)

/-- A table with which a batch of `n` requests is not padded. -/
def BatchBucketTable.Unpadded (t : BatchBucketTable) (n : ℕ) : Prop :=
  n ∈ t.buckets ∨ ∀ bucket ∈ t.buckets, bucket < n

section ModelBatch

variable {M S L : Type}

namespace GraphModelRunner

/-- The descriptor the model is run on. -/
def modelDescriptor (g : GraphModelRunner M S) (batch : ScheduleBatch) :
    Except GraphRunnerError ModelInputDescriptor :=
  match ModelInputDescriptor.fromScheduleBatch batch g.pageSize with
  | .error error => .error error
  | .ok d =>
      match g.selectedBucket batch with
      | some bucketSize => g.graphDescriptor bucketSize d
      | none => .ok d

/-- The batch the model under the adapter is given. -/
def modelBatch (g : GraphModelRunner (GraphModelAdapter M) S) (batch : ScheduleBatch) :
    Except GraphRunnerError ModelWorkerBatch :=
  (g.modelDescriptor batch).map (·.workerBatch)

variable {g : GraphModelRunner (GraphModelAdapter M) S} {batch : ScheduleBatch}

theorem fromScheduleBatch_eq_ok (hne : batch.requests ≠ []) (hpage : g.pageSize ≠ 0) :
    ModelInputDescriptor.fromScheduleBatch batch g.pageSize =
      .ok (ModelInputDescriptor.describe batch g.pageSize) := by
  unfold ModelInputDescriptor.fromScheduleBatch
  rw [if_neg (by simpa using hne), if_neg hpage]

/-- Without padding the model is given the batch of the scheduler. -/
theorem modelBatch_of_unpadded (hne : batch.requests ≠ []) (hpage : g.pageSize ≠ 0)
    (h : g.selectedBucket batch = some batch.requests.length ∨ g.selectedBucket batch = none) :
    g.modelBatch batch = .ok (ModelWorkerBatch.fromScheduleBatch batch) := by
  have hdescriptor : g.modelDescriptor batch =
      .ok (ModelInputDescriptor.describe batch g.pageSize) := by
    unfold modelDescriptor
    rw [fromScheduleBatch_eq_ok hne hpage]
    rcases h with h | h
    · simp [h, graphDescriptor]
    · simp [h]
  rw [modelBatch, hdescriptor]
  simp [Except.map, ModelInputDescriptor.workerBatch]

/-- With padding the model is given made-up requests; those of the batch come first. -/
theorem modelBatch_of_padded (hmode : batch.forwardMode = .decode) (hne : batch.requests ≠ [])
    (hpage : g.pageSize ≠ 0) {bucket : ℕ} (hbucket : g.selectedBucket batch = some bucket)
    (hlt : batch.requests.length < bucket) :
    ∃ b, g.modelBatch batch = .ok b ∧
      b.rows.take batch.requests.length = batch.requests.map (fun r => bareRow r.requestId) := by
  set d := ModelInputDescriptor.describe batch g.pageSize with hd
  have hsize : d.batchSize = batch.requests.length := ModelInputDescriptor.batchSize_describe _ _
  obtain ⟨padded, hpad, hworker, hids, htokens⟩ : ∃ padded, g.modelDescriptor batch = .ok padded ∧
      padded.workerBatch =
        ModelWorkerBatch.fromScheduleBatch (.decode padded.madeUpRequests) ∧
      (∃ ids, padded.requestIds = batch.requests.map (·.requestId) ++ ids) ∧
      ∃ tokens, padded.inputIds = batch.requests.map (·.lastTokenId) ++ tokens := by
    unfold modelDescriptor
    rw [fromScheduleBatch_eq_ok hne hpage, hbucket, ← hd]
    dsimp only
    rw [graphDescriptor, if_pos (by rwa [hsize]), ModelInputDescriptor.padToBucket,
      if_neg (by omega), if_neg (by omega)]
    refine ⟨_, rfl, ?_, ⟨_, by rw [hd, ModelInputDescriptor.requestIds_describe]⟩,
      ⟨_, by rw [hd, (ModelInputDescriptor.rows_describe_of_decode _ hmode).1]⟩⟩
    simp [ModelInputDescriptor.workerBatch, hd, hmode]
  obtain ⟨ids, hids⟩ := hids
  obtain ⟨tokens, htokens⟩ := htokens
  have hbare : ∀ r ∈ padded.madeUpRequests, r.Bare := by
    intro r hr
    rw [ModelInputDescriptor.madeUpRequests, ← List.map_uncurry_zip_eq_zipWith] at hr
    obtain ⟨pair, -, rfl⟩ := List.mem_map.mp hr
    exact bare_new _ _ _
  have hb : g.modelBatch batch = .ok padded.workerBatch := by
    rw [modelBatch, hpad]
    rfl
  refine ⟨_, hb, ?_⟩
  rw [hworker, (rows_eq_bareRows_iff _).mpr hbare, ← List.map_take,
    ModelInputDescriptor.madeUpRequests, List.take_zipWith, hids, htokens,
    List.take_left' (by simp), List.take_left' (by simp), List.zipWith_map, List.zipWith_self,
    List.map_map]
  simp [Function.comp_def, ScheduledRequest.new]

theorem selectedBucket_of_unpadded (hmode : batch.forwardMode = .decode)
    (h : g.bucketTable.Unpadded batch.requests.length) :
    g.selectedBucket batch = some batch.requests.length ∨ g.selectedBucket batch = none := by
  rw [selectedBucket, if_pos hmode]
  exact h.imp BatchBucketTable.selectBucket_eq_self_iff.mpr
    BatchBucketTable.selectBucket_eq_none_iff.mpr

variable [ForwardModel M L] [LogitSamplerLike S L]

/-- The tokens generated with a model whose outputs are local to the rows depend only on the first
rows of the batch the model is given, one for each request. -/
theorem tryGenerateBatch_of_rows (hmode : batch.forwardMode = .decode) (hne : batch.requests ≠ [])
    (hpage : g.pageSize ≠ 0) {f : M → WorkerRow → List L}
    (hf : ∀ model b, ∃ model' output,
      ForwardModel.forward model b = (model', .ok output) ∧ output.logits = b.rows.map (f model))
    {b : ModelWorkerBatch} (hb : g.modelBatch batch = .ok b)
    (hlength : batch.requests.length ≤ b.rows.length) :
    ∃ output : ModelForwardOutput L,
      output.logits = (b.rows.take batch.requests.length).map (f g.model.inner) ∧
      (g.tryGenerateBatch batch).2 = (g.sampleTokens batch output).2 := by
  have hok := fromScheduleBatch_eq_ok hne hpage
  obtain ⟨model', output, hforward, hlogits⟩ := hf g.model.inner b
  unfold tryGenerateBatch
  rw [if_neg (by simpa using hne), hok]
  dsimp only
  unfold forward
  cases hbucket : g.selectedBucket batch with
  | none =>
    have hdescribe : ModelInputDescriptor.workerBatch
        (ModelInputDescriptor.describe batch g.pageSize) = b := by
      rw [modelBatch, modelDescriptor, hok, hbucket] at hb
      exact Except.ok.inj hb
    have hfull : b.rows.take batch.requests.length = b.rows := by
      refine List.take_of_length_le ?_
      obtain rfl := Except.ok.inj (hb.symm.trans (modelBatch_of_unpadded hne hpage (.inr hbucket)))
      exact (length_rows_fromScheduleBatch hmode).le
    refine ⟨output, by rw [hfull, hlogits], ?_⟩
    simp only [GraphForwardModel.forwardEager, hdescribe, hforward]
  | some bucket =>
    rw [modelBatch, modelDescriptor, hok, hbucket] at hb
    dsimp only at hb ⊢
    cases hpad : g.graphDescriptor bucket (ModelInputDescriptor.describe batch g.pageSize) with
    | error error =>
      rw [hpad] at hb
      cases hb
    | ok padded =>
      rw [hpad] at hb
      obtain rfl := Except.ok.inj hb
      have htruncate := output.truncateToBatchSize_eq_ok (n := batch.requests.length)
        (by rwa [hlogits, List.length_map])
      refine ⟨⟨output.logits.take batch.requests.length,
          ModelForwardOutput.validateLogits_take output.valid _⟩,
        (congrArg _ hlogits).trans List.map_take.symm, ?_⟩
      simp only [GraphForwardModel.forwardGraph, hforward, htruncate]

/-- Equal rows give equal tokens. -/
theorem tryGenerateBatch_eq_of_rows (hmode : batch.forwardMode = .decode)
    (hne : batch.requests ≠ []) (hpage : g.pageSize ≠ 0) {b : ModelWorkerBatch}
    (hb : g.modelBatch batch = .ok b)
    (hrows : b.rows.take batch.requests.length = (ModelWorkerBatch.fromScheduleBatch batch).rows)
    (hlocal : RowLocal M) {t : BatchBucketTable} (ht : t.Unpadded batch.requests.length) :
    (g.tryGenerateBatch batch).2 = ({ g with bucketTable := t }.tryGenerateBatch batch).2 := by
  obtain ⟨f, hf⟩ := hlocal
  have hlength := length_rows_fromScheduleBatch hmode
  have hle : batch.requests.length ≤ b.rows.length := by
    rw [← hrows, List.length_take] at hlength
    omega
  have hunpadded := modelBatch_of_unpadded (g := { g with bucketTable := t }) hne hpage
    (selectedBucket_of_unpadded hmode ht)
  obtain ⟨output, hlogits, hresult⟩ := tryGenerateBatch_of_rows hmode hne hpage hf hb hle
  obtain ⟨output', hlogits', hresult'⟩ := tryGenerateBatch_of_rows
    (g := { g with bucketTable := t }) hmode hne hpage hf hunpadded hlength.ge
  obtain rfl : output = output' := by
    refine ModelForwardOutput.ext ?_
    rw [hlogits, hlogits', hrows, List.take_of_length_le hlength.le]
  exact hresult.trans hresult'.symm

/-- **Padding is transparent exactly if every request is bare.** For a decode batch that fits a
bucket, the model under the adapter is given a batch whose first rows are those of the batch it is
given without padding, and a model whose outputs are local to the rows generates the same tokens as
with any table that does not pad the batch, if and only if the size of the batch is a bucket or
every request looks like a made-up one. -/
theorem padding_transparent_iff (hmode : batch.forwardMode = .decode) (hne : batch.requests ≠ [])
    (hpage : g.pageSize ≠ 0)
    (hbucket : ∃ bucket ∈ g.bucketTable.buckets, batch.requests.length ≤ bucket) :
    (∃ b, g.modelBatch batch = .ok b ∧
      b.rows.take batch.requests.length = (ModelWorkerBatch.fromScheduleBatch batch).rows ∧
      (RowLocal M → ∀ t : BatchBucketTable, t.Unpadded batch.requests.length →
        (g.tryGenerateBatch batch).2 = ({ g with bucketTable := t }.tryGenerateBatch batch).2)) ↔
      batch.requests.length ∈ g.bucketTable.buckets ∨ ∀ r ∈ batch.requests, r.Bare := by
  have hsame {b : ModelWorkerBatch} (hb : g.modelBatch batch = .ok b)
      (hrows : b.rows.take batch.requests.length =
        (ModelWorkerBatch.fromScheduleBatch batch).rows) : RowLocal M →
      ∀ t : BatchBucketTable, t.Unpadded batch.requests.length →
        (g.tryGenerateBatch batch).2 = ({ g with bucketTable := t }.tryGenerateBatch batch).2 :=
    fun hlocal t ht => tryGenerateBatch_eq_of_rows hmode hne hpage hb hrows hlocal ht
  by_cases hexact : batch.requests.length ∈ g.bucketTable.buckets
  · have hb := modelBatch_of_unpadded hne hpage (selectedBucket_of_unpadded hmode (.inl hexact))
    have hrows := List.take_of_length_le (length_rows_fromScheduleBatch hmode).le
    exact ⟨fun _ => .inl hexact, fun _ => ⟨_, hb, hrows, hsame hb hrows⟩⟩
  · obtain ⟨bucket, hselect, hlt⟩ : ∃ bucket, g.selectedBucket batch = some bucket ∧
        batch.requests.length < bucket := by
      rw [selectedBucket, if_pos hmode]
      cases hselect : g.bucketTable.selectBucket batch.requests.length with
      | none =>
        obtain ⟨bucket, hmem, hle⟩ := hbucket
        exact absurd hle (not_le.mpr (BatchBucketTable.selectBucket_eq_none_iff.mp hselect _ hmem))
      | some bucket =>
        obtain ⟨hmem, hle, -⟩ := BatchBucketTable.selectBucket_eq_some_iff.mp hselect
        exact ⟨bucket, rfl, lt_of_le_of_ne hle fun heq => hexact (heq ▸ hmem)⟩
    obtain ⟨b, hb, hbare⟩ := modelBatch_of_padded hmode hne hpage hselect hlt
    have hiff : b.rows.take batch.requests.length =
        (ModelWorkerBatch.fromScheduleBatch batch).rows ↔ ∀ r ∈ batch.requests, r.Bare := by
      obtain ⟨mode, requests⟩ := batch
      obtain rfl : mode = .decode := hmode
      rw [hbare, eq_comm]
      exact rows_eq_bareRows_iff requests
    constructor
    · rintro ⟨b', hb', hrows, -⟩
      obtain rfl := Except.ok.inj (hb.symm.trans hb')
      exact .inr (hiff.mp hrows)
    · rintro (hmem | hall)
      · exact absurd hmem hexact
      · exact ⟨b, hb, hiff.mpr hall, hsame hb (hiff.mpr hall)⟩

end GraphModelRunner

end ModelBatch

/-! ### A model that repeats its input -/

/-- A model whose one logit for a row is the token it reads. -/
structure EchoModel where

/-- The logits of the echo model are valid. -/
theorem validateLogits_echo (rows : List WorkerRow) :
    validateLogits (rows.map fun row => [row.inputIds.headD 0]) = .ok () :=
  ModelForwardOutput.validateLogits_eq_ok_iff.mpr ⟨1, one_pos, by simp⟩

instance : ForwardModel EchoModel UInt32 where
  forward model b := (model, .ok ⟨_, validateLogits_echo b.rows⟩)

/-- A sampler that takes the logit for the token. -/
structure EchoSampler where

instance : LogitSamplerLike EchoSampler UInt32 where
  sample sampler output _ := (sampler, .ok (output.logits.map fun row => row.headD 0))

/-- The graph runner with an echo model and one bucket. -/
def echoRunner (bucket : ℕ) (h : (0 :: [bucket]).IsChain (· < ·)) :
    GraphModelRunner (GraphModelAdapter EchoModel) EchoSampler where
  model := ⟨⟨⟩⟩
  sampler := ⟨⟩
  bucketTable := ⟨[bucket], by simp, h⟩
  pageSize := 1
  stops _ _ := false

/-- A request with prompt 5 that has generated 7, prepared for its next token. -/
def decodingRequest : ScheduledRequest :=
  { ScheduledRequest.new ⟨"a"⟩ [5] ⟨3⟩ with
    outputIds := [7]
    allocatedCachePages := [1]
    forwardCachePages := [1]
    sequenceCachePages := [0, 1]
    stage := .decodeForward }

/-- A request whose prompt is the token 0 that was put on the decode queue before anything was
generated. -/
def bareRequest : ScheduledRequest :=
  { ScheduledRequest.new ⟨"a"⟩ [0] ⟨3⟩ with stage := .decodeForward }

/-- Padded from one row to two, the request is decoded from token 0 at position 0, and another token
is generated than without padding. -/
theorem padding_changes_tokens :
    (∃ b, (echoRunner 2 (by decide)).modelBatch (.decode [decodingRequest]) = .ok b ∧
      b.rows.take 1 = [⟨⟨"a"⟩, [0], [0], 1, [], []⟩] ∧
      (ModelWorkerBatch.fromScheduleBatch (.decode [decodingRequest])).rows =
        [⟨⟨"a"⟩, [7], [1], 2, [1], [0, 1]⟩]) ∧
    ((echoRunner 2 (by decide)).tryGenerateBatch (.decode [decodingRequest])).2 =
      .ok ⟨[⟨[0], false⟩]⟩ ∧
    ((echoRunner 1 (by decide)).tryGenerateBatch (.decode [decodingRequest])).2 =
      .ok ⟨[⟨[7], false⟩]⟩ :=
  ⟨⟨_, rfl, rfl, rfl⟩, rfl, rfl⟩

/-- The theorem applied to a batch that is padded and one that is not. -/
theorem padding_transparent_of_bare :
    ((echoRunner 2 (by decide)).tryGenerateBatch (.decode [bareRequest])).2 =
      ((echoRunner 1 (by decide)).tryGenerateBatch (.decode [bareRequest])).2 := by
  have hlocal : RowLocal EchoModel :=
    ⟨fun _ row => [row.inputIds.headD 0], fun _ _ => ⟨_, _, rfl, rfl⟩⟩
  have hmode : (ScheduleBatch.decode [bareRequest]).forwardMode = .decode := rfl
  have hbare : ∀ r ∈ (ScheduleBatch.decode [bareRequest]).requests, r.Bare := by
    intro r hr
    rw [List.mem_singleton.mp hr]
    exact ⟨rfl, rfl, rfl, rfl⟩
  obtain ⟨b, -, -, hsame⟩ := (GraphModelRunner.padding_transparent_iff
    (g := echoRunner 2 (by decide)) hmode (by decide) (by decide)
    ⟨2, by decide, by decide⟩).mpr (.inr hbare)
  exact hsame hlocal (echoRunner 1 (by decide)).bucketTable (.inl (by decide))

end SglangRs
