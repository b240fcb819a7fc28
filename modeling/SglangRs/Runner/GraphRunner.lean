import SglangRs.Runner.InputDescriptor

/-!
# The graph runner

The graph runner replays captured graphs on decode batches, one graph for each batch size in a table
of buckets; a batch whose size misses the buckets is padded to the next one, and the rows added are
cut off the output again. Other batches, and batches larger than the largest bucket, are run eagerly
(`graph_runner.rs`, lines 45–565). An ordinary model is run under the graph runner through an
adapter: from a descriptor that still carries the batch of the scheduler it builds the batch of the
model runner; a padded descriptor carries none, and the adapter makes up requests from the
identifiers and tokens of the rows.

Models and samplers are parameters, with their own states; the numbers a model computes are of an
arbitrary type.

## Main definitions

* `BatchBucketTable`: a strictly increasing table of positive bucket sizes.
* `ModelInputDescriptor.padToBucket`: the padding.
* `ModelForwardOutput`: logits, all rows of one positive length.
* `ForwardModel`, `GraphForwardModel`, `LogitSamplerLike`: the interfaces.
* `GraphModelAdapter`, `GraphModelRunner.tryGenerateBatch`: the adapter and the runner.

## Main results

* `BatchBucketTable.selectBucket_eq_some_iff`: the smallest bucket that fits is selected.
* `ModelForwardOutput.truncateToBatchSize_eq_ok`: cutting off rows does not fail.
-/

namespace SglangRs

/-! ### Errors -/

/-- Source: `model_executor.rs`, lines 394–426. -/
def ModelForwardError.display : ModelForwardError → String
  | .emptyVocabulary => "model forward output has empty vocabulary"
  | .raggedLogits => "model forward output logits are ragged"
  | .runtime message => message
  | .batchSizeMismatch requestCount outputCount =>
      s!"model forward output count ({outputCount}) must match request count ({requestCount})"
  | .tokenLogitCountMismatch tokenCount logitCount =>
      s!"model forward token logit count ({logitCount}) must match input token count ({tokenCount})"
  | .missingRequestTokenLogits requestIndex =>
      s!"model forward request {requestIndex} has no input token logits"
  | .invalidProbabilityDistribution requestIndex =>
      s!"model forward request {requestIndex} produced an invalid sampling distribution"

/-- Source: `graph_runner.rs`, lines 27–41. -/
def GraphRunnerError.display : GraphRunnerError → String
  | .emptyBuckets => "bucket table must not be empty"
  | .unsortedBuckets => "bucket sizes must be strictly increasing"
  | .zeroBucket => "bucket size must be non-zero"
  | .emptyBatch => "batch size must be positive"
  | .zeroPageSize => "KV cache page size must be positive"
  | .bucketPaddingOverflow requested bucket =>
      s!"requested batch size {requested} exceeds target bucket size {bucket}"
  | .modelForward error => s!"model forward error: {error.display}"

/-! ### Buckets -/

/-- The loop of `BatchBucketTable::new` over the buckets, `prev` the one before. -/
def checkBuckets : (prev : ℕ) → (buckets : List ℕ) → Except GraphRunnerError Unit
  | _, [] => .ok ()
  | prev, bucket :: buckets =>
      if bucket = 0 then .error .zeroBucket
      else if bucket ≤ prev then .error .unsortedBuckets
      else checkBuckets bucket buckets

theorem checkBuckets_eq_ok_iff {prev : ℕ} {buckets : List ℕ} :
    checkBuckets prev buckets = .ok () ↔ (prev :: buckets).IsChain (· < ·) := by
  induction buckets generalizing prev with
  | nil => simp [checkBuckets]
  | cons bucket buckets ih =>
    unfold checkBuckets
    split_ifs with hzero hle
    · simp [hzero]
    · simp [hle]
    · rw [ih, List.isChain_cons_cons]
      simp [not_le.mp hle]

/-- The sizes for which a graph is captured: at least one, positive and strictly increasing. -/
structure BatchBucketTable where
  buckets : List ℕ
  ne_nil : buckets ≠ []
  increasing : (0 :: buckets).IsChain (· < ·)
deriving DecidableEq

namespace BatchBucketTable

/-- Source: `graph_runner.rs`, lines 70–84. -/
def new (buckets : List ℕ) : Except GraphRunnerError BatchBucketTable :=
  if hnil : buckets = [] then .error .emptyBuckets
  else
    match hcheck : checkBuckets 0 buckets with
    | .error error => .error error
    | .ok () => .ok ⟨buckets, hnil, checkBuckets_eq_ok_iff.mp hcheck⟩

/-- Source: `graph_runner.rs`, lines 59–67. -/
instance : Inhabited BatchBucketTable :=
  ⟨[1, 2, 4, 8, 16, 24, 32, 48, 64, 80, 96, 112, 128, 160, 192, 224, 256], by simp, by decide⟩

variable (t : BatchBucketTable)

/-- Source: `graph_runner.rs`, lines 86–90. -/
def selectBucket (batchSize : ℕ) : Option ℕ := t.buckets.find? fun bucket => batchSize ≤ bucket

def maxBucket : ℕ := t.buckets.getLast?.getD 0

variable {t} {n bucket : ℕ}

theorem pairwise_buckets (t : BatchBucketTable) : t.buckets.Pairwise (· < ·) :=
  (List.pairwise_cons.mp (List.isChain_iff_pairwise.mp t.increasing)).2

/-- **The smallest bucket that fits is selected.** -/
theorem selectBucket_eq_some_iff : t.selectBucket n = some bucket ↔
    bucket ∈ t.buckets ∧ n ≤ bucket ∧ ∀ other ∈ t.buckets, n ≤ other → bucket ≤ other := by
  unfold selectBucket
  have hsorted := t.pairwise_buckets
  constructor
  · intro h
    obtain ⟨hle, front, back, heq, hfront⟩ := List.find?_eq_some_iff_append.mp h
    refine ⟨List.mem_of_find?_eq_some h, by simpa using hle, fun other hother hfits => ?_⟩
    rw [heq] at hother hsorted
    rcases List.mem_append.mp hother with hother | hother
    · exact absurd hfits (by simpa using hfront other hother)
    · rcases List.mem_cons.mp hother with rfl | hother
      · exact le_rfl
      · exact ((List.pairwise_cons.mp (List.pairwise_append.mp hsorted).2.1).1 other hother).le
  · rintro ⟨hmem, hle, hleast⟩
    obtain ⟨front, back, heq⟩ := List.mem_iff_append.mp hmem
    refine List.find?_eq_some_iff_append.mpr ⟨by simpa using hle, front, back, heq, ?_⟩
    intro other hother
    rw [heq] at hsorted hleast
    have hlt := (List.pairwise_append.mp hsorted).2.2 other hother bucket List.mem_cons_self
    have hfits : ¬n ≤ other := fun hfits =>
      absurd (hleast other (List.mem_append_left _ hother) hfits) (not_le.mpr hlt)
    simpa using hfits

theorem selectBucket_eq_none_iff :
    t.selectBucket n = none ↔ ∀ bucket ∈ t.buckets, bucket < n := by
  simp [selectBucket, List.find?_eq_none]

/-- A batch is replayed without padding exactly if its size is a bucket. -/
theorem selectBucket_eq_self_iff : t.selectBucket n = some n ↔ n ∈ t.buckets := by
  rw [selectBucket_eq_some_iff]
  exact ⟨fun h => h.1, fun h => ⟨h, le_rfl, fun _ _ hle => hle⟩⟩

end BatchBucketTable

/-! ### Padding -/

namespace ModelInputDescriptor

/-- The identifier of the row added as number `i`. -/
def padRequestId (i : ℕ) : RequestId := ⟨s!"__pad_{i}"⟩

/-- Source: `graph_runner.rs`, lines 256–291. -/
def padToBucket (d : ModelInputDescriptor) (bucketSize : ℕ) (padTokenId : UInt32) :
    Except GraphRunnerError ModelInputDescriptor :=
  if bucketSize < d.batchSize then .error (.bucketPaddingOverflow d.batchSize bucketSize)
  else if bucketSize = d.batchSize then .ok d
  else
    let padCount := bucketSize - d.batchSize
    let maxBlocks := (d.blockTables.head?.map List.length).getD 1
    .ok { d with
      batchSize := bucketSize
      scheduleBatch := none
      inputIds := d.inputIds ++ List.replicate padCount padTokenId
      positions := d.positions ++ List.replicate padCount 0
      contextLens := d.contextLens ++ List.replicate padCount 1
      slotMapping := d.slotMapping ++ List.replicate padCount 0
      blockTables := d.blockTables ++ List.replicate padCount (List.replicate maxBlocks 0)
      requestIds := d.requestIds ++ (List.range padCount).map padRequestId
      totalTokens := (d.inputIds ++ List.replicate padCount padTokenId).length }

end ModelInputDescriptor

/-! ### Logits -/

/-- Source: `model_executor.rs`, lines 430–443. -/
def validateLogits {L : Type} (logits : List (List L)) : Except ModelForwardError Unit :=
  match logits with
  | [] => .ok ()
  | firstRow :: _ =>
      if firstRow.length = 0 then .error .emptyVocabulary
      else if logits.any fun row => row.length ≠ firstRow.length then .error .raggedLogits
      else .ok ()

/-- The logits of a batch, a row for each request; every row has one entry for each token of the
vocabulary. -/
@[ext]
structure ModelForwardOutput (L : Type) where
  logits : List (List L)
  valid : validateLogits logits = .ok ()
deriving DecidableEq

namespace ModelForwardOutput

variable {L : Type}

/-- Source: `model_executor.rs`, lines 321–324. -/
def new (logits : List (List L)) : Except ModelForwardError (ModelForwardOutput L) :=
  match h : validateLogits logits with
  | .error error => .error error
  | .ok () => .ok ⟨logits, h⟩

theorem new_eq_ok {logits : List (List L)} (h : validateLogits logits = .ok ()) :
    new logits = .ok ⟨logits, h⟩ := by
  unfold new
  split
  · rename_i error herror
    rw [h] at herror
    cases herror
  · rfl

/-- Source: `model_executor.rs`, lines 358–366. -/
def truncateToBatchSize (output : ModelForwardOutput L) (batchSize : ℕ) :
    Except ModelForwardError (ModelForwardOutput L) :=
  if batchSize > output.logits.length then
    .error (.batchSizeMismatch batchSize output.logits.length)
  else new (output.logits.take batchSize)

theorem validateLogits_eq_ok_iff {logits : List (List L)} :
    validateLogits logits = .ok () ↔
      ∃ vocabulary, 0 < vocabulary ∧ ∀ row ∈ logits, row.length = vocabulary := by
  cases logits with
  | nil => exact ⟨fun _ => ⟨1, one_pos, by simp⟩, fun _ => rfl⟩
  | cons first rows =>
    unfold validateLogits
    dsimp only
    split_ifs with hempty hragged
    · simp [hempty]
    · simp only [false_iff, not_exists, not_and]
      intro vocabulary _ hrows
      obtain ⟨row, hrow, hne⟩ := List.any_eq_true.mp hragged
      have hne : row.length ≠ first.length := by simpa using hne
      exact hne ((hrows row hrow).trans (hrows first List.mem_cons_self).symm)
    · simp only [true_iff]
      refine ⟨first.length, Nat.pos_of_ne_zero hempty, fun row hrow => ?_⟩
      by_contra hne
      exact hragged (List.any_eq_true.mpr ⟨row, hrow, by simpa using hne⟩)

/-- The first rows of valid logits are valid. -/
theorem validateLogits_take {logits : List (List L)} (h : validateLogits logits = .ok ()) (n : ℕ) :
    validateLogits (logits.take n) = .ok () := by
  obtain ⟨vocabulary, hpos, hrows⟩ := validateLogits_eq_ok_iff.mp h
  exact validateLogits_eq_ok_iff.mpr
    ⟨vocabulary, hpos, fun row hrow => hrows row (List.mem_of_mem_take hrow)⟩

/-- **Cutting off rows does not fail** if there are enough of them. -/
theorem truncateToBatchSize_eq_ok (output : ModelForwardOutput L) {n : ℕ}
    (h : n ≤ output.logits.length) :
    output.truncateToBatchSize n =
      .ok ⟨output.logits.take n, validateLogits_take output.valid n⟩ := by
  unfold truncateToBatchSize
  rw [if_neg (not_lt.mpr h), new_eq_ok]

end ModelForwardOutput

/-! ### The runner -/

/-- A model. -/
class ForwardModel (M : Type) (L : outParam Type) where
  forward : M → ModelWorkerBatch → M × Except ModelForwardError (ModelForwardOutput L)
  completeRequest : M → RequestId → M := fun model _ => model

/-- A model that is run under the graph runner. Replaying a captured graph is running it eagerly
unless the model says otherwise. -/
class GraphForwardModel (M : Type) (L : outParam Type) where
  forwardEager : M → ModelInputDescriptor → M × Except ModelForwardError (ModelForwardOutput L)
  forwardGraph : M → ℕ → ModelInputDescriptor →
    M × Except ModelForwardError (ModelForwardOutput L) := fun model _ d => forwardEager model d
  completeRequest : M → RequestId → M := fun model _ => model

class LogitSamplerLike (S : Type) (L : outParam Type) where
  sample : S → ModelForwardOutput L → ScheduleBatch → S × Except ModelForwardError (List UInt32)

/-- The adapter that runs an ordinary model under the graph runner. -/
structure GraphModelAdapter (M : Type) where
  inner : M

namespace ModelInputDescriptor

/-- The requests the adapter makes up from the identifiers and tokens of a descriptor. -/
def madeUpRequests (d : ModelInputDescriptor) : List ScheduledRequest :=
  d.requestIds.zipWith (fun id token => ScheduledRequest.new id [token] ⟨1⟩) d.inputIds

/-- The batch of the model runner for a descriptor.

Source: `graph_runner.rs`, lines 357–388. -/
def workerBatch (d : ModelInputDescriptor) : ModelWorkerBatch :=
  match d.scheduleBatch with
  | some batch => ModelWorkerBatch.fromScheduleBatch batch
  | none =>
      let batch := match d.forwardMode with
        | .prefill => ScheduleBatch.prefill d.madeUpRequests
        | .decode => ScheduleBatch.decode d.madeUpRequests
        | .mixed => ScheduleBatch.mixed d.madeUpRequests
      ModelWorkerBatch.fromScheduleBatch batch

end ModelInputDescriptor

instance {M L : Type} [ForwardModel M L] : GraphForwardModel (GraphModelAdapter M) L where
  forwardEager adapter d :=
    let (inner, result) := ForwardModel.forward adapter.inner d.workerBatch
    (⟨inner⟩, result)
  completeRequest adapter id := ⟨ForwardModel.completeRequest adapter.inner id⟩

/-- The graph runner. `stops` tells whether a request stops at a token, by its sampling
parameters. -/
structure GraphModelRunner (M S : Type) where
  model : M
  sampler : S
  bucketTable : BatchBucketTable := default
  pageSize : ℕ
  padTokenId : UInt32 := 0
  stops : ScheduledRequest → UInt32 → Bool

namespace GraphModelRunner

variable {M S L : Type} (g : GraphModelRunner M S) (batch : ScheduleBatch)

/-- The bucket a batch is replayed in, if it is not run eagerly. -/
def selectedBucket : Option ℕ :=
  if batch.forwardMode = .decode then g.bucketTable.selectBucket batch.requests.length else none

/-- The descriptor a graph is replayed on. -/
def graphDescriptor (bucketSize : ℕ) (d : ModelInputDescriptor) :
    Except GraphRunnerError ModelInputDescriptor :=
  if d.batchSize < bucketSize then d.padToBucket bucketSize g.padTokenId else .ok d

/-- The first step: run the model, in a bucket or eagerly.

Source: `graph_runner.rs`, lines 507–532. -/
def forward [GraphForwardModel M L] (d : ModelInputDescriptor) :
    M × Except WorkerExecutionError (ModelForwardOutput L) :=
  match g.selectedBucket batch with
  | some bucketSize =>
      match g.graphDescriptor bucketSize d with
      | .error error => (g.model, .error (.runtime error.display))
      | .ok padded =>
          match GraphForwardModel.forwardGraph g.model bucketSize padded with
          | (model, .error error) => (model, .error (.runtime error.display))
          | (model, .ok output) =>
              match output.truncateToBatchSize batch.requests.length with
              | .error error => (model, .error (.runtime error.display))
              | .ok output => (model, .ok output)
  | none =>
      match GraphForwardModel.forwardEager g.model d with
      | (model, .error error) => (model, .error (.runtime error.display))
      | (model, .ok output) => (model, .ok output)

/-- The second and third steps: sample a token for each request.

Source: `graph_runner.rs`, lines 534–565. -/
def sampleTokens [LogitSamplerLike S L] (output : ModelForwardOutput L) :
    S × Except WorkerExecutionError BatchGeneratedTokens :=
  match LogitSamplerLike.sample g.sampler output batch with
  | (sampler, .error error) => (sampler, .error (.runtime error.display))
  | (sampler, .ok tokenIds) =>
      if tokenIds.length ≠ batch.requests.length then
        (sampler, .error (.runtime
          (ModelForwardError.batchSizeMismatch batch.requests.length tokenIds.length).display))
      else
        let tokens := tokenIds.zipWith
          (fun tokenId request => ⟨[tokenId], g.stops request tokenId⟩) batch.requests
        if batch.requests.length ≠ tokens.length then
          (sampler, .error (.output (.batchSizeMismatch batch.requests.length tokens.length)))
        else (sampler, .ok ⟨tokens⟩)

/-- Source: `graph_runner.rs`, lines 492–566. -/
def tryGenerateBatch [GraphForwardModel M L] [LogitSamplerLike S L] :
    GraphModelRunner M S × Except WorkerExecutionError BatchGeneratedTokens :=
  if batch.requests.length = 0 then
    (g, .error (.runtime "cannot execute empty schedule batch"))
  else
    match ModelInputDescriptor.fromScheduleBatch batch g.pageSize with
    | .error error => (g, .error (.runtime error.display))
    | .ok d =>
        match g.forward batch d with
        | (model, .error error) => ({ g with model }, .error error)
        | (model, .ok output) =>
            let (sampler, result) := g.sampleTokens batch output
            ({ g with model, sampler }, result)

/-- The graph runner as the worker of a scheduler.

Source: `graph_runner.rs`, lines 487–578, and `worker.rs`, lines 138–183 and 245–279. -/
instance [GraphForwardModel M L] [LogitSamplerLike S L] :
    WorkerExecutor (GraphModelRunner M S) where
  executeBatch g batch := g.tryGenerateBatch batch
  decodeRequestState g _ := (g, .ok .ready)
  pollTransfers g := (g, .ok {})
  completeRequest g request :=
    { g with model := GraphForwardModel.completeRequest g.model request.requestId }
  finishRequest g request :=
    ({ g with model := GraphForwardModel.completeRequest g.model request.requestId }, .ok ())
  failRequest g request :=
    { g with model := GraphForwardModel.completeRequest g.model request.requestId }
  shutdown g := (g, .ok ())

end GraphModelRunner

end SglangRs
