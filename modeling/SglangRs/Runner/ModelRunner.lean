import SglangRs.Model.DenseDecoder
import SglangRs.Serving.Execution

/-!
# The model runner

The model runner is the worker of a scheduler over an ordinary model: it flattens the batch, runs
the model, samples a token for each request and tells whether the request stops there
(`model_executor.rs`, lines 652–830). The backend of a model is an executor, which has the weights,
and the resources it computes on (`model_runtime.rs`, lines 181–272). The dense decoder of the CPU
reference is such an executor, and its KV cache is its only resource.

## Main definitions

* `ModelRunner`, `ModelRunner.tryGenerateBatch`: the runner.
* `BackendModelExecutor`, `BackendExecutionBundle`: the backend.
* `CausalModel.Implements`: a model that computes what a causal model computes.
* `CpuReferenceDenseDecoder.causalModel`: the dense decoder as a causal model.

## Main results

* `ModelRunner.runBy`: the runner runs its model.
* `CpuReferenceDenseDecoder.implements`: the dense decoder on a KV cache is its causal model.
-/

namespace SglangRs

/-! ### The runner -/

/-- The runner of a model. `stops` tells whether a request stops at a token, by its sampling
parameters. -/
structure ModelRunner (M S : Type) where
  model : M
  sampler : S
  stops : ScheduledRequest → UInt32 → Bool

namespace ModelRunner

variable {M S L : Type}

/-- The tokens of a batch, one for each request. -/
def generatedTokens (stops : ScheduledRequest → UInt32 → Bool) (batch : ScheduleBatch)
    (tokenIds : List UInt32) : Except WorkerExecutionError BatchGeneratedTokens :=
  if tokenIds.length ≠ batch.requests.length then
    .error (.runtime
      (ModelForwardError.batchSizeMismatch batch.requests.length tokenIds.length).display)
  else
    let tokens := tokenIds.zipWith
      (fun tokenId request => ⟨[tokenId], stops request tokenId⟩) batch.requests
    if batch.requests.length ≠ tokens.length then
      .error (.output (.batchSizeMismatch batch.requests.length tokens.length))
    else .ok ⟨tokens⟩

/-- Source: `model_executor.rs`, lines 786–826. -/
def tryGenerateBatch [ForwardModel M L] [LogitSamplerLike S L] (runner : ModelRunner M S)
    (batch : ScheduleBatch) :
    ModelRunner M S × Except WorkerExecutionError BatchGeneratedTokens :=
  match ForwardModel.forward runner.model (.fromScheduleBatch batch) with
  | (model, .error error) => ({ runner with model }, .error (.runtime error.display))
  | (model, .ok forwardOutput) =>
      match LogitSamplerLike.sample runner.sampler forwardOutput batch with
      | (sampler, .error error) =>
          ({ runner with model, sampler }, .error (.runtime error.display))
      | (sampler, .ok tokenIds) =>
          ({ runner with model, sampler }, generatedTokens runner.stops batch tokenIds)

/-- The model runner as the worker of a scheduler.

Source: `model_executor.rs`, lines 778–830, and `worker.rs`, lines 138–183 and 245–279. -/
instance [ForwardModel M L] [LogitSamplerLike S L] : WorkerExecutor (ModelRunner M S) where
  executeBatch runner batch := runner.tryGenerateBatch batch
  decodeRequestState runner _ := (runner, .ok .ready)
  pollTransfers runner := (runner, .ok {})
  completeRequest runner request :=
    { runner with model := ForwardModel.completeRequest runner.model request.requestId }
  finishRequest runner request :=
    ({ runner with model := ForwardModel.completeRequest runner.model request.requestId }, .ok ())
  failRequest runner request :=
    { runner with model := ForwardModel.completeRequest runner.model request.requestId }
  shutdown runner := (runner, .ok ())

/-- A token for each request. -/
theorem generatedTokens_eq_ok {stops : ScheduledRequest → UInt32 → Bool} {batch : ScheduleBatch}
    {tokenIds : List UInt32} {generated : BatchGeneratedTokens}
    (h : generatedTokens stops batch tokenIds = .ok generated) :
    tokenIds.length = batch.requests.length ∧
      generated.tokens = tokenIds.zipWith
        (fun tokenId request => ⟨[tokenId], stops request tokenId⟩) batch.requests := by
  unfold generatedTokens at h
  split_ifs at h with hlength
  dsimp only at h
  split_ifs at h
  exact ⟨not_not.mp hlength, congrArg BatchGeneratedTokens.tokens (Except.ok.inj h).symm⟩

end ModelRunner

/-- What a sampler picks for a request, given its tokens so far and its logits, as long as the
sampler is `Ready`. -/
structure LogitSamplerLike.Picks {S L : Type} [LogitSamplerLike S L] (Ready : S → Prop)
    (picks : RequestId → List UInt32 → List L → UInt32 → Prop) : Prop where
  ready : ∀ sampler output batch, Ready sampler →
    Ready (LogitSamplerLike.sample sampler output batch).1
  picks : ∀ (sampler : S) (output : ModelForwardOutput L) (batch : ScheduleBatch)
    (tokenIds : List UInt32), Ready sampler →
    (LogitSamplerLike.sample sampler output batch).2 = .ok tokenIds →
      ∀ (i : ℕ) (r : ScheduledRequest) (logits : List L) (tokenId : UInt32),
        batch.requests[i]? = some r → output.logits[i]? = some logits →
          tokenIds[i]? = some tokenId → picks r.requestId (r.inputIds ++ r.outputIds) logits tokenId

namespace CausalModel

variable {Mod M X Q E L S : Type}

/-- A model computes what a causal model computes, as long as it is `Loaded`. -/
structure Implements [ForwardModel Mod L] (C : CausalModel M X Q E L) (Loaded : Mod → Prop)
    (memoryOf : Mod → M) : Prop where
  loaded : ∀ model batch, Loaded model → Loaded (ForwardModel.forward model batch).1
  memory_eq : ∀ model batch, Loaded model → memoryOf (ForwardModel.forward model batch).1 =
    (forwardBatch C.token batch (memoryOf model)).1
  forward_eq : ∀ model batch, Loaded model → (ForwardModel.forward model batch).2 =
    (forwardBatch C.token batch (memoryOf model)).2
  completeRequest : ∀ model id, Loaded model → Loaded (ForwardModel.completeRequest model id) ∧
    memoryOf (ForwardModel.completeRequest model id) = memoryOf model

end CausalModel

/-- **The runner runs its model.** -/
theorem ModelRunner.runBy {Mod M X Q E L S : Type} [ForwardModel Mod L] [LogitSamplerLike S L]
    {C : CausalModel M X Q E L} {Loaded : Mod → Prop} {memoryOf : Mod → M}
    (h : C.Implements Loaded memoryOf) {Ready : S → Prop}
    {picks : RequestId → List UInt32 → List L → UInt32 → Prop}
    (hpicks : LogitSamplerLike.Picks Ready picks) :
    C.RunBy picks (fun runner : ModelRunner Mod S => Loaded runner.model ∧ Ready runner.sampler)
      fun runner => memoryOf runner.model := by
  have hcomplete (m : M) (runner : ModelRunner Mod S) (request : ScheduledRequest)
      (hrunner : (Loaded runner.model ∧ Ready runner.sampler) ∧ memoryOf runner.model = m) :
      (Loaded (ForwardModel.completeRequest runner.model request.requestId) ∧
        Ready runner.sampler) ∧
        memoryOf (ForwardModel.completeRequest runner.model request.requestId) = m := by
    obtain ⟨hloaded, hmemory⟩ := h.completeRequest runner.model request.requestId hrunner.1.1
    exact ⟨⟨hloaded, hrunner.1.2⟩, hmemory.trans hrunner.2⟩
  -- whatever becomes of the tokens, the model is left as the forward pass leaves it
  have hmodel (runner : ModelRunner Mod S) (batch : ScheduleBatch) :
      (runner.tryGenerateBatch batch).1.model =
        (ForwardModel.forward runner.model (.fromScheduleBatch batch)).1 := by
    unfold tryGenerateBatch
    rcases ForwardModel.forward runner.model (.fromScheduleBatch batch) with ⟨model, error | output⟩
    · rfl
    · dsimp only
      rcases LogitSamplerLike.sample runner.sampler output batch with ⟨sampler, error | tokenIds⟩
        <;> rfl
  have hsampler (runner : ModelRunner Mod S) (batch : ScheduleBatch) (hready : Ready runner.sampler) :
      Ready (runner.tryGenerateBatch batch).1.sampler := by
    unfold tryGenerateBatch
    rcases ForwardModel.forward runner.model (.fromScheduleBatch batch) with ⟨model, error | output⟩
    · exact hready
    · have hsampled := hpicks.ready runner.sampler output batch hready
      dsimp only
      rcases hsample : LogitSamplerLike.sample runner.sampler output batch with
        ⟨sampler, error | tokenIds⟩
      all_goals
        rw [hsample] at hsampled
        exact hsampled
  refine ⟨fun m => ⟨fun _ _ hrunner => hrunner, fun _ hrunner => hrunner, hcomplete m, hcomplete m,
    hcomplete m⟩, fun _ _ => rfl, fun runner batch hrunner => ⟨?_, hsampler runner batch hrunner.2⟩,
    fun runner batch hrunner => ?_, fun runner batch generated hrunner hgenerated => ?_⟩
  · exact (congrArg Loaded (hmodel runner batch)).mpr (h.loaded _ _ hrunner.1)
  · exact (congrArg memoryOf (hmodel runner batch)).trans (h.memory_eq _ _ hrunner.1)
  · rw [← h.forward_eq _ _ hrunner.1]
    change (runner.tryGenerateBatch batch).2 = .ok generated at hgenerated
    unfold tryGenerateBatch at hgenerated
    rcases hforward : ForwardModel.forward runner.model (.fromScheduleBatch batch) with
      ⟨model, error | output⟩
    all_goals rw [hforward] at hgenerated
    · cases hgenerated
    · dsimp only at hgenerated
      rcases hsample : LogitSamplerLike.sample runner.sampler output batch with
        ⟨sampler, error | tokenIds⟩
      all_goals rw [hsample] at hgenerated
      · cases hgenerated
      · obtain ⟨hlength, htokens⟩ := generatedTokens_eq_ok hgenerated
        refine ⟨output, rfl, ?_, fun i r logits t hr hlogits ht => ?_⟩
        · rw [htokens, List.length_zipWith, hlength, min_self]
        · rw [htokens, List.getElem?_zipWith, hr] at ht
          rcases htoken : tokenIds[i]? with - | tokenId
          all_goals rw [htoken] at ht
          · cases ht
          · obtain rfl := Option.some.inj ht
            refine ⟨tokenId, rfl, ?_⟩
            exact hpicks.picks runner.sampler output batch tokenIds hrunner.2
              (congrArg Prod.snd hsample) i r logits tokenId hr hlogits htoken

/-! ### The backend -/

/-- The executor of a backend. -/
class BackendModelExecutor (X R : Type) (L : outParam Type) where
  forward : X → ModelWorkerBatch → R → R × Except ModelForwardError (ModelForwardOutput L)

/-- An executor with its resources. -/
structure BackendExecutionBundle (X R : Type) where
  executor : X
  resources : R

/-- Source: `model_runtime.rs`, lines 258–272. A KV cache has nothing to do when a request is
complete. -/
instance {X R L : Type} [BackendModelExecutor X R L] :
    ForwardModel (BackendExecutionBundle X R) L where
  forward bundle batch :=
    let (resources, result) := BackendModelExecutor.forward bundle.executor batch bundle.resources
    ({ bundle with resources }, result)

namespace CpuReferenceDenseDecoder

variable {F : Type} [KernelFloat F] [LinearOrder F]

/-- Source: `cpu_reference.rs`, lines 200–235. -/
instance : BackendModelExecutor (CpuReferenceDenseDecoder F) CpuReferenceKvCache F where
  forward decoder batch kvCache := forwardBatch decoder.forwardToken batch kvCache

open CpuReferenceKvCache

variable (decoder : CpuReferenceDenseDecoder F) {layout : PagedKvCacheLayout}
  {keyWidth valueWidth : ℕ}

/-- The key and the value of a token have the widths of the cache. -/
theorem fits_of_prepare {config : DenseDecoderForwardConfig F} {layer : DenseDecoderLayerWeights F}
    {position : ℕ} {x : List F} {query : AttentionQuery F} {entry : List F × List F}
    (h : (causalLayer keyWidth valueWidth config layer).prepare position x = .ok (query, entry)) :
    entry.1.length = keyWidth ∧ entry.2.length = valueWidth := by
  obtain ⟨normalized, -, h⟩ := Except.bind_eq_ok.mp h
  obtain ⟨⟨query', key, value⟩, -, h⟩ := Except.bind_eq_ok.mp h
  obtain ⟨u, hwidths, h⟩ := Except.bind_eq_ok.mp h
  obtain ⟨rfl, rfl⟩ := Prod.mk.inj (Except.ok.inj h)
  exact checkWidths_eq_ok.mp hwidths

/-- The dense decoder on a KV cache with a layer for each of its own. -/
def causalModel (h : Stores layout keyWidth valueWidth)
    (hlayers : decoder.layers.length ≤ layout.runtime.numLayers) :
    CausalModel CpuReferenceKvCache (List F) (AttentionQuery F) (List F × List F) F where
  token := decoder.forwardToken
  network := decoder.network keyWidth valueWidth
  memory := memory F
  Valid := Sized layout keyWidth valueWidth
  Fits entry := entry.1.length = keyWidth ∧ entry.2.length = valueWidth
  depth := layout.runtime.numLayers
  slotCount := layout.slotCount
  lawful := lawful_memory h
  length_layers_le := by
    simp only [network]
    cases decoder.rotaryEmbedding with
    | error _ => exact Nat.zero_le _
    | ok _ => rwa [List.length_map]
  fits layer hlayer position x query entry hprepare := by
    simp only [network] at hlayer
    rcases hrotary : decoder.rotaryEmbedding with error | rotaryEmbedding
    all_goals rw [hrotary] at hlayer
    · cases hlayer
    · obtain ⟨layer, -, rfl⟩ := List.mem_map.mp hlayer
      exact fits_of_prepare hprepare
  token_eq_step _ tokenId _ _ _ hvalid hslots hslot :=
    decoder.forwardToken_eq_step h hvalid hlayers hslots tokenId hslot
  token_of_mismatch _ tokenId _ _ _ hslot := decoder.forwardToken_of_mismatch tokenId hslot

/-- **The dense decoder on a KV cache is its causal model.** -/
theorem implements (h : Stores layout keyWidth valueWidth)
    (hlayers : decoder.layers.length ≤ layout.runtime.numLayers) :
    (decoder.causalModel h hlayers).Implements
      (fun model : BackendExecutionBundle (CpuReferenceDenseDecoder F) CpuReferenceKvCache =>
        model.executor = decoder)
      BackendExecutionBundle.resources := by
  refine ⟨fun _ _ hmodel => hmodel, ?_, ?_, fun _ _ hmodel => ⟨hmodel, rfl⟩⟩
  · rintro ⟨executor, kvCache⟩ batch rfl
    rfl
  · rintro ⟨executor, kvCache⟩ batch rfl
    rfl

end CpuReferenceDenseDecoder

end SglangRs
