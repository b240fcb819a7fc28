import SglangRs.Cache.CpuKvCache

/-!
# The dense decoder of the CPU reference

The dense decoder computes the logits of a token at a position of a sequence: it looks up the
embedding of the token, and passes it through layers of attention and feed-forward networks
(`cpu_reference.rs`, lines 34–752 and 951–990). The keys and values of the earlier positions are
gathered from the KV cache, from the slots of the sequence, and those of the position are written to
its slot. The matrices are those that were loaded, which have as many values as their shape says.

A decoder is a causal network, and the KV cache is its memory.

## Main definitions

* `forwardFullAttention`, `forwardLayer`, `CpuReferenceDenseDecoder.forwardToken`.
* `CpuReferenceDenseDecoder.network`: the causal network of a decoder.

## Main results

* `CpuReferenceDenseDecoder.forwardToken_eq_step`: a token is a step of the network.
-/

namespace SglangRs

/-- Source: `cpu_reference.rs`, lines 963–965. -/
def kernelError (error : KernelError) : CpuReferenceDenseDecoderError := .execution error.display

/-- Source: `cpu_reference.rs`, lines 953–961. -/
def checkedProduct (left right : ℕ) (name : String) : Except CpuReferenceDenseDecoderError ℕ :=
  okOr (.unsupported s!"{name} size overflowed") (checkedMul 64 left right)

section Decoder

variable {F : Type} [KernelFloat F]

/-- Source: `cpu_reference.rs`, lines 935–951. -/
def addResidual (residual update : List F) : Except CpuReferenceDenseDecoderError (List F) :=
  if residual.length ≠ update.length then
    .error (.execution
      s!"residual width {residual.length} does not match update width {update.length}")
  else .ok (List.zipWith FloatOps.add residual update)

/-! ### Matrices -/

structure FloatMatrix (F : Type) where
  rows : ℕ
  columns : ℕ
  values : List F
  bias : Option (List F)
  length_values : values.length = rows * columns

namespace FloatMatrix

variable (matrix : FloatMatrix F)

/-- Source: `cpu_reference.rs`, lines 727–741. -/
def project (input : List F) (inputRows : ℕ) : Except CpuReferenceDenseDecoderError (List F) :=
  (linear input matrix.values matrix.bias inputRows matrix.columns matrix.rows).mapError kernelError

/-- Source: `cpu_reference.rs`, lines 743–754. -/
def row (row : UInt32) : Except CpuReferenceDenseDecoderError (List F) :=
  if matrix.rows ≤ row.toNat then
    .error (.execution s!"token id {row} is outside vocabulary {matrix.rows}")
  else .ok (matrixRow matrix.values matrix.columns row.toNat)

end FloatMatrix

/-! ### Attention -/

inductive CpuNormalization where
  | standard
  | gemma
deriving DecidableEq, Repr

/-- Source: `cpu_reference.rs`, lines 334–347. -/
def applyNormalization (input weight : List F) (rows cols : ℕ) (eps : F)
    (normalization : CpuNormalization) : Except CpuReferenceDenseDecoderError (List F) :=
  (match normalization with
    | .standard => rmsNorm input weight rows cols eps
    | .gemma => gemmaRmsNorm input weight rows cols eps).mapError kernelError

structure FullAttentionShape where
  queryHeadCount : ℕ
  kvHeadCount : ℕ
  headDim : ℕ
  rotaryDim : ℕ
  outputGate : Bool
deriving DecidableEq, Repr

/-- What does not depend on the token. -/
structure FullAttentionConfig (F : Type) where
  shape : FullAttentionShape
  rmsNormEps : F
  rotaryEmbedding : RotaryEmbeddingConfig F
  qkNormalization : CpuNormalization

structure FullAttentionWeights (F : Type) where
  query : FloatMatrix F
  queryNorm : Option (List F)
  key : FloatMatrix F
  keyNorm : Option (List F)
  value : FloatMatrix F
  output : FloatMatrix F

/-- The queries of a position, and the gate of its output if there is one. -/
structure AttentionQuery (F : Type) where
  query : List F
  outputGate : Option (List F)

/-- The queries and the gates of all heads, which alternate. -/
def splitOutputGate (shape : FullAttentionShape) (projectedQuery : List F) (querySize : ℕ) :
    Except CpuReferenceDenseDecoderError (AttentionQuery F) :=
  if shape.outputGate then
    if projectedQuery.length ≠ querySize * 2 then
      .error (.execution (s!"gated query width {projectedQuery.length} does not match expected "
        ++ s!"{querySize * 2}"))
    else
      .ok ⟨(List.range shape.queryHeadCount).flatMap fun head =>
          (projectedQuery.drop (head * shape.headDim * 2)).take shape.headDim,
        some ((List.range shape.queryHeadCount).flatMap fun head =>
          (projectedQuery.drop (head * shape.headDim * 2 + shape.headDim)).take shape.headDim)⟩
  else .ok ⟨projectedQuery, none⟩

/-- The normalization of the heads, if there is one. -/
def normalizeHeads (config : FullAttentionConfig F) (weight : Option (List F)) (heads : List F)
    (headCount : ℕ) : Except CpuReferenceDenseDecoderError (List F) :=
  match weight with
  | none => .ok heads
  | some weight =>
      applyNormalization heads weight headCount config.shape.headDim config.rmsNormEps
        config.qkNormalization

/-- The rotation of the heads. -/
def rotateHeads (config : FullAttentionConfig F) (heads : List F) (headCount position : ℕ) :
    Except CpuReferenceDenseDecoderError (List F) :=
  (applyRotaryEmbedding heads headCount config.shape.headDim config.shape.rotaryDim position
    config.rotaryEmbedding).mapError fun error => .execution error.display

/-- The queries, keys and values of a position.

Source: `cpu_reference.rs`, lines 450–526. -/
def prepareFullAttention (weights : FullAttentionWeights F) (config : FullAttentionConfig F)
    (hidden : List F) (position : ℕ) :
    Except CpuReferenceDenseDecoderError (AttentionQuery F × (List F × List F)) := do
  let projectedQuery ← weights.query.project hidden 1
  let querySize ← checkedProduct config.shape.queryHeadCount config.shape.headDim
    "full attention query"
  let gated ← splitOutputGate config.shape projectedQuery querySize
  let key ← weights.key.project hidden 1
  let value ← weights.value.project hidden 1
  let query ← normalizeHeads config weights.queryNorm gated.query config.shape.queryHeadCount
  let key ← normalizeHeads config weights.keyNorm key config.shape.kvHeadCount
  let query ← rotateHeads config query config.shape.queryHeadCount position
  let key ← rotateHeads config key config.shape.kvHeadCount position
  return (⟨query, gated.outputGate⟩, (key, value))

/-- The output for a query, from the keys and the values of the sequence.

Source: `cpu_reference.rs`, lines 529–547. -/
def attendFull [LinearOrder F] (weights : FullAttentionWeights F) (config : FullAttentionConfig F)
    (query : AttentionQuery F) (tokenCount : ℕ) (keys values : List F) :
    Except CpuReferenceDenseDecoderError (List F) := do
  let attention ← (groupedQueryAttention query.query keys values
    { tokenCount := tokenCount
      queryHeadCount := config.shape.queryHeadCount
      kvHeadCount := config.shape.kvHeadCount
      headDim := config.shape.headDim
      scale := KernelFloat.recip (KernelFloat.sqrt (KernelFloat.ofNat config.shape.headDim)) }
    ).mapError kernelError
  let attention := match query.outputGate with
    | none => attention
    | some gate =>
        List.zipWith (fun value gate => FloatOps.mul value
          (FloatOps.div FloatOps.one (FloatOps.add FloatOps.one (FloatOps.exp (FloatOps.neg gate)))))
          attention gate
  weights.output.project attention 1

/-- Source: `cpu_reference.rs`, lines 444–548. -/
def forwardFullAttention [LinearOrder F] (weights : FullAttentionWeights F)
    (config : FullAttentionConfig F) (kvCache : CpuReferenceKvCache) (hidden : List F)
    (cacheLayerIndex position outputSlot : ℕ) (sequenceSlots : List ℕ) :
    CpuReferenceKvCache × Except CpuReferenceDenseDecoderError (List F) :=
  match prepareFullAttention weights config hidden position with
  | .error error => (kvCache, .error error)
  | .ok (query, key, value) =>
      match kvCache.write cacheLayerIndex outputSlot key value with
      | .error error => (kvCache, .error error)
      | .ok kvCache =>
          (kvCache, do
            let (keys, values) ← kvCache.gather cacheLayerIndex sequenceSlots
            attendFull weights config query sequenceSlots.length keys values)

/-! ### Layers -/

inductive DenseDecoderActivation where
  | silu
deriving DecidableEq, Repr

structure DenseFeedForwardWeights (F : Type) where
  gate : FloatMatrix F
  up : FloatMatrix F
  down : FloatMatrix F

/-- Source: `cpu_reference.rs`, lines 587–605. -/
def DenseFeedForwardWeights.forward (weights : DenseFeedForwardWeights F) (input : List F)
    (intermediateSize : ℕ) (activation : DenseDecoderActivation) :
    Except CpuReferenceDenseDecoderError (List F) := do
  let gate ← weights.gate.project input 1
  let up ← weights.up.project input 1
  let activated ← match activation with
    | .silu => (siluAndMul gate up).mapError kernelError
  if activated.length ≠ intermediateSize then
    .error (.execution (s!"dense activation width {activated.length} does not match intermediate "
      ++ s!"size {intermediateSize}"))
  else weights.down.project activated 1

structure DenseDecoderShape where
  hiddenSize : ℕ
  intermediateSize : ℕ
  queryHeadCount : ℕ
  kvHeadCount : ℕ
  headDim : ℕ
deriving DecidableEq, Repr

structure DenseDecoderLayerWeights (F : Type) where
  inputNorm : List F
  attention : FullAttentionWeights F
  postAttentionNorm : List F
  feedForward : DenseFeedForwardWeights F

/-- What the layers of a decoder have in common. -/
structure DenseDecoderForwardConfig (F : Type) where
  shape : DenseDecoderShape
  rmsNormEps : F
  rotaryEmbedding : RotaryEmbeddingConfig F
  activation : DenseDecoderActivation

/-- All of a head is rotated, and the output has no gate. -/
def DenseDecoderForwardConfig.fullAttention (config : DenseDecoderForwardConfig F) :
    FullAttentionConfig F where
  shape :=
    { queryHeadCount := config.shape.queryHeadCount
      kvHeadCount := config.shape.kvHeadCount
      headDim := config.shape.headDim
      rotaryDim := config.shape.headDim
      outputGate := false }
  rmsNormEps := config.rmsNormEps
  rotaryEmbedding := config.rotaryEmbedding
  qkNormalization := .standard

/-- What a layer does with the output of its attention.

Source: `cpu_reference.rs`, lines 305–318. -/
def finishLayer (layer : DenseDecoderLayerWeights F) (config : DenseDecoderForwardConfig F)
    (hidden attentionOutput : List F) : Except CpuReferenceDenseDecoderError (List F) := do
  let afterAttention ← addResidual hidden attentionOutput
  let normalized ← (rmsNorm afterAttention layer.postAttentionNorm 1 config.shape.hiddenSize
    config.rmsNormEps).mapError kernelError
  let feedForward ← layer.feedForward.forward normalized config.shape.intermediateSize
    config.activation
  addResidual afterAttention feedForward

/-- Source: `cpu_reference.rs`, lines 259–319. -/
def forwardLayer [LinearOrder F] (layer : DenseDecoderLayerWeights F)
    (config : DenseDecoderForwardConfig F) (kvCache : CpuReferenceKvCache) (hidden : List F)
    (layerIndex position outputSlot : ℕ) (sequenceSlots : List ℕ) :
    CpuReferenceKvCache × Except CpuReferenceDenseDecoderError (List F) :=
  match (rmsNorm hidden layer.inputNorm 1 config.shape.hiddenSize config.rmsNormEps).mapError
    kernelError with
  | .error error => (kvCache, .error error)
  | .ok normalized =>
      match forwardFullAttention layer.attention config.fullAttention kvCache normalized layerIndex
        position outputSlot sequenceSlots with
      | (kvCache, .error error) => (kvCache, .error error)
      | (kvCache, .ok attentionOutput) => (kvCache, finishLayer layer config hidden attentionOutput)

/-! ### The decoder -/

structure CpuReferenceDenseDecoder (F : Type) where
  hiddenSize : ℕ
  maxPositionEmbeddings : ℕ
  rmsNormEps : F
  ropeTheta : F
  activation : DenseDecoderActivation
  queryHeadCount : ℕ
  kvHeadCount : ℕ
  headDim : ℕ
  intermediateSize : ℕ
  tokenEmbeddings : FloatMatrix F
  finalNorm : List F
  lmHead : Option (FloatMatrix F)
  layers : List (DenseDecoderLayerWeights F)

namespace CpuReferenceDenseDecoder

variable (decoder : CpuReferenceDenseDecoder F)

/-- The rotary embedding of the decoder, if its parameters are valid. -/
def rotaryEmbedding : Except CpuReferenceDenseDecoderError (RotaryEmbeddingConfig F) :=
  Except.mapError (fun error : RotaryEmbeddingError => .execution error.display) do
    let rotary ← RotaryEmbeddingConfig.standard decoder.ropeTheta .neox
    rotary.validate decoder.headDim
    return rotary

def forwardConfig (rotaryEmbedding : RotaryEmbeddingConfig F) : DenseDecoderForwardConfig F where
  shape :=
    { hiddenSize := decoder.hiddenSize
      intermediateSize := decoder.intermediateSize
      queryHeadCount := decoder.queryHeadCount
      kvHeadCount := decoder.kvHeadCount
      headDim := decoder.headDim }
  rmsNormEps := decoder.rmsNormEps
  rotaryEmbedding := rotaryEmbedding
  activation := decoder.activation

/-- The loop over the layers. -/
def forwardLayers [LinearOrder F] (config : DenseDecoderForwardConfig F)
    (position outputSlot : ℕ) (sequenceSlots : List ℕ) :
    ℕ → List (DenseDecoderLayerWeights F) → CpuReferenceKvCache → List F →
      CpuReferenceKvCache × Except CpuReferenceDenseDecoderError (List F)
  | _, [], kvCache, hidden => (kvCache, .ok hidden)
  | layerIndex, layer :: layers, kvCache, hidden =>
      match forwardLayer layer config kvCache hidden layerIndex position outputSlot
        sequenceSlots with
      | (kvCache, .error error) => (kvCache, .error error)
      | (kvCache, .ok hidden) =>
          forwardLayers config position outputSlot sequenceSlots (layerIndex + 1) layers kvCache
            hidden

/-- The logits for the state behind the layers. -/
def project (hidden : List F) : Except CpuReferenceDenseDecoderError (List F) := do
  let hidden ← (rmsNorm hidden decoder.finalNorm 1 decoder.hiddenSize decoder.rmsNormEps).mapError
    kernelError
  (decoder.lmHead.getD decoder.tokenEmbeddings).project hidden 1

/-- Source: `cpu_reference.rs`, lines 125–188. -/
def forwardToken [LinearOrder F] (kvCache : CpuReferenceKvCache) (tokenId : UInt32)
    (position outputSlot : ℕ) (sequenceSlots : List ℕ) :
    CpuReferenceKvCache × Except CpuReferenceDenseDecoderError (List F) :=
  if decoder.maxPositionEmbeddings ≤ position then
    (kvCache, .error (.execution (s!"token position {position} exceeds max_position_embeddings "
      ++ s!"{decoder.maxPositionEmbeddings}")))
  else if sequenceSlots[position]? ≠ some outputSlot then
    (kvCache, .error (.execution (s!"output KV slot {outputSlot} does not match sequence slot at "
      ++ s!"position {position}")))
  else
    match decoder.tokenEmbeddings.row tokenId with
    | .error error => (kvCache, .error error)
    | .ok hidden =>
        match decoder.rotaryEmbedding with
        | .error error => (kvCache, .error error)
        | .ok rotaryEmbedding =>
            match forwardLayers (decoder.forwardConfig rotaryEmbedding) position outputSlot
              (sequenceSlots.take (position + 1)) 0 decoder.layers kvCache hidden with
            | (kvCache, .error error) => (kvCache, .error error)
            | (kvCache, .ok hidden) => (kvCache, decoder.project hidden)

/-! ### The network of a decoder -/

section Network

variable [LinearOrder F] (keyWidth valueWidth : ℕ)

/-- A layer, with a cache whose keys and values have these widths. -/
def causalLayer (config : DenseDecoderForwardConfig F) (layer : DenseDecoderLayerWeights F) :
    Causal.Layer CpuReferenceDenseDecoderError (List F) (AttentionQuery F) (List F × List F) where
  prepare position hidden := do
    let normalized ← (rmsNorm hidden layer.inputNorm 1 config.shape.hiddenSize
      config.rmsNormEps).mapError kernelError
    let (query, key, value) ← prepareFullAttention layer.attention config.fullAttention normalized
      position
    CpuReferenceKvCache.checkWidths keyWidth valueWidth key value
    return (query, (key, value))
  combine _ hidden query entries := do
    CpuReferenceKvCache.checkCapacity keyWidth valueWidth entries.length
    let attentionOutput ← attendFull layer.attention config.fullAttention query entries.length
      (entries.flatMap Prod.fst) (entries.flatMap Prod.snd)
    finishLayer layer config hidden attentionOutput

/-- The decoder as a causal network. -/
def network : Causal.Network CpuReferenceDenseDecoderError UInt32 (List F) (AttentionQuery F)
    (List F × List F) (List F) where
  embed position tokenId :=
    if decoder.maxPositionEmbeddings ≤ position then
      .error (.execution (s!"token position {position} exceeds max_position_embeddings "
        ++ s!"{decoder.maxPositionEmbeddings}"))
    else do
      let hidden ← decoder.tokenEmbeddings.row tokenId
      let _ ← decoder.rotaryEmbedding
      return hidden
  layers := match decoder.rotaryEmbedding with
    | .error _ => []
    | .ok rotaryEmbedding =>
        decoder.layers.map (causalLayer keyWidth valueWidth (decoder.forwardConfig rotaryEmbedding))
  head := decoder.project

end Network

open CpuReferenceKvCache

section Step

variable [LinearOrder F] {layout : PagedKvCacheLayout} {keyWidth valueWidth layerIndex : ℕ}
  {position outputSlot : ℕ} {cache : CpuReferenceKvCache} {slots : List ℕ} {hidden : List F}
  {config : DenseDecoderForwardConfig F}

/-- A layer is a layer of the network. -/
theorem forwardLayer_eq_step (h : Stores layout keyWidth valueWidth)
    (hcache : Sized layout keyWidth valueWidth cache) (hlayer : layerIndex < layout.runtime.numLayers)
    (hslots : ∀ slot ∈ slots, slot < layout.slotCount) (layer : DenseDecoderLayerWeights F) :
    forwardLayer layer config cache hidden layerIndex position outputSlot slots =
      (causalLayer keyWidth valueWidth config layer).step (memory F) layerIndex position outputSlot
        slots hidden cache := by
  simp only [forwardLayer, Causal.Layer.step, causalLayer]
  cases hnormalized : (rmsNorm hidden layer.inputNorm 1 config.shape.hiddenSize
      config.rmsNormEps).mapError kernelError with
  | error error => rfl
  | ok normalized =>
      simp only [forwardFullAttention, bind, Except.bind]
      cases hprepare : prepareFullAttention layer.attention config.fullAttention normalized
          position with
      | error error => rfl
      | ok prepared =>
          obtain ⟨query, key, value⟩ := prepared
          cases hwidths : checkWidths keyWidth valueWidth key value with
          | error error =>
              have hwrite : cache.write layerIndex outputSlot key value = .error error := by
                rw [write, hcache.keyWidth_eq, hcache.valueWidth_eq, hwidths]
                rfl
              simp only [hwrite, hwidths]
          | ok u =>
              simp only [hwidths, memory, pure, Except.pure]
              cases hwrite : cache.write layerIndex outputSlot key value with
              | error error => rfl
              | ok cache' =>
                  obtain ⟨hsized, -⟩ := hcache.of_write h hwrite
                  obtain ⟨entries, hentries, hlen, hgather⟩ :=
                    hsized.gather_eq (F := F) h hlayer hslots
                  simp only [hentries, hgather, hlen, bind, Except.bind]
                  cases checkCapacity keyWidth valueWidth slots.length with
                  | error error => rfl
                  | ok u =>
                      simp only [pure, Except.pure]
                      cases attendFull layer.attention config.fullAttention query slots.length
                        (entries.flatMap Prod.fst) (entries.flatMap Prod.snd) <;> rfl

theorem forwardLayers_eq_stepLayers (h : Stores layout keyWidth valueWidth)
    (hcache : Sized layout keyWidth valueWidth cache) {layers : List (DenseDecoderLayerWeights F)}
    (hlayers : layerIndex + layers.length ≤ layout.runtime.numLayers)
    (hslots : ∀ slot ∈ slots, slot < layout.slotCount) :
    forwardLayers config position outputSlot slots layerIndex layers cache hidden =
      Causal.stepLayers (memory F) position outputSlot slots layerIndex
        (layers.map (causalLayer keyWidth valueWidth config)) hidden cache := by
  induction layers generalizing layerIndex cache hidden with
  | nil => rfl
  | cons layer layers ih =>
      rw [List.length_cons] at hlayers
      rw [forwardLayers, List.map_cons, Causal.stepLayers,
        forwardLayer_eq_step h hcache (by omega) hslots]
      have hsized : Sized layout keyWidth valueWidth
          ((causalLayer keyWidth valueWidth config layer).step (memory F) layerIndex position
            outputSlot slots hidden cache).1 := by
        obtain hsame | ⟨entry, hwrite⟩ := (causalLayer keyWidth valueWidth config layer).step_fst
          (memory F) layerIndex position outputSlot slots hidden cache
        · rwa [hsame]
        · exact (hcache.of_write h hwrite).1
      rcases hstep : (causalLayer keyWidth valueWidth config layer).step (memory F) layerIndex
        position outputSlot slots hidden cache with ⟨cache', result⟩
      rw [hstep] at hsized
      cases result with
      | error error => rfl
      | ok hidden' => exact ih hsized (by omega)

/-- **A token is a step of the network**, if its slot is the one that the sequence has for its
position. -/
theorem forwardToken_eq_step (decoder : CpuReferenceDenseDecoder F)
    (h : Stores layout keyWidth valueWidth) (hcache : Sized layout keyWidth valueWidth cache)
    (hlayers : decoder.layers.length ≤ layout.runtime.numLayers)
    (hslots : ∀ slot ∈ slots, slot < layout.slotCount) (tokenId : UInt32)
    (hslot : slots[position]? = some outputSlot) :
    decoder.forwardToken cache tokenId position outputSlot slots =
      (decoder.network keyWidth valueWidth).step (memory F) position tokenId outputSlot
        (slots.take (position + 1)) cache := by
  simp only [forwardToken, Causal.Network.step, network, hslot, ne_eq, not_true_eq_false, if_false]
  split_ifs with hposition
  · rfl
  · cases decoder.tokenEmbeddings.row tokenId with
    | error error => rfl
    | ok hidden =>
        cases hrotary : decoder.rotaryEmbedding with
        | error error => rfl
        | ok rotaryEmbedding =>
            simp only [bind, Except.bind, pure, Except.pure]
            rw [forwardLayers_eq_stepLayers h hcache (by omega) fun slot hmem =>
              hslots slot (List.mem_of_mem_take hmem)]
            rcases Causal.stepLayers .. with ⟨cache', error | hidden'⟩ <;> rfl

/-- A token whose slot is another one is rejected. -/
theorem forwardToken_of_mismatch (decoder : CpuReferenceDenseDecoder F) (tokenId : UInt32)
    (hslot : slots[position]? ≠ some outputSlot) :
    ∃ error, decoder.forwardToken cache tokenId position outputSlot slots =
      (cache, .error error) := by
  rw [forwardToken]
  split_ifs
  · exact ⟨_, rfl⟩
  · exact ⟨_, rfl⟩

end Step

end CpuReferenceDenseDecoder

end Decoder

end SglangRs
