import SglangRs.Cache.KvCacheModel
import SglangRs.Runner.Sampler
import SglangRs.Serving.Generation

/-!
# Runs of a server

A server of the CPU reference is a scheduler whose worker runs a dense decoder on a KV cache, with an
allocator of the slots of the cache (`server.rs`, lines 1163–1203). What it computes for a request
does not depend on anything else that is served: the logits of a batch are those of the decoder for
the tokens of each request, and the tokens returned for a prompt are picked from them. So two servers
of one model give a greedy request the same tokens, as far as both give any.

## Main definitions

* `CpuReferenceModel`: a dense decoder with the geometry of its KV cache.
* `CpuReferenceServer`: the resources of a server of a model.
* `CpuReferenceServer.scheduler`: the scheduler of a server.

## Main results

* `served_batch_forwards_iff`: when a batch is forwarded, and with which logits.
* `served_logits_agree`: the same tokens have the same logits, on any two servers.
* `served_tokens_chosen`: where the tokens come from that a run returns.
* `greedy_runs_agree`: a greedy request has the same tokens on any two servers.
-/

namespace SglangRs

open CpuReferenceKvCache Scheduler Transition

/-- A dense decoder with the geometry of its KV cache. -/
structure CpuReferenceModel (F : Type) where
  decoder : CpuReferenceDenseDecoder F
  kvCacheLayout : KvCacheModelLayout
  isBuilt : kvCacheLayout.IsBuilt
  length_layers_le : decoder.layers.length ≤ kvCacheLayout.numLayers

/-- The resources of a server of a model. The sampling parameters of a request are told by its id.

Source: `server.rs`, lines 1163–1203, and `model_registry.rs`, lines 240–262. -/
structure CpuReferenceServer {F : Type} (model : CpuReferenceModel F) (R : Type) where
  config : KvCacheAllocationConfig
  kvCache : CpuReferenceKvCache
  allocator : CachePageAllocator
  random : R
  samplingOf : RequestId → SamplingConfig F
  stops : ScheduledRequest → UInt32 → Bool
  prefixCachePolicy : PrefixCachePolicy
  chunkedPrefillSize : Option ℕ
  maxRunningRequests : Option ℕ
  allocated : allocateCpuActiveKvCache model.kvCacheLayout config = .ok kvCache
  withPageSize_eq :
    CachePageAllocator.withPageSize config.slotCapacity config.pageSize = .ok allocator
  chunk_ne_zero : chunkedPrefillSize ≠ some 0

/-- The worker of a server. -/
abbrev CpuReferenceRunner (F R : Type) : Type :=
  ModelRunner (BackendExecutionBundle (CpuReferenceDenseDecoder F) CpuReferenceKvCache)
    (LogitSampler F R)

section Server

variable {F R : Type} {model : CpuReferenceModel F} (server : CpuReferenceServer model R)

namespace CpuReferenceServer

/-- The scheduler of a server. -/
def scheduler : Scheduler (CpuReferenceRunner F R) :=
  Scheduler.withCacheResourcesAndPolicy
    { model := ⟨model.decoder, server.kvCache⟩
      sampler := ⟨server.random, fun request => server.samplingOf request.requestId⟩
      stops := server.stops }
    server.allocator server.prefixCachePolicy server.chunkedPrefillSize server.maxRunningRequests

theorem kvCache_eq : server.kvCache = ⟨model.kvCacheLayout.floatLayout server.config,
    List.replicate (model.kvCacheLayout.floatLayout server.config).totalByteLen 0,
    model.kvCacheLayout.widths.1, model.kvCacheLayout.widths.2⟩ :=
  (model.isBuilt.allocateCpuActiveKvCache_eq_ok.mp server.allocated).2

theorem length_layers_le :
    model.decoder.layers.length ≤ server.kvCache.layout.runtime.numLayers := by
  rw [server.kvCache_eq]
  exact model.length_layers_le

variable [KernelFloat F]

theorem represents : Stores server.kvCache.layout model.kvCacheLayout.widths.1
      model.kvCacheLayout.widths.2 ∧
    Sized server.kvCache.layout model.kvCacheLayout.widths.1 model.kvCacheLayout.widths.2
      server.kvCache := by
  obtain ⟨hbuilt, hnew⟩ := KvCacheModelLayout.built_of_allocateCpuActiveKvCache server.allocated
  obtain ⟨hstores, hrepresents⟩ := represents_of_new (F := F) hbuilt hnew
  have hkey : server.kvCache.keyWidth = model.kvCacheLayout.widths.1 :=
    congrArg CpuReferenceKvCache.keyWidth server.kvCache_eq
  have hvalue : server.kvCache.valueWidth = model.kvCacheLayout.widths.2 :=
    congrArg CpuReferenceKvCache.valueWidth server.kvCache_eq
  rw [← hkey, ← hvalue]
  exact ⟨hstores, hrepresents.sized⟩

/-! ### The causal model of a server -/

variable [LinearOrder F]

/-- The decoder and the cache of a server. -/
def causalModel : CausalModel CpuReferenceKvCache (List F) (AttentionQuery F) (List F × List F) F :=
  model.decoder.causalModel server.represents.1 server.length_layers_le

/-- The tokens that the sampler of a server may pick. -/
abbrev picks (id : RequestId) (tokens : List UInt32) (logits : List F) (t : UInt32) : Prop :=
  (server.samplingOf id).MaySample tokens logits t

/-- What a runner of the server keeps: the decoder and the sampling parameters. -/
abbrev Loaded (runner : CpuReferenceRunner F R) : Prop :=
  runner.model.executor = model.decoder ∧
    ∀ request : ScheduledRequest,
      runner.sampler.samplingOf request = server.samplingOf request.requestId

theorem implements : server.causalModel.Implements
    (fun bundle : BackendExecutionBundle (CpuReferenceDenseDecoder F) CpuReferenceKvCache =>
      bundle.executor = model.decoder) BackendExecutionBundle.resources :=
  model.decoder.implements server.represents.1 server.length_layers_le

variable [SamplingRandomSource R F]

theorem runBy : server.causalModel.RunBy server.picks server.Loaded
    fun runner : CpuReferenceRunner F R => runner.model.resources :=
  ModelRunner.runBy server.implements (LogitSampler.picks server.samplingOf)

omit [SamplingRandomSource R F] in
/-- The scheduler of a server before its run. -/
theorem serving : server.causalModel.Serving server.Loaded
    (fun runner : CpuReferenceRunner F R => runner.model.resources) server.config.pageSize
    server.scheduler := by
  have hcapacity : server.allocator.slotCapacity = server.kvCache.layout.slotCount := by
    obtain ⟨a, ha, hslots, -⟩ := KvCacheModelLayout.exists_allocator server.allocated
    obtain rfl := Except.ok.inj (ha.symm.trans server.withPageSize_eq)
    rw [server.kvCache_eq]
    exact hslots
  refine ⟨by simp [WaitingStaged, scheduler, withCacheResourcesAndPolicy],
    plain_withCacheResourcesAndPolicy _ _ _ _ _,
    ownership_withCacheResourcesAndPolicy _ server.withPageSize_eq _ server.chunk_ne_zero _,
    ⟨_, le_rfl, congrArg some hcapacity⟩, ⟨rfl, fun _ => rfl⟩, server.represents.2, ?_⟩
  refine ⟨fun w x h => ?_, List.forall_mem_nil _, List.forall_mem_nil _⟩
  cases (RadixCache.slotAt_default w).symm.trans h

end CpuReferenceServer

end Server

/-- A run in which the requests are plain and the model is not replaced. -/
structure PlainRun {W : Type} (ops : List (Operation W)) : Prop where
  plain : ∀ op ∈ ops, op.Plain
  keeps : ∀ op ∈ ops, ∀ worker, op ≠ .updateWorker worker

/-- The tokens up to the last one that is forwarded. -/
def ScheduledRequest.forwardedTokens (r : ScheduledRequest) : List UInt32 :=
  (r.inputIds ++ r.outputIds).take r.forwardEnd

theorem ScheduledRequest.length_forwardedTokens (r : ScheduledRequest) :
    r.forwardedTokens.length = r.forwardEnd := by
  rw [forwardedTokens, List.length_take, List.length_append, min_eq_left]
  rw [forwardEnd]
  split_ifs
  · exact le_rfl
  · exact r.chunkEnd_le.trans (Nat.le_add_right _ _)

theorem ScheduledRequest.tokenAt_of_lt_forwardEnd {r : ScheduledRequest} {i : ℕ}
    (h : i < r.forwardEnd) : r.tokenAt i = r.forwardedTokens.getD i 0 := by
  rw [tokenAt, forwardedTokens, List.getD_eq_getElem?_getD, List.getD_eq_getElem?_getD,
    List.getElem?_take_of_lt h]

/-! ### A small server -/

/-- A matrix of one number. -/
def octalMatrix (rows columns : ℕ) (value : OctalFloat) : FloatMatrix OctalFloat where
  rows := rows
  columns := columns
  values := List.replicate (rows * columns) value
  bias := none
  length_values := List.length_replicate

/-- A decoder of one layer, with four tokens. -/
def octalDecoder : CpuReferenceDenseDecoder OctalFloat where
  hiddenSize := 2
  maxPositionEmbeddings := 8
  rmsNormEps := 1
  ropeTheta := 1
  activation := .silu
  queryHeadCount := 1
  kvHeadCount := 1
  headDim := 2
  intermediateSize := 1
  tokenEmbeddings := ⟨4, 2, [0, 1, 2, 3, 4, 5, 6, 7], none, rfl⟩
  finalNorm := [1, 1]
  lmHead := none
  layers := [
    { inputNorm := [1, 1]
      attention :=
        { query := octalMatrix 2 2 1
          queryNorm := none
          key := octalMatrix 2 2 1
          keyNorm := none
          value := octalMatrix 2 2 1
          output := octalMatrix 2 2 1 }
      postAttentionNorm := [1, 1]
      feedForward := ⟨octalMatrix 1 2 1, octalMatrix 1 2 1, octalMatrix 2 1 1⟩ }]

def octalModel : CpuReferenceModel OctalFloat where
  decoder := octalDecoder
  kvCacheLayout := .multiTensor 1 1 2 2
  isBuilt := .multiTensor 1 1 2 2
  length_layers_le := le_rfl

/-- A server with eight slots, whose requests are greedy. -/
def octalServer (chunkedPrefillSize : Option ℕ) (h : chunkedPrefillSize ≠ some 0) :
    CpuReferenceServer octalModel Unit where
  config := ⟨8, 1⟩
  kvCache := ⟨octalModel.kvCacheLayout.floatLayout ⟨8, 1⟩, List.replicate 128 0, 2, 2⟩
  allocator := ⟨8, 1, List.range 8, ∅⟩
  random := ()
  samplingOf := fun _ => ⟨none, none, none, none, none, none, none⟩
  stops := fun _ _ => false
  prefixCachePolicy := .enabled
  chunkedPrefillSize := chunkedPrefillSize
  maxRunningRequests := none
  allocated := by
    refine octalModel.isBuilt.allocateCpuActiveKvCache_eq_ok.mpr ⟨⟨le_rfl, ?_⟩, rfl⟩
    constructor <;> decide
  withPageSize_eq := rfl
  chunk_ne_zero := h

/-- A prompt is submitted. -/
def octalOps : List (Operation (CpuReferenceRunner OctalFloat Unit)) :=
  [.submit "a" [1, 2, 3] 2]

/-- A prompt is submitted after another one has been served. -/
def octalServedOps : List (Operation (CpuReferenceRunner OctalFloat Unit)) :=
  [.submit "b" [1, 2] 1, .dispatch (.prefill 8 8), .submit "a" [1, 2, 3] 2]

theorem plainRun_octalOps : PlainRun octalOps := by
  constructor <;> simp [octalOps, Operation.submit, Operation.Plain]

theorem plainRun_octalServedOps : PlainRun octalServedOps := by
  constructor <;> simp [octalServedOps, Operation.submit, Operation.Plain]

/-- A prompt is served alone. -/
def octalRun : List (Operation (CpuReferenceRunner OctalFloat Unit)) :=
  octalOps ++ [.dispatch (.prefill 8 8), .dispatch (.prefill 8 8), .dispatch (.decode 8)]

/-- A prompt is served after another one. -/
def octalServedRun : List (Operation (CpuReferenceRunner OctalFloat Unit)) :=
  octalServedOps ++ [.dispatch (.prefill 8 8), .dispatch (.decode 8)]

theorem plainRun_octalRun : PlainRun octalRun := by
  constructor <;> simp [octalRun, octalOps, Operation.submit, Operation.Plain]

theorem plainRun_octalServedRun : PlainRun octalServedRun := by
  constructor <;> simp [octalServedRun, octalServedOps, Operation.submit, Operation.Plain]

/-- A batch formed after some operations is forwarded, and its first request is for the prompt
`1, 2, 3`, from the position `start` on. -/
def OctalForwards (ops : List (Operation (CpuReferenceRunner OctalFloat Unit))) (start : ℕ)
    (s : Scheduler (CpuReferenceRunner OctalFloat Unit)) (batch : ScheduleBatch)
    (output : ModelForwardOutput OctalFloat) : Prop :=
  (Former.prefill 8 8).form (ops.foldl Scheduler.step (octalServer none nofun).scheduler) =
      (s, .ok batch) ∧
    (ForwardModel.forward s.worker.model (.fromScheduleBatch batch)).2 = .ok output ∧
    ∃ r logits, batch.requests[0]? = some r ∧ output.logits[0]? = some logits ∧
      r.forwardedTokens = [1, 2, 3] ∧ r.forwardStart = start

/-- The whole prompt is forwarded. -/
theorem octal_forwards : ∃ s batch output, OctalForwards octalOps 0 s batch output :=
  ⟨_, _, _, rfl, rfl, _, _, rfl, rfl, rfl, rfl⟩

/-- The first two tokens of the prompt are found in the prefix cache. -/
theorem octal_forwards_last : ∃ s batch output, OctalForwards octalServedOps 2 s batch output :=
  ⟨_, _, _, rfl, rfl, _, _, rfl, rfl, rfl, rfl⟩

/-! ### Batches -/

section Results

variable {F R R' : Type} [KernelFloat F] [LinearOrder F] [SamplingRandomSource R F]
  [SamplingRandomSource R' F] {model : CpuReferenceModel F}

/-- The decoder as a causal network. -/
def CpuReferenceModel.network (model : CpuReferenceModel F) :
    Causal.Network CpuReferenceDenseDecoderError UInt32 (List F) (AttentionQuery F)
      (List F × List F) (List F) :=
  model.decoder.network model.kvCacheLayout.widths.1 model.kvCacheLayout.widths.2

/-- A batch formed in a run. -/
theorem CpuReferenceServer.formed (server : CpuReferenceServer model R)
    {ops : List (Operation (CpuReferenceRunner F R))} (hops : PlainRun ops) {former : Former}
    {s' : Scheduler (CpuReferenceRunner F R)} {batch : ScheduleBatch}
    (hform : former.form (ops.foldl Scheduler.step server.scheduler) = (s', .ok batch)) :
    server.causalModel.Formed server.Loaded (fun runner => runner.model.resources)
      server.config.pageSize s' batch.requests ∧ batch.Staged := by
  have hserving := server.serving.run server.runBy hops.plain hops.keeps
  exact ⟨hserving.form server.runBy hform, staged_form _ former hserving.staged hform⟩

/-- **When a formed batch is forwarded, and with which logits.** In every run over plain requests the
model forwards a formed batch exactly if every request has tokens to be forwarded, with the slots of
its sequence, and the decoder has logits for each of them; the logits of a request are those that the
decoder computes from scratch for its tokens up to there. -/
theorem served_batch_forwards_iff (server : CpuReferenceServer model R)
    {ops : List (Operation (CpuReferenceRunner F R))} (hops : PlainRun ops) {former : Former}
    {s' : Scheduler (CpuReferenceRunner F R)} {batch : ScheduleBatch}
    (hform : former.form (ops.foldl Scheduler.step server.scheduler) = (s', .ok batch))
    (output : ModelForwardOutput F) :
    (ForwardModel.forward s'.worker.model (.fromScheduleBatch batch)).2 = .ok output ↔
      (∀ r ∈ batch.requests, r.forwardCachePages ≠ [] ∧
        CausalModel.Aligned r.forwardStart r.forwardCachePages r.forwardSequence ∧
        ∀ i, r.forwardStart ≤ i → i < r.forwardEnd →
          ∃ logits, model.network.output r.tokenAt i = .ok logits) ∧
      List.Forall₂ (fun r logits => model.network.output r.tokenAt (r.forwardEnd - 1) = .ok logits)
        batch.requests output.logits := by
  obtain ⟨hformed, hstaged⟩ := server.formed hops hform
  have hall := hformed.forwardedAll hstaged
  rw [server.implements.forward_eq _ _ hformed.loaded.1, hformed.forwardBatch_eq hstaged]
  dsimp only
  constructor
  · intro hok
    obtain ⟨rows, hrows, hnew⟩ := Except.bind_eq_ok.mp hok
    obtain rfl := CausalModel.logits_of_new hnew
    exact ⟨hall.ok_iff.mp ⟨_, hrows⟩, hall.output _ hrows⟩
  · rintro ⟨hrequests, hlogits⟩
    obtain ⟨rows, hrows⟩ := hall.ok_iff.mpr hrequests
    obtain rfl : rows = output.logits :=
      List.right_unique_forall₂' (fun _ _ _ h h' => Except.ok.inj (h.symm.trans h'))
        (hall.output rows hrows) hlogits
    exact Except.bind_eq_ok.mpr ⟨_, hrows, ModelForwardOutput.new_eq_ok output.valid⟩

omit [KernelFloat F] [LinearOrder F] [SamplingRandomSource R F] [SamplingRandomSource R' F] in
/-- The theorem applied to a prompt of which all but the last token are found in the prefix cache. -/
theorem served_batch_forwards_of_cached_prefix :
    ∃ s batch output, OctalForwards octalServedOps 2 s batch output ∧
      List.Forall₂ (fun r logits =>
        octalModel.network.output r.tokenAt (r.forwardEnd - 1) = .ok logits)
        batch.requests output.logits := by
  obtain ⟨s, batch, output, hforwards⟩ := octal_forwards_last
  exact ⟨s, batch, output, hforwards, ((served_batch_forwards_iff (octalServer none nofun)
    plainRun_octalServedOps hforwards.1 output).mp hforwards.2.1).2⟩

/-- The logits of a forwarded request are those of the tokens up to there. -/
theorem CpuReferenceServer.output_eq (server : CpuReferenceServer model R)
    {ops : List (Operation (CpuReferenceRunner F R))} (hops : PlainRun ops) {former : Former}
    {s' : Scheduler (CpuReferenceRunner F R)} {batch : ScheduleBatch}
    (hform : former.form (ops.foldl Scheduler.step server.scheduler) = (s', .ok batch))
    {output : ModelForwardOutput F}
    (houtput : (ForwardModel.forward s'.worker.model (.fromScheduleBatch batch)).2 = .ok output)
    {i : ℕ} {r : ScheduledRequest} {logits : List F} (hr : batch.requests[i]? = some r)
    (hlogits : output.logits[i]? = some logits) :
    model.network.output (r.forwardedTokens.getD · 0) (r.forwardedTokens.length - 1) =
      .ok logits := by
  obtain ⟨hformed, hstaged⟩ := server.formed hops hform
  rw [server.implements.forward_eq _ _ hformed.loaded.1] at houtput
  obtain ⟨hi, rfl⟩ := List.getElem?_eq_some_iff.mp hr
  obtain ⟨hi', rfl⟩ := List.getElem?_eq_some_iff.mp hlogits
  have hpos := hformed.forwardEnd_pos hstaged houtput (List.getElem_mem hi)
  rw [ScheduledRequest.length_forwardedTokens]
  refine Eq.trans (Causal.Network.output_congr fun j hj => ?_)
    ((hformed.logits hstaged houtput).get hi hi')
  exact (ScheduledRequest.tokenAt_of_lt_forwardEnd (by omega)).symm

/-- **The same tokens have the same logits.** Two requests of batches formed in runs over plain
requests have the same logits if the tokens up to there are the same. The servers of the model may
differ in everything else, so may the other requests, the chunks of the prompts, and what was found
in the prefix caches. -/
theorem served_logits_agree (server : CpuReferenceServer model R)
    (server' : CpuReferenceServer model R')
    {ops : List (Operation (CpuReferenceRunner F R))}
    {ops' : List (Operation (CpuReferenceRunner F R'))}
    (hops : PlainRun ops) (hops' : PlainRun ops') {former former' : Former}
    {s : Scheduler (CpuReferenceRunner F R)} {s' : Scheduler (CpuReferenceRunner F R')}
    {batch batch' : ScheduleBatch} {output output' : ModelForwardOutput F}
    (hform : former.form (ops.foldl Scheduler.step server.scheduler) = (s, .ok batch))
    (hform' : former'.form (ops'.foldl Scheduler.step server'.scheduler) = (s', .ok batch'))
    (houtput : (ForwardModel.forward s.worker.model (.fromScheduleBatch batch)).2 = .ok output)
    (houtput' :
      (ForwardModel.forward s'.worker.model (.fromScheduleBatch batch')).2 = .ok output')
    {i i' : ℕ} {r r' : ScheduledRequest} {logits logits' : List F}
    (hr : batch.requests[i]? = some r) (hr' : batch'.requests[i']? = some r')
    (hlogits : output.logits[i]? = some logits) (hlogits' : output'.logits[i']? = some logits')
    (htokens : r.forwardedTokens = r'.forwardedTokens) : logits = logits' := by
  have heq := server.output_eq hops hform houtput hr hlogits
  rw [htokens, server'.output_eq hops' hform' houtput' hr' hlogits'] at heq
  exact (Except.ok.inj heq).symm

omit [KernelFloat F] [LinearOrder F] [SamplingRandomSource R F] [SamplingRandomSource R' F] in
/-- The theorem applied to a prompt that is forwarded whole, and to its last token behind a cached
prefix. -/
theorem served_logits_agree_of_cached_prefix :
    ∃ s batch output s' batch' output', OctalForwards octalOps 0 s batch output ∧
      OctalForwards octalServedOps 2 s' batch' output' ∧ output.logits[0]? = output'.logits[0]? := by
  obtain ⟨s, batch, output, hforwards⟩ := octal_forwards
  obtain ⟨s', batch', output', hforwards'⟩ := octal_forwards_last
  refine ⟨s, batch, output, s', batch', output', hforwards, hforwards', ?_⟩
  obtain ⟨hform, houtput, r, logits, hr, hlogits, htokens, -⟩ := hforwards
  obtain ⟨hform', houtput', r', logits', hr', hlogits', htokens', -⟩ := hforwards'
  rw [hlogits, hlogits', served_logits_agree (octalServer none nofun) (octalServer none nofun)
    plainRun_octalOps plainRun_octalServedOps hform hform' houtput houtput' hr hr' hlogits hlogits'
    (htokens.trans htokens'.symm)]

/-! ### Outputs -/

/-- The outputs of a run. -/
theorem CpuReferenceServer.exists_histories (server : CpuReferenceServer model R)
    {ops : List (Operation (CpuReferenceRunner F R))} (hops : PlainRun ops) :
    ∃ histories : Multiset (Ledger.History PromptKey ScheduledOutput),
      Ledger.Divides histories (ops.flatMap Operation.prompted : List PromptKey)
        (emitted Scheduler.step Scheduler.outputs server.scheduler ops) ∧
      ∀ h ∈ histories, PromptHistory (fun id => model.network.Chosen (server.picks id)) h := by
  have hnew : server.causalModel.Told server.picks server.scheduler.idle.generations 0 [] := .empty
  have htold := server.serving.told_run server.runBy hops.plain hops.keeps hnew
  rw [zero_add, List.nil_append] at htold
  exact htold.divides

/-- **Every token returned was picked from the logits of the decoder** for the prompt and the tokens
before it. The outputs of a run over plain requests divide into histories of the prompts submitted,
one for each, and no other outputs; each token of a history is one that the sampling parameters of
its request allow for the logits that the decoder computes from scratch. -/
theorem served_tokens_chosen (server : CpuReferenceServer model R)
    {ops : List (Operation (CpuReferenceRunner F R))} (hops : PlainRun ops) :
    ∃ histories : Multiset (Ledger.History PromptKey ScheduledOutput),
      Ledger.Divides histories (ops.flatMap Operation.prompted : List PromptKey)
        (emitted Scheduler.step Scheduler.outputs server.scheduler ops) ∧
      ∀ h ∈ histories, (∀ o ∈ h.outputs, o.requestId = h.key.1) ∧
        ∀ (j : ℕ) (t : UInt32), (h.content ScheduledOutput.tokenIds)[j]? = some t →
          ∃ k logits, k + 1 = h.key.2.length + j ∧
            model.network.output (Causal.tokensOf (h.key.2 ++ h.content ScheduledOutput.tokenIds))
              k = .ok logits ∧
            (server.samplingOf h.key.1).MaySample
              (h.key.2 ++ (h.content ScheduledOutput.tokenIds).take j) logits t := by
  obtain ⟨histories, hdivides, hall⟩ := server.exists_histories hops
  exact ⟨histories, hdivides, fun h hmem => ⟨(hall h hmem).own, (hall h hmem).right⟩⟩

omit [KernelFloat F] [LinearOrder F] [SamplingRandomSource R F] [SamplingRandomSource R' F] in
/-- The theorem applied to a run that serves two prompts. -/
theorem served_tokens_chosen_of_two_prompts :
    (emitted Scheduler.step Scheduler.outputs (octalServer none nofun).scheduler octalServedRun).map
        (fun o => (o.requestId, o.tokenIds)) = [(⟨"b"⟩, [1]), (⟨"a"⟩, [3]), (⟨"a"⟩, [3])] ∧
      ∃ histories : Multiset (Ledger.History PromptKey ScheduledOutput),
        Ledger.Divides histories
            ([(⟨"b"⟩, [1, 2]), (⟨"a"⟩, [1, 2, 3])] : List PromptKey)
            (emitted Scheduler.step Scheduler.outputs (octalServer none nofun).scheduler
              octalServedRun) ∧
          ∀ h ∈ histories, ∀ o ∈ h.outputs, o.requestId = h.key.1 := by
  obtain ⟨histories, hdivides, hall⟩ :=
    served_tokens_chosen (octalServer none nofun) plainRun_octalServedRun
  exact ⟨rfl, histories, hdivides, fun h hmem => (hall h hmem).1⟩

/-- **A greedy request has the same tokens on any two servers**, as far as both return any. The
outputs of two runs divide into histories of the prompts submitted, and of two histories for one
prompt, with the same sampling parameters and a greedy one, the tokens of one begin with those of
the other. -/
theorem greedy_runs_agree (server : CpuReferenceServer model R)
    (server' : CpuReferenceServer model R')
    {ops : List (Operation (CpuReferenceRunner F R))}
    {ops' : List (Operation (CpuReferenceRunner F R'))} (hops : PlainRun ops)
    (hops' : PlainRun ops') :
    ∃ histories histories' : Multiset (Ledger.History PromptKey ScheduledOutput),
      Ledger.Divides histories (ops.flatMap Operation.prompted : List PromptKey)
        (emitted Scheduler.step Scheduler.outputs server.scheduler ops) ∧
      Ledger.Divides histories' (ops'.flatMap Operation.prompted : List PromptKey)
        (emitted Scheduler.step Scheduler.outputs server'.scheduler ops') ∧
      ∀ h ∈ histories, ∀ h' ∈ histories', h.key.2 = h'.key.2 →
        server.samplingOf h.key.1 = server'.samplingOf h'.key.1 →
        (server.samplingOf h.key.1).isGreedy = true →
          h.content ScheduledOutput.tokenIds <+: h'.content ScheduledOutput.tokenIds ∨
            h'.content ScheduledOutput.tokenIds <+: h.content ScheduledOutput.tokenIds := by
  obtain ⟨histories, hdivides, hall⟩ := server.exists_histories hops
  obtain ⟨histories', hdivides', hall'⟩ := server'.exists_histories hops'
  refine ⟨histories, histories', hdivides, hdivides', ?_⟩
  intro h hmem h' hmem' hprompt hsampling hgreedy
  refine Causal.Network.Chosen.prefix_or_prefix (fun tokens logits t t' ht ht' => ?_)
    (hall h hmem).right (hprompt ▸ (hall' h' hmem').right)
  rw [CpuReferenceServer.picks] at ht ht'
  exact SamplingConfig.MaySample.eq_of_isGreedy hgreedy ht (hsampling ▸ ht')

omit [KernelFloat F] [LinearOrder F] [SamplingRandomSource R F] [SamplingRandomSource R' F] in
/-- The theorem applied to a prompt that is served alone, in chunks, and behind a cached prefix. -/
theorem greedy_runs_agree_of_cached_prefix :
    ∃ histories histories' : Multiset (Ledger.History PromptKey ScheduledOutput),
      Ledger.Divides histories ([(⟨"a"⟩, [1, 2, 3])] : List PromptKey)
        (emitted Scheduler.step Scheduler.outputs (octalServer (some 2) nofun).scheduler octalRun) ∧
      Ledger.Divides histories' ([(⟨"b"⟩, [1, 2]), (⟨"a"⟩, [1, 2, 3])] : List PromptKey)
        (emitted Scheduler.step Scheduler.outputs (octalServer none nofun).scheduler
          octalServedRun) ∧
      ∀ h ∈ histories, ∀ h' ∈ histories', h.key.2 = h'.key.2 →
        h.content ScheduledOutput.tokenIds <+: h'.content ScheduledOutput.tokenIds ∨
          h'.content ScheduledOutput.tokenIds <+: h.content ScheduledOutput.tokenIds := by
  obtain ⟨histories, histories', hdivides, hdivides', hagree⟩ := greedy_runs_agree
    (octalServer (some 2) nofun) (octalServer none nofun) plainRun_octalRun plainRun_octalServedRun
  exact ⟨histories, histories', hdivides, hdivides', fun h hmem h' hmem' hprompt =>
    hagree h hmem h' hmem' hprompt rfl rfl⟩

end Results

end SglangRs
