import SglangRs.Scheduler.Atomicity
import SglangRs.Scheduler.WorkerBatch

/-!
# Slots and tokens of a request

A request has a slot for every token processed so far and for every token of the chunk it is
prepared for. This file follows the two counts through the life of a request. Undoing a preparation
takes away as many slots as were allocated; the one slot in which the last token of a fully cached
prompt is replayed was not allocated, and stays. A request rolled back in that state has one slot
too many in every later batch. So has one that is put on the decode queue because the transfer state
of its chunk could not be read.

## Main definitions

* `ScheduledRequest.WaitingLengths`, `ScheduledRequest.ChunkLengths`,
  `ScheduledRequest.TokenLengths`, `ScheduledRequest.DecodeLengths`: the counts at each stage.
* `Lengths`: the counts of all requests.
* `Guard.lengths`: the moves that keep them.

## Main results

* `Move.lengths`: every move that meets the guard keeps the counts.
* `formed_batch_lengths`: in every run that meets the guard the counts of a formed batch are right
  and the model runner accepts the batch.
-/

namespace SglangRs

open Transition Scheduler

variable {W : Type}

namespace ScheduledRequest

/-- A waiting request has the slots of the processed part of its prompt. -/
structure WaitingLengths (r : ScheduledRequest) : Prop where
  stage_eq : r.stage = .prefillWaiting
  outputs_eq : r.outputIds = []
  allocated_eq : r.allocatedCachePages = []
  processed_le : r.promptTokensProcessed ≤ r.inputIds.length
  sequence_eq : r.promptTokensProcessed ≠ 0 →
    r.sequenceCachePages.length = r.promptTokensProcessed
  prefix_le : r.prefixCachePages.length ≤ r.promptTokensProcessed
  uncached_eq : r.inputIds.length ≤ r.promptTokensProcessed → r.uncachedInputIds = []

/-- A request prepared for a prompt chunk also has the slots of the chunk, the last ones it has. -/
structure ChunkLengths (r : ScheduledRequest) : Prop where
  outputs_eq : r.outputIds = []
  chunk_le : r.promptTokensProcessed + r.currentChunkLen ≤ r.inputIds.length
  sequence_eq : r.sequenceCachePages.length = r.promptTokensProcessed + r.currentChunkLen
  forward_suffix : r.forwardCachePages <:+ r.sequenceCachePages
  forward_eq : r.forwardCachePages.length = r.currentChunkLen
  allocated_eq : r.allocatedCachePages = r.forwardCachePages ∨ r.allocatedCachePages = []
  prefix_le : r.prefixCachePages.length ≤ r.promptTokensProcessed
  uncached_eq : r.inputIds.length ≤ r.promptTokensProcessed → r.uncachedInputIds = []
  chunk_eq_zero : r.currentChunkLen = 0 → r.inputIds.length ≤ r.promptTokensProcessed

/-- A request prepared for its next token has a slot for every token. -/
structure TokenLengths (r : ScheduledRequest) : Prop where
  sequence_eq : r.sequenceCachePages.length = r.inputIds.length + r.outputIds.length
  forward_suffix : r.forwardCachePages <:+ r.sequenceCachePages
  forward_eq : r.forwardCachePages.length = 1
  allocated_eq : r.allocatedCachePages = r.forwardCachePages

/-- A request on the decode queue has a slot for every token but the last. -/
def DecodeLengths (r : ScheduledRequest) : Prop :=
  r.sequenceCachePages.length + 1 = r.inputIds.length + r.outputIds.length

/-- A request whose chunk was executed has the slots of the processed part of its prompt. -/
structure ExecutedLengths (r : ScheduledRequest) : Prop where
  outputs_eq : r.outputIds = []
  processed_le : r.promptTokensProcessed ≤ r.inputIds.length
  sequence_eq : r.sequenceCachePages.length = r.promptTokensProcessed
  prefix_le : r.prefixCachePages.length ≤ r.promptTokensProcessed

variable {r r' : ScheduledRequest} {s s' : Scheduler W}

/-! ### One request -/

theorem waitingLengths_new (n : NewRequest) : n.toScheduled.WaitingLengths :=
  ⟨rfl, rfl, rfl, Nat.zero_le _, fun h => absurd rfl h, le_rfl, fun h => by
    have hnil : n.inputIds = [] := List.eq_nil_of_length_eq_zero (Nat.le_zero.mp h)
    exact hnil⟩

/-- Attaching a prefix that is not replayed. -/
theorem WaitingLengths.withPrefix (h : r.WaitingLengths) (hnot : ¬s.Replays r) :
    (s.withPrefix r).WaitingLengths ∧
      (s.withPrefix r).sequenceCachePages.length = (s.withPrefix r).promptTokensProcessed := by
  by_cases h0 : r.promptTokensProcessed = 0
  · have hseq := sequenceCachePages_withPrefix (s := s) h0
    obtain ⟨hmatch, hrem⟩ := prefixMatch_withPrefix (s := s) h0
    have hprocessed : (s.withPrefix r).promptTokensProcessed =
        (s.lookupPrefix r.inputIds).matchedTokenCount := by
      rcases promptTokensProcessed_withPrefix (s := s) h0 with ⟨-, h⟩ | ⟨hrep, -⟩
      · exact h
      · exact absurd hrep hnot
    have hlength : (s.withPrefix r).sequenceCachePages.length =
        (s.withPrefix r).promptTokensProcessed := by
      rw [hseq, hprocessed, length_lookupPrefix]
    refine ⟨⟨by simpa using h.stage_eq, by simpa using h.outputs_eq, by simpa using h.allocated_eq,
      ?_, fun _ => hlength, hmatch.le, fun hle => ?_⟩, hlength⟩
    · rw [hprocessed, inputIds_withPrefix]
      exact s.matchedTokenCount_lookupPrefix_le r.inputIds
    · rw [inputIds_withPrefix] at hle
      rw [uncachedInputIds, hrem, List.drop_eq_nil_iff]
      exact hle
  · rw [withPrefix_of_ne h0]
    exact ⟨h, h.sequence_eq h0⟩

/-- The allocator returns as many slots as asked for. -/
theorem length_of_allocateForSequence {p : ℕ} (hs : HasPages p s.cachePageAllocator)
    {seq slots : List ℕ} {n : ℕ} (h : s.allocateForSequence seq n = .ok (s', slots)) :
    slots.length = n := by
  obtain ⟨_, _, _, -, -, hfresh⟩ := hs.allocates h
  exact hfresh.length_slots

/-- Preparing a chunk. -/
theorem WaitingLengths.chunkLengths (h : r.WaitingLengths) {p : ℕ}
    (hs : HasPages p s.cachePageAllocator) {k : ℕ} (hk : k ≠ 0)
    (hp : s.preparePrefillRequestChunk r k = (s', r', .ok ())) : r'.ChunkLengths := by
  obtain ⟨hrep, rfl, -, rfl⟩ | ⟨hnot, slots, halloc, -, rfl⟩ | ⟨-, _, -, -, -, hres⟩ :=
    preparePrefillRequestChunk_cases hp
  · obtain ⟨h0, -, hne, hall⟩ := replays_iff.mp hrep
    have hseq := sequenceCachePages_withPrefix (s := s') h0
    obtain ⟨hmatch, hrem⟩ := prefixMatch_withPrefix (s := s') h0
    have hpos := List.length_pos_of_ne_nil hne
    obtain ⟨hnot, -⟩ | ⟨-, hprocessed, x, hforward, hlast⟩ :=
      promptTokensProcessed_withPrefix (s := s') h0
    · exact absurd hrep hnot
    rw [hall] at hprocessed
    refine ⟨by simpa using h.outputs_eq, ?_, ?_, ?_, ?_, ?_, hmatch.le, fun hle => ?_,
      fun h1 => absurd h1 (by simp)⟩
    · simp only [hprocessed, inputIds_withPrefix]
      omega
    · simp only [hseq, length_lookupPrefix, hall, hprocessed]
      omega
    · simp only [hforward]
      obtain ⟨front, hfront⟩ := List.getLast?_eq_some_iff.mp hlast
      exact ⟨front, hfront.symm⟩
    · simp [hforward]
    · right
      simpa using h.allocated_eq
    · simp only [inputIds_withPrefix, hprocessed] at hle
      omega
  · obtain ⟨hwait, hseq⟩ := h.withPrefix hnot
    have hlength := length_of_allocateForSequence hs halloc
    have hle := hwait.processed_le
    have hchunk : (s.withPrefix r).promptTokensProcessed +
        min (s.withPrefix r).remainingPromptTokens k ≤ (s.withPrefix r).inputIds.length := by
      unfold remainingPromptTokens
      omega
    refine ⟨hwait.outputs_eq, hchunk, ?_, List.suffix_append _ _, hlength, .inl rfl,
      hwait.prefix_le, hwait.uncached_eq, fun h0 => ?_⟩
    · simp [recordAllocation, hseq, hlength]
    · change min (s.withPrefix r).remainingPromptTokens k = 0 at h0
      change (s.withPrefix r).inputIds.length ≤ (s.withPrefix r).promptTokensProcessed
      unfold remainingPromptTokens at h0
      omega
  · cases hres

/-- Undoing the preparation of a chunk, unless a replayed token is left behind. -/
theorem ChunkLengths.waitingLengths (h : r.ChunkLengths)
    (hg : r.allocatedCachePages = [] → r.forwardCachePages = [] ∨ r.promptTokensProcessed = 0) :
    (r.clearForwardCacheAllocation.setStage .prefillWaiting).WaitingLengths := by
  have hseq := h.sequence_eq
  have hforward := h.forward_eq
  refine ⟨rfl, h.outputs_eq, rfl, (Nat.le_add_right _ _).trans h.chunk_le, fun hne => ?_,
    h.prefix_le, h.uncached_eq⟩
  change r.promptTokensProcessed ≠ 0 at hne
  change (if r.allocatedCachePages.length > 0 then
    r.sequenceCachePages.take (r.sequenceCachePages.length - r.allocatedCachePages.length)
    else r.sequenceCachePages).length = r.promptTokensProcessed
  rcases h.allocated_eq with heq | hnil
  · rw [heq]
    split_ifs with hpos
    · rw [List.length_take]
      omega
    · omega
  · rw [hnil, if_neg (by simp)]
    have hempty := (hg hnil).resolve_right hne
    rw [hempty] at hforward
    simp at hforward
    omega

/-- The request could not be prepared and goes back as it is. -/
theorem WaitingLengths.clear (h : r.WaitingLengths) :
    (r.clearForwardCacheAllocation.setStage .prefillWaiting).WaitingLengths := by
  have hseq : r.clearForwardCacheAllocation.sequenceCachePages = r.sequenceCachePages := by
    simp [clearForwardCacheAllocation, h.allocated_eq]
  exact ⟨rfl, h.outputs_eq, rfl, h.processed_le,
    fun hne => (congrArg _ hseq).trans (h.sequence_eq hne), h.prefix_le, h.uncached_eq⟩

/-- Preparing the next token. -/
theorem DecodeLengths.tokenLengths (h : r.DecodeLengths) {p : ℕ}
    (hs : HasPages p s.cachePageAllocator) (hp : s.prepareDecodeRequest r = (s', r', .ok ())) :
    (r'.setStage .decodeForward).TokenLengths := by
  obtain ⟨slots, halloc, rfl, -⟩ | ⟨_, -, -, -, hres⟩ := prepareDecodeRequest_cases hp
  · have hlength := length_of_allocateForSequence hs halloc
    refine ⟨?_, List.suffix_append _ _, hlength, rfl⟩
    unfold DecodeLengths at h
    simp only [setStage, recordAllocation, List.length_append, hlength]
    omega
  · cases hres

theorem TokenLengths.decodeLengths_clear (h : r.TokenLengths) :
    (r.clearForwardCacheAllocation.setStage .decodeWaiting).DecodeLengths := by
  have hseq := h.sequence_eq
  have hforward := h.forward_eq
  unfold DecodeLengths
  simp only [setStage, clearForwardCacheAllocation, h.allocated_eq, hforward]
  simp only [gt_iff_lt, zero_lt_one, if_true, List.length_take]
  have hle := h.forward_suffix.length_le
  omega

/-- The chunk was executed. -/
theorem ChunkLengths.executedLengths (h : r.ChunkLengths) : r.advanceChunk.ExecutedLengths := by
  have hchunk : forwardedChunkLen r = r.currentChunkLen := by
    unfold forwardedChunkLen
    split_ifs with hpos
    · rfl
    · have h0 : r.currentChunkLen = 0 := by omega
      rw [h.uncached_eq (h.chunk_eq_zero h0), h0]
      rfl
  have hle := h.chunk_le
  have hprocessed : r.advanceChunk.promptTokensProcessed =
      r.promptTokensProcessed + r.currentChunkLen := by
    simp only [advanceChunk, advancePromptTokens, hchunk]
    omega
  refine ⟨h.outputs_eq, ?_, ?_, ?_⟩
  · rw [hprocessed]
    exact hle
  · rw [hprocessed]
    exact h.sequence_eq
  · rw [hprocessed]
    exact h.prefix_le.trans (Nat.le_add_right _ _)

theorem ExecutedLengths.waitingLengths (h : r.ExecutedLengths)
    (hc : r.isPrefillComplete = false) : r.awaitChunk.WaitingLengths := by
  have hlt : r.promptTokensProcessed < r.inputIds.length := by
    simpa [isPrefillComplete] using hc
  refine ⟨rfl, h.outputs_eq, rfl, h.processed_le, fun _ => h.sequence_eq, h.prefix_le,
    fun hle => ?_⟩
  exact absurd hlt (not_lt_of_ge hle)

theorem ExecutedLengths.decodeLengths (h : r.ExecutedLengths) (hc : r.isPrefillComplete = true)
    {tokenIds : List UInt32} (hone : tokenIds.length = 1) :
    r.sequenceCachePages.length + 1 = r.inputIds.length + (r.outputIds ++ tokenIds).length := by
  have hle : r.inputIds.length ≤ r.promptTokensProcessed := by
    simpa [isPrefillComplete] using hc
  have hle' := h.processed_le
  rw [h.outputs_eq, h.sequence_eq, List.nil_append, hone]
  omega

end ScheduledRequest

/-! ### All requests -/

theorem Scheduler.Sound.hasPages {s : Scheduler W} (h : s.Sound)
    (hsome : s.cachePageAllocator ≠ none) : HasPages s.pageSize s.cachePageAllocator := by
  obtain ⟨a, ha⟩ := Option.ne_none_iff_exists'.mp hsome
  exact ⟨a, ha, h.valid a ha, by rw [pageSize, ha]⟩

/-- The counts of a request of the batch being formed or executed. -/
def ScheduledRequest.TakenLengths (r : ScheduledRequest) : Prop :=
  match r.stage with
  | .prefillForward => r.ChunkLengths
  | .decodeForward => r.TokenLengths
  | _ => r.WaitingLengths

theorem ScheduledRequest.WaitingLengths.takenLengths {r : ScheduledRequest}
    (h : r.WaitingLengths) : r.TakenLengths := by
  rw [TakenLengths, h.stage_eq]
  exact h

/-- The counts of a request that has been executed. -/
def ScheduledRequest.DoneLengths (r : ScheduledRequest) : Prop :=
  match r.stage with
  | .prefillForward => r.ExecutedLengths
  | _ => r.TokenLengths

/-- The counts of all requests, over a scheduler with an allocator that forwards at least one token
at a time. -/
structure Lengths (c : Config W) : Prop where
  sound : c.scheduler.Sound
  allocator : c.scheduler.cachePageAllocator ≠ none
  chunk_ne_zero : c.scheduler.chunkedPrefillSize ≠ some 0
  waiting : ∀ r ∈ c.scheduler.waitingQueue, r.WaitingLengths
  decode : ∀ r ∈ c.scheduler.decodeQueue, r.DecodeLengths
  taken : ∀ r ∈ c.taken, r.TakenLengths
  executed : ∀ r ∈ c.executed, r.DoneLengths

/-- The moves that keep the counts. The worker generates one token for a request and no batch is
left unexecuted on the decode queue; a replayed token is not rolled back, and the transfer state of
every chunk can be read. -/
def Guard.lengths : Guard W where
  rollBack r :=
    r.allocatedCachePages = [] → r.forwardCachePages = [] ∨ r.promptTokensProcessed = 0
  stageError _ _ := False
  park _ _ := False
  token tokenIds := tokenIds.length = 1

namespace ScheduledRequest

variable {r : ScheduledRequest}

/-- A request put back at the head of the waiting queue. -/
theorem TakenLengths.undoPrefill (h : r.TakenLengths) (hr : r.stage ≠ .decodeForward)
    (hg : r.allocatedCachePages = [] → r.forwardCachePages = [] ∨ r.promptTokensProcessed = 0) :
    (r.clearForwardCacheAllocation.setStage .prefillWaiting).WaitingLengths := by
  unfold TakenLengths at h
  cases hstage : r.stage with
  | prefillForward =>
    rw [hstage] at h
    exact h.waitingLengths hg
  | decodeForward => exact absurd hstage hr
  | prefillWaiting | decodeWaiting | finished =>
    rw [hstage] at h
    exact h.clear

/-- A request taken for decoding. -/
theorem TakenLengths.token (h : r.TakenLengths) (hr : r.stage = .decodeForward) :
    r.TokenLengths := by
  rwa [TakenLengths, hr] at h

/-- A request whose chunk has been executed. -/
theorem TakenLengths.doneLengths (h : r.TakenLengths) (hr : r.stage = .prefillForward) :
    r.advanceChunk.DoneLengths := by
  have hstage : r.advanceChunk.stage = .prefillForward := hr
  rw [TakenLengths, hr] at h
  rw [DoneLengths, hstage]
  exact h.executedLengths

/-- The token of an executed request is counted with its outputs. -/
theorem DoneLengths.append_token (h : r.DoneLengths)
    (hc : r.stage = .prefillForward → r.isPrefillComplete = true) {tokenIds : List UInt32}
    (hone : tokenIds.length = 1) :
    r.sequenceCachePages.length + 1 = r.inputIds.length + (r.outputIds ++ tokenIds).length := by
  unfold DoneLengths at h
  cases hstage : r.stage with
  | prefillForward =>
    rw [hstage] at h
    exact h.decodeLengths (hc hstage) hone
  | prefillWaiting | decodeWaiting | decodeForward | finished =>
    rw [hstage] at h
    rw [h.sequence_eq, List.length_append, hone, add_assoc]

end ScheduledRequest

/-- The counts of a request, by its place. -/
def countedPlaces : Places where
  waiting := ScheduledRequest.WaitingLengths
  decode := ScheduledRequest.DecodeLengths
  taken := ScheduledRequest.TakenLengths
  executed := ScheduledRequest.DoneLengths

/-- What the guarded moves do to a request keeps its counts. -/
theorem countedPlaces_carried (p : ℕ) : countedPlaces.Carried (W := W) Guard.lengths
    fun _ allocator chunk => HasPages p allocator ∧ chunk ≠ some 0 where
  submit n _ := ScheduledRequest.waitingLengths_new n
  prepare {s s' r r' k} hp hs hk hr := by
    have hchunk := ScheduledRequest.WaitingLengths.chunkLengths hr hs.1 (hk hs.2) hp
    show r'.TakenLengths
    rwa [ScheduledRequest.TakenLengths, stage_of_preparePrefillRequestChunk hp]
  attach hnot _ hr := (ScheduledRequest.WaitingLengths.withPrefix hr hnot).1
  wait hr := ScheduledRequest.WaitingLengths.takenLengths hr
  undoPrefill hstage hg hr := ScheduledRequest.TakenLengths.undoPrefill hr hstage hg
  prepareDecode hp hs hr := ScheduledRequest.DecodeLengths.tokenLengths hr hs.1 hp
  undoDecode hstage hr :=
    (ScheduledRequest.TakenLengths.token hr hstage).decodeLengths_clear
  park hg _ := absurd hg id
  executeDecode {r} hstage hr := by
    show r.DoneLengths
    rw [ScheduledRequest.DoneLengths, hstage]
    exact ScheduledRequest.TakenLengths.token hr hstage
  chunk hstage hr := ScheduledRequest.TakenLengths.doneLengths hr hstage
  stageError hg _ := absurd hg id
  requeueChunk {r} hstage hincomplete hr := by
    have hdone : r.DoneLengths := hr
    rw [ScheduledRequest.DoneLengths, hstage] at hdone
    exact hdone.waitingLengths hincomplete
  requeueToken hcomplete hg hr :=
    ScheduledRequest.DoneLengths.append_token hr hcomplete hg
  finishError hcomplete hg hr :=
    ScheduledRequest.DoneLengths.append_token hr hcomplete hg

/-- **Every move that meets the guard keeps the counts.** -/
theorem Move.lengths {c c' : Config W} (h : Move Guard.lengths c c') (hc : Lengths c) :
    Lengths c' := by
  have hpages := hc.sound.hasPages hc.allocator
  obtain ⟨hwaiting, hdecode, htaken, hexecuted⟩ := h.places (countedPlaces_carried _)
    ⟨hpages, hc.chunk_ne_zero⟩ ⟨hc.waiting, hc.decode, hc.taken, hc.executed⟩
  exact ⟨h.sound hc.sound, (h.hasPages hpages).ne_none,
    h.settings_eq.1 ▸ hc.chunk_ne_zero, hwaiting, hdecode, htaken, hexecuted⟩

/-! ### Formed batches -/

namespace Lengths

variable {s : Scheduler W}

/-- The requests of a prefill batch. A request rolled back by the budget is not among them. -/
theorem nextPrefillBatch (h : Lengths s.idle) {m u : ℕ} {s' : Scheduler W} {batch : ScheduleBatch}
    (hb : s.nextPrefillBatchWithTokenBudget m u = (s', .ok batch)) :
    ∀ r ∈ batch.requests, r.TakenLengths := by
  have hscan (remaining : ℕ) := (s.moves_prefillScan (G := Guard.lengths) m u remaining).invariant
    (fun _ _ => Move.lengths) h
  cases formsPrefill hb with
  | @cut remaining _ _ _ _ _ =>
    exact fun x hx => (hscan remaining).taken x (List.mem_append_right _ hx)
  | @closed remaining _ _ _ _ hexit hclose =>
    have hlengths := hscan remaining
    rw [hexit] at hlengths
    have hclosed := hclose.moves (G := Guard.lengths)
      fun _ => s.chunkBudget_ne_zero h.chunk_ne_zero
    exact (hclosed.invariant (fun _ _ => Move.lengths) hlengths).taken

variable [WorkerExecutor W]

/-- The requests of a formed batch. -/
theorem form (h : Lengths s.idle) (hs : s.WaitingStaged) {former : Former} {s' : Scheduler W}
    {batch : ScheduleBatch} (hform : former.form s = (s', .ok batch)) :
    ∀ r ∈ batch.requests, r.TakenLengths := by
  have hmoves (hg : Guard.lengths.AdmitsForm s former) : ∀ r ∈ batch.requests, r.TakenLengths := by
    have hmoves := moves_form s former hs hg
    rw [hform] at hmoves
    exact (hmoves.invariant (fun _ _ => Move.lengths) h).taken
  cases former with
  | prefill m u => exact h.nextPrefillBatch hform
  | decode m => exact hmoves fun _ _ => trivial
  | decodeWhenReady m isReady => exact hmoves trivial
  | mixed m b => exact hmoves fun _ _ => trivial

end Lengths

/-- The contribution of a prompt chunk to the batch of the model runner. -/
theorem ScheduledRequest.ChunkLengths.fits {r : ScheduledRequest} (h : r.ChunkLengths) :
    r.FitsPrefill := by
  have hstart : r.chunkStart = r.promptTokensProcessed := max_eq_left h.prefix_le
  have hchunk : (if r.currentChunkLen > 0 then r.currentChunkLen else r.uncachedInputIds.length) =
      r.currentChunkLen := by
    split_ifs with hpos
    · rfl
    · have h0 : r.currentChunkLen = 0 := by omega
      rw [h.uncached_eq (h.chunk_eq_zero h0), h0]
      rfl
  have hend : r.chunkEnd = r.promptTokensProcessed + r.currentChunkLen := by
    rw [chunkEnd, hstart, hchunk]
    exact min_eq_left h.chunk_le
  refine ⟨?_, ?_⟩
  · rw [hend, hstart, h.forward_eq]
    omega
  · rw [hend, h.sequence_eq]

variable [WorkerExecutor W]

/-- **Slots and tokens agree in every formed batch.** In every run over a scheduler with an
allocator whose operations meet the guard, a request prepared for a prompt chunk has a slot for
every token up to the end of the chunk, a request prepared for its next token has one for every
token of its prompt and its outputs, the slots to be written are the last ones of the sequence, and
the model runner accepts the batch. -/
theorem formed_batch_lengths (worker : W) {slotCapacity pageSize : ℕ} {a : CachePageAllocator}
    (ha : CachePageAllocator.withPageSize slotCapacity pageSize = .ok a)
    (policy : PrefixCachePolicy) {chunk : Option ℕ} (hchunk : chunk ≠ some 0)
    (maxRunning : Option ℕ) {ops : List (Operation W)}
    (hops : Along Scheduler.step Guard.lengths.Admits
      (Scheduler.withCacheResourcesAndPolicy worker a policy chunk maxRunning) ops)
    {former : Former} {s' : Scheduler W} {batch : ScheduleBatch}
    (hform : former.form (ops.foldl Scheduler.step
      (Scheduler.withCacheResourcesAndPolicy worker a policy chunk maxRunning)) =
        (s', .ok batch)) :
    (∀ r ∈ batch.requests,
      (r.stage = .prefillForward ∧
        r.sequenceCachePages.length = r.promptTokensProcessed + r.currentChunkLen ∨
      r.stage = .decodeForward ∧
        r.sequenceCachePages.length = r.inputIds.length + r.outputIds.length) ∧
      r.forwardCachePages <:+ r.sequenceCachePages) ∧
    validateModelWorkerBatch (ModelWorkerBatch.fromScheduleBatch batch) = .ok () := by
  have hinit : Lengths
      (Scheduler.withCacheResourcesAndPolicy worker a policy chunk maxRunning).idle := by
    refine ⟨New.sound ⟨rfl, rfl, rfl, fun a' ha' => ⟨slotCapacity, pageSize, ?_⟩⟩,
      by simp [Scheduler.idle, withCacheResourcesAndPolicy], hchunk,
      by simp [Scheduler.idle, withCacheResourcesAndPolicy],
      by simp [Scheduler.idle, withCacheResourcesAndPolicy], by simp [Scheduler.idle],
      by simp [Scheduler.idle]⟩
    rw [← Option.some.inj ha']
    exact ha
  obtain ⟨hstaged, hlengths⟩ := run_invariant (fun _ _ => Move.lengths) hops
    (by simp [WaitingStaged, withCacheResourcesAndPolicy]) hinit
  have htaken := hlengths.form hstaged hform
  have hstages := staged_form _ former hstaged hform
  refine ⟨fun r hr => ?_, validate_fromScheduleBatch hstages (fun r hr hstage => ?_)
    fun r hr hstage => ?_⟩
  · have hr' := htaken r hr
    unfold ScheduledRequest.TakenLengths at hr'
    rcases hstages r hr with ⟨hstage, -⟩ | ⟨hstage, -⟩
    · rw [hstage] at hr'
      exact ⟨.inl ⟨hstage, hr'.sequence_eq⟩, hr'.forward_suffix⟩
    · rw [hstage] at hr'
      exact ⟨.inr ⟨hstage, hr'.sequence_eq⟩, hr'.forward_suffix⟩
  · have hr' := htaken r hr
    rw [ScheduledRequest.TakenLengths, hstage] at hr'
    exact hr'.fits
  · have hr' := htaken r hr
    rw [ScheduledRequest.TakenLengths, hstage] at hr'
    exact ⟨hr'.forward_eq, hr'.sequence_eq⟩

/-- The whole prompt of `c` is cached when it is prepared together with `b`; the token budget rolls
it back. When it is prepared alone it has three slots, for a prompt of two tokens. -/
theorem lengths_differ_after_replay_rolled_back :
    let s := [.submit "a" [1, 2] 3, .dispatch (.prefill 1 8), .submit "b" [5] 3,
      .submit "c" [1, 2] 3, .dispatch (.prefill 2 1)].foldl Scheduler.step
        (Scheduler.scripted {} 1 8)
    ∃ s' r, (Former.prefill 1 8).form s = (s', .ok (.prefill [r])) ∧
      r.stage = .prefillForward ∧ r.sequenceCachePages = [0, 1, 3] ∧
      r.promptTokensProcessed = 1 ∧ r.currentChunkLen = 1 ∧
      r.sequenceCachePages.length ≠ r.promptTokensProcessed + r.currentChunkLen := by
  refine ⟨_, _, rfl, rfl, rfl, rfl, rfl, by decide⟩

/-- The theorem applied to a run with two chunks of a prompt. -/
theorem formed_batch_lengths_of_second_chunk :
    let s := [.submit "a" [1, 2, 3] 3, .dispatch (.prefill 1 8)].foldl Scheduler.step
      (Scheduler.scripted {} 1 8 .enabled (some 2))
    ∃ s' batch, (Former.prefill 1 8).form s = (s', .ok batch) ∧
      validateModelWorkerBatch (ModelWorkerBatch.fromScheduleBatch batch) = .ok () := by
  have ha : CachePageAllocator.withPageSize 8 1 = .ok ⟨8, 1, List.range 8, ∅⟩ := rfl
  have hchunk : some 2 ≠ some 0 := by decide
  have hops : Along Scheduler.step Guard.lengths.Admits (Scheduler.scripted {} 1 8 .enabled (some 2))
      [.submit "a" [1, 2, 3] 3, .dispatch (.prefill 1 8)] := by
    refine ⟨trivial, ⟨fun r hr => absurd hr List.not_mem_nil, ?_⟩, trivial⟩
    exact ⟨⟨trivial, fun h => absurd h (by decide)⟩, trivial⟩
  exact ⟨_, _, rfl, (@formed_batch_lengths ScriptedWorker _ {} 8 1 _ ha .enabled _ hchunk none _ hops
    (.prefill 1 8) _ _ rfl).2⟩

end SglangRs
