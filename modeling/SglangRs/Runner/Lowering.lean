import SglangRs.Runner.InputDescriptor
import SglangRs.Scheduler.Lengths

/-!
# The two flattenings in a run of the scheduler

In every run over a scheduler with an allocator a request of a formed batch has as many slots to be
written as its chunk has tokens, and the prefix match kept with it stands for the part of its prompt
found at the first match, however many chunks were processed since. So the descriptor of the graph
runner agrees with the batch of the model runner on a formed batch if and only if every prompt is
forwarded in one chunk behind its cached prefix and every request that decodes has generated a token
before.

## Main definitions

* `ScheduledRequest.PromptKept`: the prefix match of a request stands for a processed part of its
  prompt.
* `keptPlaces`: the invariant, over all requests of a configuration.

## Main results

* `keptPlaces_carried`: every move keeps the invariant.
* `formed_batch_agrees_iff`: when the two flattenings of a formed batch agree.
-/

namespace SglangRs

open Transition Scheduler

variable {W : Type}

/-! ### One request -/

namespace ScheduledRequest

/-- The prefix match of a request that has generated no token stands for a processed part of its
prompt. -/
structure PromptKept (r : ScheduledRequest) : Prop where
  outputs_eq : r.outputIds = []
  processed_le : r.promptTokensProcessed ≤ r.inputIds.length
  matched_le : r.forwardPrefixTokenCount ≤ r.promptTokensProcessed
  uncached_eq : r.uncachedInputIds = r.inputIds.drop r.forwardPrefixTokenCount
  prefix_eq : r.prefixCachePages.length = r.forwardPrefixTokenCount

variable {r r' : ScheduledRequest} {s s' : Scheduler W}

theorem promptKept_new (n : NewRequest) : n.toScheduled.PromptKept :=
  ⟨rfl, Nat.zero_le _, le_rfl, rfl, rfl⟩

theorem ChunkAllocated.promptKept (h : r.ChunkAllocated) : r.PromptKept :=
  ⟨h.outputs_eq, (Nat.le_add_right _ _).trans h.chunk_le, h.matched_le, h.uncached_eq, h.prefix_eq⟩

/-- Putting a request back changes neither its prompt nor its prefix match. -/
theorem PromptKept.clear (h : r.PromptKept) (stage : RequestStage) :
    (r.clearForwardCacheAllocation.setStage stage).PromptKept :=
  ⟨h.outputs_eq, h.processed_le, h.matched_le, h.uncached_eq, h.prefix_eq⟩

theorem PromptKept.awaitChunk (h : r.PromptKept) : r.awaitChunk.PromptKept :=
  ⟨h.outputs_eq, h.processed_le, h.matched_le, h.uncached_eq, h.prefix_eq⟩

/-- Processed chunks leave the prefix match behind. -/
theorem PromptKept.advanceChunk (h : r.PromptKept) : r.advanceChunk.PromptKept := by
  refine ⟨h.outputs_eq, min_le_right _ _, ?_, h.uncached_eq, h.prefix_eq⟩
  exact le_min (h.matched_le.trans (Nat.le_add_right _ _)) (h.matched_le.trans h.processed_le)

/-- The prefix attached to a request stands for the processed part of its prompt. -/
theorem forwardPrefixTokenCount_withPrefix (h0 : r.promptTokensProcessed = 0) :
    (s.withPrefix r).forwardPrefixTokenCount = (s.withPrefix r).promptTokensProcessed := by
  unfold forwardPrefixTokenCount Scheduler.withPrefix attachPrefixMatch
  rw [if_pos h0]
  dsimp only
  split_ifs <;> rfl

/-- Attaching a prefix, replayed or not. -/
theorem PromptKept.withPrefix (h : r.PromptKept) : (s.withPrefix r).PromptKept := by
  by_cases h0 : r.promptTokensProcessed = 0
  · obtain ⟨hpages, huncached⟩ := prefixMatch_withPrefix (s := s) h0
    have hmatched := forwardPrefixTokenCount_withPrefix (s := s) h0
    have hle := s.matchedTokenCount_lookupPrefix_le r.inputIds
    have hprocessed : (s.withPrefix r).promptTokensProcessed ≤ r.inputIds.length := by
      obtain ⟨-, h⟩ | ⟨-, h, -⟩ := promptTokensProcessed_withPrefix (s := s) h0
      · omega
      · omega
    refine ⟨by simpa using h.outputs_eq, by simpa using hprocessed, hmatched.le, ?_, ?_⟩
    · rw [uncachedInputIds, huncached, hmatched, inputIds_withPrefix]
    · rw [prefixCachePages, hpages, hmatched]
  · rw [withPrefix_of_ne h0]
    exact h

/-- Preparing a chunk allocates its slots. -/
theorem PromptKept.chunkAllocated (h : r.PromptKept) {p : ℕ}
    (hs : HasPages p s.cachePageAllocator) {k : ℕ}
    (hp : s.preparePrefillRequestChunk r k = (s', r', .ok ())) : r'.ChunkAllocated := by
  have hkept := h.withPrefix (s := s)
  obtain ⟨hrep, rfl, -, rfl⟩ | ⟨-, slots, halloc, -, rfl⟩ | ⟨-, _, -, -, -, hres⟩ :=
    preparePrefillRequestChunk_cases hp
  · obtain ⟨h0, -, hne, hall⟩ := replays_iff.mp hrep
    have hpos := List.length_pos_of_ne_nil hne
    obtain ⟨hnot, -⟩ | ⟨-, hprocessed, x, hforward, -⟩ :=
      promptTokensProcessed_withPrefix (s := s') h0
    · exact absurd hrep hnot
    refine ⟨hkept.outputs_eq, ?_, hkept.matched_le, hkept.uncached_eq, hkept.prefix_eq, ?_⟩
    · simp only [hprocessed, hall, inputIds_withPrefix]
      omega
    · simp only [hforward, List.length_singleton]
  · have hlength := length_of_allocateForSequence hs halloc
    have hchunk : (s.withPrefix r).promptTokensProcessed +
        min (s.withPrefix r).remainingPromptTokens k ≤ (s.withPrefix r).inputIds.length := by
      have hle := hkept.processed_le
      unfold remainingPromptTokens
      omega
    exact ⟨hkept.outputs_eq, hchunk, hkept.matched_le, hkept.uncached_eq, hkept.prefix_eq, hlength⟩
  · cases hres

/-- A waiting request. -/
structure WaitingKept (r : ScheduledRequest) : Prop where
  stage_eq : r.stage = .prefillWaiting
  kept : r.PromptKept

/-- A request of the batch being formed or executed. -/
structure TakenKept (r : ScheduledRequest) : Prop where
  kept : r.stage ≠ .decodeForward → r.PromptKept
  chunk : r.stage = .prefillForward → r.ChunkAllocated
  token : r.stage = .decodeForward → r.forwardCachePages.length = 1

theorem ChunkAllocated.takenKept (h : r.ChunkAllocated) (hstage : r.stage = .prefillForward) :
    r.TakenKept :=
  ⟨fun _ => h.promptKept, fun _ => h, fun hd => by simp [hstage] at hd⟩

theorem WaitingKept.takenKept (h : r.WaitingKept) : r.TakenKept :=
  ⟨fun _ => h.kept, fun hp => by simp [h.stage_eq] at hp, fun hd => by simp [h.stage_eq] at hd⟩

/-- Preparing the next token allocates its slot. -/
theorem takenKept_of_prepareDecodeRequest {p : ℕ} (hs : HasPages p s.cachePageAllocator)
    (hp : s.prepareDecodeRequest r = (s', r', .ok ())) :
    (r'.setStage .decodeForward).TakenKept := by
  obtain ⟨slots, halloc, rfl, -⟩ | ⟨_, -, -, -, hres⟩ := prepareDecodeRequest_cases hp
  · have hlength := length_of_allocateForSequence hs halloc
    exact ⟨fun hne => absurd rfl hne, fun hp => by simp [setStage] at hp, fun _ => hlength⟩
  · cases hres

end ScheduledRequest

/-! ### All requests -/

/-- The prefix match of a request that is still in its prompt, by its place. -/
def keptPlaces : Places where
  waiting := ScheduledRequest.WaitingKept
  decode _ := True
  taken := ScheduledRequest.TakenKept
  executed r := r.stage = .prefillForward → r.PromptKept

/-- What a move does to a request keeps its prefix match. -/
theorem keptPlaces_carried (G : Guard W) (p : ℕ) :
    keptPlaces.Carried G fun _ allocator _ => HasPages p allocator where
  submit n _ := ⟨rfl, ScheduledRequest.promptKept_new n⟩
  prepare hp hs _ hr := by
    have hchunk := (ScheduledRequest.WaitingKept.kept hr).chunkAllocated hs hp
    exact hchunk.takenKept (stage_of_preparePrefillRequestChunk hp)
  attach _ _ hr := by
    obtain ⟨hstage, hkept⟩ := hr
    exact ⟨by simpa using hstage, hkept.withPrefix⟩
  wait hr := ScheduledRequest.WaitingKept.takenKept hr
  undoPrefill hstage _ hr := by
    have hkept := ScheduledRequest.TakenKept.kept hr hstage
    exact ⟨rfl, hkept.clear .prefillWaiting⟩
  prepareDecode hp hs _ := ScheduledRequest.takenKept_of_prepareDecodeRequest hs hp
  undoDecode _ _ := trivial
  park _ _ := trivial
  executeDecode hstage _ hp := by simp [hstage] at hp
  chunk hstage hr _ := (ScheduledRequest.TakenKept.chunk hr hstage).promptKept.advanceChunk
  stageError _ _ := trivial
  requeueChunk hstage _ hr := by
    have hkept := hr hstage
    exact ⟨rfl, hkept.awaitChunk⟩
  requeueToken _ _ _ := trivial
  finishError _ _ _ := trivial

/-! ### Formed batches -/

section Runs

variable [WorkerExecutor W] (worker : W) {slotCapacity pageSize : ℕ} {a : CachePageAllocator}
  (policy : PrefixCachePolicy) (chunk maxRunning : Option ℕ)

/-- The requests of a batch formed in a run have the property of the requests taken, if what the
moves do to a request leads from place to place. -/
theorem taken_of_form {P : Places}
    (hP : P.Carried (W := W) (Guard.submitting fun _ => True)
      fun _ allocator _ => HasPages pageSize allocator)
    (ha : CachePageAllocator.withPageSize slotCapacity pageSize = .ok a) (ops : List (Operation W))
    {former : Former} {s' : Scheduler W} {batch : ScheduleBatch}
    (hform : former.form (ops.foldl Scheduler.step
      (Scheduler.withCacheResourcesAndPolicy worker a policy chunk maxRunning)) =
        (s', .ok batch)) : batch.Staged ∧ ∀ r ∈ batch.requests, P.taken r := by
  have hmove (c c' : Config W) (h : Move (Guard.submitting fun _ => True) c c')
      (hc : HasPages pageSize c.scheduler.cachePageAllocator ∧ P.Hold c) :
      HasPages pageSize c'.scheduler.cachePageAllocator ∧ P.Hold c' :=
    ⟨h.hasPages hc.1, h.places hP hc.1 hc.2⟩
  have hpages : HasPages pageSize (some a) :=
    ⟨a, rfl, CachePageAllocator.valid_withPageSize ha, CachePageAllocator.pageSize_withPageSize ha⟩
  have hinit : P.Hold
      (Scheduler.withCacheResourcesAndPolicy worker a policy chunk maxRunning).idle := by
    constructor <;> simp [Scheduler.idle, withCacheResourcesAndPolicy]
  have hadmits : Along Scheduler.step (Guard.submitting fun _ => True).Admits
      (Scheduler.withCacheResourcesAndPolicy worker a policy chunk maxRunning) ops :=
    along_of_forall (fun s op => Guard.admits_submitting s op fun _ _ => trivial) _ ops
  obtain ⟨hstaged, hhold⟩ := run_invariant hmove hadmits
    (by simp [WaitingStaged, withCacheResourcesAndPolicy]) ⟨hpages, hinit⟩
  have hmoves := moves_form (G := Guard.submitting fun _ => True) _ former hstaged
    (Guard.admitsForm_submitting _ _)
  rw [hform] at hmoves
  exact ⟨staged_form _ former hstaged hform, (hmoves.invariant hmove hhold).2.taken⟩

/-- The requests of a batch formed in a run have the slots of their chunk or token. -/
theorem allocated_of_form
    (ha : CachePageAllocator.withPageSize slotCapacity pageSize = .ok a) (ops : List (Operation W))
    {former : Former} {s' : Scheduler W} {batch : ScheduleBatch}
    (hform : former.form (ops.foldl Scheduler.step
      (Scheduler.withCacheResourcesAndPolicy worker a policy chunk maxRunning)) =
        (s', .ok batch)) :
    batch.Staged ∧ ∀ r ∈ batch.requests, r.Allocated := by
  obtain ⟨hstages, htaken⟩ := taken_of_form worker policy chunk maxRunning
    (keptPlaces_carried _ pageSize) ha ops hform
  refine ⟨hstages, fun r hr => ?_⟩
  have hkept : r.TakenKept := htaken r hr
  unfold ScheduledRequest.Allocated
  split_ifs with hstage
  · exact hkept.token hstage
  · rcases hstages r hr with ⟨hprefill, -⟩ | ⟨hdecode, -⟩
    · exact hkept.chunk hprefill
    · exact absurd hdecode hstage

/-- **The two flattenings of a formed batch agree exactly if every prompt is forwarded whole.** In
every run over a scheduler with an allocator the graph runner describes every formed batch. The
descriptor and the batch of the model runner have the same tokens, positions and slots, as many of
each, if and only if every request in its prompt is at its first chunk and the chunk reaches the end
of the prompt, and every request that decodes has generated a token, or its prompt ends in the token
that the model runner takes instead. -/
theorem formed_batch_agrees_iff
    (ha : CachePageAllocator.withPageSize slotCapacity pageSize = .ok a) (ops : List (Operation W))
    {former : Former} {s' : Scheduler W} {batch : ScheduleBatch}
    (hform : former.form (ops.foldl Scheduler.step
      (Scheduler.withCacheResourcesAndPolicy worker a policy chunk maxRunning)) =
        (s', .ok batch)) {blockSize : ℕ} (hblock : blockSize ≠ 0) :
    (∃ d, ModelInputDescriptor.fromScheduleBatch batch blockSize = .ok d ∧
        d.Agrees (ModelWorkerBatch.fromScheduleBatch batch)) ↔
      ∀ r ∈ batch.requests, r.LoweredAlike := by
  obtain ⟨hstaged, hallocated⟩ := allocated_of_form worker policy chunk maxRunning ha ops hform
  have hok : ModelInputDescriptor.fromScheduleBatch batch blockSize =
      .ok (ModelInputDescriptor.describe batch blockSize) := by
    have hne := requests_ne_nil_of_form hform
    unfold ModelInputDescriptor.fromScheduleBatch
    rw [if_neg (by simpa using hne), if_neg hblock]
  constructor
  · rintro ⟨d, hd, hagrees⟩
    obtain rfl := Except.ok.inj (hok.symm.trans hd)
    exact (agrees_iff hstaged hallocated).1 hagrees
  · exact fun halike => ⟨_, hok, (agrees_iff hstaged hallocated).2 halike⟩

end Runs

/-- The second chunk of a prompt of three tokens is one token, written to one slot. The descriptor
has the whole prompt, at the positions of the whole prompt, and the one slot. -/
theorem descriptor_differs_on_second_chunk :
    let s := [.submit "a" [1, 2, 3] 3, .dispatch (.prefill 1 8)].foldl Scheduler.step
      (Scheduler.scripted {} 1 8 .enabled (some 2))
    ∃ s' batch d, (Former.prefill 1 8).form s = (s', .ok batch) ∧
      ModelInputDescriptor.fromScheduleBatch batch 1 = .ok d ∧
      (d.inputIds, d.positions, d.slotMapping) = ([1, 2, 3], [0, 1, 2], [2]) ∧
      (ModelWorkerBatch.fromScheduleBatch batch).inputIds = [3] ∧
      ¬d.Agrees (ModelWorkerBatch.fromScheduleBatch batch) := by
  refine ⟨_, _, _, rfl, rfl, rfl, rfl, fun h => ?_⟩
  exact absurd h.length_slotMapping (by decide)

/-- The theorem applied to a run in which one request decodes and the prompt of another, its first
two tokens cached, is forwarded beside it. -/
theorem formed_batch_agrees_of_mixed :
    let s := [.submit "a" [1, 2] 3, .dispatch (.prefill 1 8), .submit "b" [1, 2, 4, 5] 3].foldl
      Scheduler.step (Scheduler.scripted {} 1 8)
    ∃ s' batch, (Former.mixed 2 8).form s = (s', .ok batch) ∧
      ∃ d, ModelInputDescriptor.fromScheduleBatch batch 1 = .ok d ∧
        d.Agrees (ModelWorkerBatch.fromScheduleBatch batch) := by
  have ha : CachePageAllocator.withPageSize 8 1 = .ok ⟨8, 1, List.range 8, ∅⟩ := rfl
  refine ⟨_, _, rfl, ?_⟩
  refine (@formed_batch_agrees_iff ScriptedWorker _ {} 8 1 _ .enabled none none ha
    [.submit "a" [1, 2] 3, .dispatch (.prefill 1 8), .submit "b" [1, 2, 4, 5] 3] (.mixed 2 8) _ _
    rfl 1 one_ne_zero).mpr ?_
  decide

end SglangRs
