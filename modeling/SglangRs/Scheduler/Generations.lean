import Mathlib.Tactic.Abel
import SglangRs.Ledger.Records
import SglangRs.Scheduler.Identity
import SglangRs.Scheduler.Tokens

/-!
# Prompts with their tokens

A request is submitted with a prompt, and tokens are generated for it. A move that generates no token
keeps the prompts and the tokens of all requests, or drops a request. When a batch is completed, a
token is added to a request and returned, unless more of the prompt has to be processed. So the
outputs divide into one history for each submission, as long as no error replaces the outputs of a
batch; what holds of the tokens of every request, once they are generated, holds of every history.

## Main definitions

* `ScheduledRequest.generation`: the id, the prompt and the tokens of a request.
* `Tells`: the outputs returned divide into histories of prompts.

## Main results

* `Moves.generations_le`: moves that generate no token.
* `Tells.outcomes`: the requests of a batch.
-/

namespace SglangRs

open Scheduler Transition Ledger

variable {W : Type}

/-- A submission: its id and its prompt. -/
abbrev PromptKey : Type := RequestId × List UInt32

/-- The prompt of a request and the tokens generated for it. -/
def ScheduledRequest.generation (r : ScheduledRequest) : PromptKey × List UInt32 :=
  ((r.requestId, r.inputIds), r.outputIds)

/-- The prompts and the tokens of some requests. -/
def generations (requests : List ScheduledRequest) : Multiset (PromptKey × List UInt32) :=
  (requests.map ScheduledRequest.generation : List _)

@[simp] theorem generations_nil : generations [] = 0 := rfl

@[simp] theorem generations_cons (r : ScheduledRequest) (requests : List ScheduledRequest) :
    generations (r :: requests) = {r.generation} + generations requests := rfl

@[simp] theorem generations_append (requests requests' : List ScheduledRequest) :
    generations (requests ++ requests') = generations requests + generations requests' := by
  simp [generations]

theorem generations_perm {requests requests' : List ScheduledRequest}
    (h : requests.Perm requests') : generations requests = generations requests' :=
  Multiset.coe_eq_coe.mpr (h.map _)

theorem mem_generations {requests : List ScheduledRequest} {r : ScheduledRequest}
    (hr : r ∈ requests) : r.generation ∈ generations requests :=
  Multiset.mem_coe.mpr (List.mem_map_of_mem hr)

/-- The prompts and the tokens of the requests in the queues and in the batch in progress. -/
def Config.generations (c : Config W) : Multiset (PromptKey × List UInt32) :=
  SglangRs.generations c.scheduler.waitingQueue + SglangRs.generations c.scheduler.decodeQueue +
    SglangRs.generations c.taken + SglangRs.generations c.executed

/-! ### Moves that generate no token -/

section Generation

variable {r r' : ScheduledRequest} {s s' : Scheduler W}

@[simp] theorem ScheduledRequest.generation_setStage (stage : RequestStage) :
    (r.setStage stage).generation = r.generation := rfl

@[simp] theorem ScheduledRequest.generation_clearForwardCacheAllocation :
    r.clearForwardCacheAllocation.generation = r.generation := rfl

@[simp] theorem ScheduledRequest.generation_advanceChunk :
    r.advanceChunk.generation = r.generation := rfl

@[simp] theorem ScheduledRequest.generation_awaitChunk :
    r.awaitChunk.generation = r.generation := rfl

theorem ScheduledRequest.generation_awaitDecode (tokenIds : List UInt32) :
    (r.awaitDecode tokenIds).generation = (r.generation.1, r.generation.2 ++ tokenIds) := rfl

theorem generation_of_sameRequest (h : r.SameRequest r') (houtput : r'.outputIds = r.outputIds) :
    r'.generation = r.generation := by
  rw [ScheduledRequest.generation, h.requestId_eq, h.inputIds_eq, houtput,
    ScheduledRequest.generation]

theorem generation_of_preparePrefillRequestChunk {k : ℕ} {result : Except SchedulerError Unit}
    (h : s.preparePrefillRequestChunk r k = (s', r', result)) : r'.generation = r.generation := by
  refine generation_of_sameRequest (sameRequest_of_preparePrefillRequestChunk h) ?_
  obtain ⟨-, -, -, rfl⟩ | ⟨-, _, -, -, rfl⟩ | ⟨-, _, -, -, rfl, -⟩ :=
    preparePrefillRequestChunk_cases h
  all_goals exact s.outputIds_withPrefix r

theorem generation_of_prepareDecodeRequest {result : Except SchedulerError Unit}
    (h : s.prepareDecodeRequest r = (s', r', result)) : r'.generation = r.generation := by
  refine generation_of_sameRequest (sameRequest_of_prepareDecodeRequest h) ?_
  obtain ⟨_, -, rfl, -⟩ | ⟨_, -, -, rfl, -⟩ := prepareDecodeRequest_cases h
  all_goals rfl

end Generation

/-- A move that generates no token keeps the prompts and the tokens, or drops a request. -/
theorem Move.generations_le {c c' : Config W} (h : Move Guard.silent c c') :
    c'.generations ≤ c.generations := by
  cases h with
  | worker => exact le_rfl
  | releasePending | losePending => exact le_rfl
  | publishPending =>
      simp only [Config.generations, idle, publishPrefillChunkCachePages_eq, le_refl]
  | reorder s t d hw hd hp ht =>
      simp only [Config.generations, generations_perm hw, generations_perm hd, generations_perm ht,
        le_refl]
  | enqueue s t d n hg => exact hg.elim
  | takePrefill hq _ hp | takeFailed hq hp | deferFailed hq hp =>
      have heq := generation_of_preparePrefillRequestChunk hp
      obtain ⟨allocator, rfl⟩ := eq_with_allocator_of_preparePrefillRequestChunk hp
      simp only [Config.generations, hq, generations_cons, heq]
      exact le_of_eq (by abel)
  | takeDecode hq hp =>
      have heq := generation_of_prepareDecodeRequest hp
      obtain ⟨allocator, rfl⟩ := eq_with_allocator_of_prepareDecodeRequest hp
      simp only [Config.generations, hq, generations_cons, ScheduledRequest.generation_setStage,
        heq]
      exact le_of_eq (by abel)
  | undoPrefill | undoDecode | park | executeDecode | skipChunk | publishChunk | pendChunk
  | stageError | requeueChunk =>
      simp only [Config.generations, Scheduler.undoPrefill, Scheduler.undoDecode, Scheduler.park,
        release, publishPrefillChunkCachePages_eq, generations_append, generations_cons,
        generations_nil, ScheduledRequest.generation_setStage,
        ScheduledRequest.generation_clearForwardCacheAllocation,
        ScheduledRequest.generation_advanceChunk, ScheduledRequest.generation_awaitChunk]
      exact le_of_eq (by abel)
  | requeueToken _ _ hg => exact hg.elim
  | finish _ _ hg => exact hg.elim
  | finishError _ _ ht _ => exact ht.elim
  | @lose s t d r _ _ | @fail s t d r _ =>
      refine le_of_eq_singleton_add r.generation ?_
      simp only [Config.generations, release, generations_cons]
      abel
  | @abortWaiting s r queue hq | @abortDecode s r queue hq
  | @abortDecodePending s r queue e pending hq _ _ | @failTransfer s r queue e pending hq _ _ _ =>
      refine le_of_eq_singleton_add r.generation ?_
      simp only [Config.generations, idle, releaseRequestCachePages_eq,
        releaseUnpublishedCachePages, release, hq, generations_cons]
      abel
  | flush hw hd =>
      rw [flushCache, if_neg (by simp [hw, hd])]
      exact le_rfl

/-- **Moves that generate no token** drop requests at most. -/
theorem Moves.generations_le {c c' : Config W} (h : Moves Guard.silent c c') :
    c'.generations ≤ c.generations :=
  h.invariant (J := fun c' => c'.generations ≤ c.generations)
    (fun _ _ hmove hle => hmove.generations_le.trans hle) le_rfl

/-! ### Histories of prompts -/

/-- A history of outputs for one request, whose tokens are right for its prompt. -/
structure PromptHistory (Right : RequestId → List UInt32 → List UInt32 → Prop)
    (h : History PromptKey ScheduledOutput) : Prop where
  own : ∀ o ∈ h.outputs, o.requestId = h.key.1
  right : Right h.key.1 h.key.2 (h.content ScheduledOutput.tokenIds)

/-- The outputs returned divide into histories, one for each submission, whose tokens are right for
the prompt. -/
abbrev Tells (Right : RequestId → List UInt32 → List UInt32 → Prop)
    (live : Multiset (PromptKey × List UInt32)) (submitted : Multiset PromptKey)
    (returned : List ScheduledOutput) : Prop :=
  Ledger.Recorded ScheduledOutput.tokenIds (PromptHistory Right) live submitted returned

namespace Tells

variable {Right : RequestId → List UInt32 → List UInt32 → Prop} {live : Multiset (PromptKey × List UInt32)}
  {submitted : Multiset PromptKey} {returned : List ScheduledOutput} {r : ScheduledRequest}
  {generated : GeneratedToken}

/-- The tokens of a request in progress are right. -/
theorem right (h : Tells Right live submitted returned) (hr : r.generation ∈ live) :
    Right r.requestId r.inputIds r.outputIds := by
  obtain ⟨history, hkey, hcontent, -, hright⟩ := h.exists_history hr
  rwa [hkey, hcontent] at hright

/-- A token is returned. -/
theorem token (h : Tells Right (r.generation ::ₘ live) submitted returned) {o : ScheduledOutput}
    (hid : o.requestId = r.requestId) (hright : Right r.requestId r.inputIds (r.outputIds ++ o.tokenIds)) :
    Tells Right (((r.requestId, r.inputIds), r.outputIds ++ o.tokenIds) ::ₘ live) submitted
      (returned ++ [o]) := by
  refine Ledger.Recorded.output h fun outputs hcontent hvalid => ⟨?_, ?_⟩
  · exact List.forall_mem_append.mpr ⟨hvalid.own, List.forall_mem_singleton.mpr hid⟩
  · rwa [History.content_append, hcontent]

/-- The token recorded for a request whose prompt is processed. -/
theorem record (h : Tells Right (r.generation ::ₘ live) submitted returned)
    (hright : Right r.requestId r.inputIds (r.outputIds ++ generated.tokenIds)) :
    Tells Right (generations ((r.recordOutcome generated).waiting ++
        (r.recordOutcome generated).decoding) + live) submitted
      (returned ++ (r.recordOutcome generated).outputs) := by
  unfold ScheduledRequest.recordOutcome
  split_ifs
  · simp only [Outcome.waiting, Outcome.decoding, Outcome.outputs, List.append_nil,
      generations_nil, zero_add]
    exact Ledger.Recorded.drop_one (h.token (o := scheduledOutput r generated true) rfl hright)
  · simp only [Outcome.waiting, Outcome.decoding, Outcome.outputs, List.nil_append,
      generations_cons, generations_nil, add_zero, Multiset.singleton_add,
      ScheduledRequest.generation_awaitDecode]
    exact h.token (o := scheduledOutput r generated false) rfl hright

/-- The outcome of a request of an executed batch. -/
theorem outcome (h : Tells Right (r.generation ::ₘ live) submitted returned)
    (hright : (r.stage = .prefillForward → r.advanceChunk.isPrefillComplete = true) →
      Right r.requestId r.inputIds (r.outputIds ++ generated.tokenIds)) :
    Tells Right (generations ((r.outcome generated).waiting ++ (r.outcome generated).decoding) +
      live) submitted (returned ++ (r.outcome generated).outputs) := by
  unfold ScheduledRequest.outcome
  split_ifs with hstage hdone
  · exact record (r := r.advanceChunk) h (hright fun _ => hdone)
  · simpa [Outcome.waiting, Outcome.decoding, Outcome.outputs] using h
  · exact h.record (hright fun hprefill => absurd hprefill hstage)

/-- **The outcomes of the requests of a batch.** -/
theorem outcomes (items : List (ScheduledRequest × GeneratedToken))
    (h : Tells Right (generations (items.map Prod.fst) + live) submitted returned)
    (hright : ∀ item ∈ items,
      (item.1.stage = .prefillForward → item.1.advanceChunk.isPrefillComplete = true) →
        Right item.1.requestId item.1.inputIds (item.1.outputIds ++ item.2.tokenIds)) :
    let outcomes := items.map fun item => item.1.outcome item.2
    Tells Right (generations (outcomes.flatMap Outcome.waiting) +
        generations (outcomes.flatMap Outcome.decoding) + live) submitted
      (returned ++ outcomes.flatMap Outcome.outputs) := by
  induction items generalizing live returned with
  | nil => simpa using h
  | cons item items ih =>
      obtain ⟨hfirst, hrest⟩ := List.forall_mem_cons.mp hright
      rw [List.map_cons, generations_cons, add_assoc, Multiset.singleton_add] at h
      have hout := h.outcome hfirst
      rw [add_left_comm] at hout
      have hih := ih hout hrest
      simp only [List.map_cons, List.flatMap_cons, generations_append, List.append_assoc] at hih ⊢
      convert hih using 1
      abel

end Tells

end SglangRs
