import SglangRs.Scheduler.Refinement

/-!
# What a dispatch returns

When a batch is executed without a completion error, each of its requests has one of three outcomes:
it goes back to the head of the waiting queue with more of its prompt to process, it goes to the end
of the decode queue with a token that is returned, or it leaves with a token that is returned and
marked as the last. This file reads the queues and the outputs after a batch off these outcomes, in
the order of the batch.

## Main definitions

* `Outcome`, `ScheduledRequest.outcome`: the outcome of a request.

## Main results

* `completeBatch_eq_ok`: the queues and the outputs after a batch.
* `dispatch_eq_ok`: a dispatch that returns outputs has formed and executed a batch.
-/

namespace SglangRs

open Scheduler Transition

variable {W : Type}

/-- The outcome of a request of an executed batch. -/
inductive Outcome where
  | chunk (request : ScheduledRequest)
  | token (request : ScheduledRequest) (output : ScheduledOutput)
  | finished (request : ScheduledRequest) (output : ScheduledOutput)

namespace Outcome

/-- What is returned to the caller. -/
def outputs : Outcome → List ScheduledOutput
  | .chunk _ => []
  | .token _ output => [output]
  | .finished _ output => [output]

/-- What goes to the end of the decode queue. -/
def decoding : Outcome → List ScheduledRequest
  | .token request _ => [request]
  | _ => []

/-- What goes to the head of the waiting queue. -/
def waiting : Outcome → List ScheduledRequest
  | .chunk request => [request]
  | _ => []

end Outcome

namespace ScheduledRequest

/-- The outcome of a request whose prompt is processed. -/
def recordOutcome (r : ScheduledRequest) (generated : GeneratedToken) : Outcome :=
  if generated.finished || (r.appendOutputIds generated.tokenIds).reachedMaxNewTokens then
    .finished (r.finish generated.tokenIds) (scheduledOutput r generated true)
  else .token (r.awaitDecode generated.tokenIds) (scheduledOutput r generated false)

/-- The outcome of a request of an executed batch. -/
def outcome (r : ScheduledRequest) (generated : GeneratedToken) : Outcome :=
  if r.stage = .prefillForward then
    if r.advanceChunk.isPrefillComplete then r.advanceChunk.recordOutcome generated
    else .chunk r.advanceChunk.awaitChunk
  else r.recordOutcome generated

end ScheduledRequest

variable [WorkerExecutor W]

namespace Scheduler

/-- Offering a chunk to the prefix cache leaves the queues alone. -/
theorem queues_stagePrefillChunkCachePages (s : Scheduler W) (r : ScheduledRequest) (n : ℕ) :
    (s.stagePrefillChunkCachePages r n).1.waitingQueue = s.waitingQueue ∧
      (s.stagePrefillChunkCachePages r n).1.decodeQueue = s.decodeQueue := by
  unfold stagePrefillChunkCachePages
  split_ifs
  · exact ⟨rfl, rfl⟩
  · split
    case h_2 =>
      rw [publishPrefillChunkCachePages_eq]
      exact ⟨rfl, rfl⟩
    all_goals exact ⟨rfl, rfl⟩
  · rw [publishPrefillChunkCachePages_eq]
    exact ⟨rfl, rfl⟩

/-- The queues and the outputs after some requests of a batch. -/
structure Completion.After (c c' : Completion W) (outcomes : List Outcome) : Prop where
  outputs_eq : c'.outputs = c.outputs ++ outcomes.flatMap Outcome.outputs
  decode_eq : c'.scheduler.decodeQueue =
    c.scheduler.decodeQueue ++ outcomes.flatMap Outcome.decoding
  waiting_eq : c'.scheduler.waitingQueue =
    (outcomes.flatMap Outcome.waiting).reverse ++ c.scheduler.waitingQueue

theorem recordGeneratedToken_after {c : Completion W} {r : ScheduledRequest}
    {generated : GeneratedToken} (h : (recordGeneratedToken c r generated).completionError = none) :
    c.completionError = none ∧
      c.After (recordGeneratedToken c r generated) [r.recordOutcome generated] := by
  unfold recordGeneratedToken at h ⊢
  unfold ScheduledRequest.recordOutcome
  dsimp only at h ⊢
  split_ifs at h ⊢ with hfin
  · rcases hans : WorkerExecutor.finishRequest c.scheduler.worker
        ((r.appendOutputIds generated.tokenIds).setStage .finished) with ⟨worker, error | ⟨⟩⟩
    · rw [hans] at h
      cases h
    · rw [hans] at h
      refine ⟨h, ?_, ?_, ?_⟩
      · dsimp only
        rw [hfin]
        rfl
      · simp [Outcome.decoding, releaseRequestCachePages_eq, release]
      · simp [Outcome.waiting, releaseRequestCachePages_eq, release]
  · refine ⟨h, ?_, ?_, ?_⟩
    · dsimp only
      rw [Bool.not_eq_true] at hfin
      rw [hfin]
      rfl
    · simp [Outcome.decoding, ScheduledRequest.awaitDecode]
    · simp [Outcome.waiting]

/-- One request of a batch, if it ends without an error. -/
theorem completeRequest_after {forwardMode : ForwardMode} {c : Completion W}
    {item : ScheduledRequest × GeneratedToken}
    (hstage : (item.1.stage = .prefillForward ∧ forwardMode ≠ .decode) ∨
      (item.1.stage = .decodeForward ∧ forwardMode ≠ .prefill))
    (h : (completeRequest forwardMode c item).completionError = none) :
    c.completionError = none ∧
      c.After (completeRequest forwardMode c item) [item.1.outcome item.2] := by
  obtain ⟨r, generated⟩ := item
  have hiff := isPrefillForward_iff hstage
  unfold ScheduledRequest.outcome
  by_cases hr : r.stage = .prefillForward
  · rw [completeRequest_of_prefill c generated (hiff.mpr hr)] at h ⊢
    rw [if_pos hr]
    have hqueues := c.scheduler.queues_stagePrefillChunkCachePages r.advanceChunk
      r.advanceChunk.promptTokensProcessed
    rcases hres : c.scheduler.stagePrefillChunkCachePages r.advanceChunk
        r.advanceChunk.promptTokensProcessed with ⟨s, error | ⟨⟩⟩
    · rw [hres] at h
      cases h
    · rw [hres] at h hqueues
      dsimp only at h hqueues ⊢
      split_ifs at h ⊢ with hdone
      · obtain ⟨hnone, hout, hdec, hwait⟩ := recordGeneratedToken_after h
        exact ⟨hnone, hout, hdec.trans (by rw [hqueues.2]), hwait.trans (by rw [hqueues.1])⟩
      · exact ⟨h, by simp [Outcome.outputs], by simp [Outcome.decoding, hqueues.2],
          by simp [Outcome.waiting, hqueues.1]⟩
  · rw [completeRequest_of_decode c generated (mt hiff.mp hr)] at h ⊢
    rw [if_neg hr]
    exact recordGeneratedToken_after h

theorem foldl_completeRequest_after {forwardMode : ForwardMode}
    (items : List (ScheduledRequest × GeneratedToken)) (c : Completion W)
    (hstage : ∀ item ∈ items, (item.1.stage = .prefillForward ∧ forwardMode ≠ .decode) ∨
      (item.1.stage = .decodeForward ∧ forwardMode ≠ .prefill))
    (h : (items.foldl (completeRequest forwardMode) c).completionError = none) :
    c.completionError = none ∧ c.After (items.foldl (completeRequest forwardMode) c)
      (items.map fun item => item.1.outcome item.2) := by
  induction items generalizing c with
  | nil => exact ⟨h, by simp, by simp, by simp⟩
  | cons item items ih =>
    obtain ⟨hnone, hout, hdec, hwait⟩ :=
      ih _ (fun x hx => hstage x (List.mem_cons_of_mem _ hx)) h
    obtain ⟨hnone₀, hout₀, hdec₀, hwait₀⟩ :=
      completeRequest_after (hstage item List.mem_cons_self) hnone
    refine ⟨hnone₀, ?_, ?_, ?_⟩
    · rw [List.foldl_cons, hout, hout₀]
      simp
    · rw [List.foldl_cons, hdec, hdec₀]
      simp
    · rw [List.foldl_cons, hwait, hwait₀]
      simp

/-- **A batch that is completed without an error.** -/
theorem completeBatch_eq_ok {s s' : Scheduler W} {batch : ScheduleBatch}
    {generated : BatchGeneratedTokens} {outputs : List ScheduledOutput} (hstaged : batch.Staged)
    (h : s.completeBatch batch generated = (s', .ok outputs)) :
    batch.requests.length = generated.tokens.length ∧
      let outcomes := (batch.requests.zip generated.tokens).map fun item => item.1.outcome item.2
      outputs = outcomes.flatMap Outcome.outputs ∧
      s'.decodeQueue = s.decodeQueue ++ outcomes.flatMap Outcome.decoding ∧
      s'.waitingQueue = (outcomes.flatMap Outcome.waiting).reverse ++ s.waitingQueue := by
  unfold completeBatch at h
  split_ifs at h with hlen
  · cases h
  · refine ⟨by simpa using hlen, ?_⟩
    dsimp only at h ⊢
    cases herr : ((batch.requests.zip generated.tokens).foldl
        (completeRequest batch.forwardMode) ⟨s, [], none⟩).completionError with
    | some error =>
      rw [herr] at h
      cases h
    | none =>
      rw [herr] at h
      obtain ⟨rfl, hok⟩ := Prod.mk.inj h
      obtain rfl := Except.ok.inj hok
      obtain ⟨-, hout, hdec, hwait⟩ := foldl_completeRequest_after _ _
        (fun item hitem => hstaged item.1 (List.of_mem_zip hitem).1) herr
      exact ⟨by simpa using hout, hdec, hwait⟩

/-- A dispatch that returns outputs has formed a batch, executed it and completed it. -/
theorem dispatch_eq_ok {s s' : Scheduler W} {former : Former} {outputs : List ScheduledOutput}
    (h : s.dispatch former = (s', .ok outputs)) :
    ∃ s₁ batch worker generated, former.form s = (s₁, .ok batch) ∧
      WorkerExecutor.executeBatch s₁.worker batch = (worker, .ok generated) ∧
      { s₁ with worker }.completeBatch batch generated = (s', .ok outputs) := by
  unfold Scheduler.dispatch dispatchFormed at h
  rcases hform : former.form s with ⟨s₁, error | batch⟩
  · rw [hform] at h
    cases h
  · rw [hform] at h
    dsimp only at h
    unfold dispatchBatch at h
    rcases hexec : WorkerExecutor.executeBatch s₁.worker batch with ⟨worker, error | generated⟩
    · rw [hexec] at h
      dsimp only at h
      split at h <;> cases h
    · rw [hexec] at h
      exact ⟨s₁, batch, worker, generated, rfl, hexec, h⟩

end Scheduler

end SglangRs
