import SglangRs.Scheduler.PromptOrder

/-!
# The limit on running requests

A scheduler with a limit on running requests takes no more prompts into a prefill batch than the
decode queue leaves room for (`remaining_running_request_capacity`, `scheduler.rs`, lines 610–623).
A mixed batch takes prompts as well, but `next_mixed_batch` does not look at the limit (lines
914–1017). This file counts what a dispatch adds to the decode queue, and derives from it in which
runs the queue stays within the limit.

## Main definitions

* `ScheduledRequest.completesPrompt`, `ScheduledRequest.finishesWith`: what becomes of a request of
  an executed batch.
* `HasRoom`: the prompts that a mixed batch completes fit under the limit.

## Main results

* `length_decodeQueue_dispatch`: a dispatch adds the prompts it completes to the decode queue and
  removes the requests it finishes.
* `length_nextPrefillBatch_le`: a prefill batch is no larger than the room left.
* `running_limit_iff`: in which runs the decode queue stays within the limit.
-/

namespace SglangRs

open Scheduler ScheduledRequest Transition

variable {W : Type}

namespace ScheduledRequest

/-- The chunk that a request is forwarded with finishes its prompt. -/
def completesPrompt (r : ScheduledRequest) : Bool :=
  r.stage = .prefillForward && r.advanceChunk.isPrefillComplete

/-- A request leaves with the tokens generated for it. -/
def finishesWith (r : ScheduledRequest) (generated : GeneratedToken) : Bool :=
  !r.unfinished &&
    (generated.finished || (r.appendOutputIds generated.tokenIds).reachedMaxNewTokens)

theorem length_decoding_recordOutcome (r : ScheduledRequest) (generated : GeneratedToken) :
    (r.recordOutcome generated).decoding.length +
      (generated.finished ||
        (r.appendOutputIds generated.tokenIds).reachedMaxNewTokens).toNat = 1 := by
  unfold recordOutcome
  split_ifs with h
  · rw [h]
    rfl
  · rw [Bool.not_eq_true] at h
    rw [h]
    rfl

/-- A request of an executed batch goes to the decode queue if it does not leave and, being a
prompt, is complete. -/
theorem length_decoding_outcome (r : ScheduledRequest) (generated : GeneratedToken) :
    (r.outcome generated).decoding.length + (r.finishesWith generated).toNat =
      r.completesPrompt.toNat + (decide (r.stage ≠ .prefillForward)).toNat := by
  unfold outcome finishesWith completesPrompt unfinished
  split_ifs with hstage hdone
  · have hrecord := length_decoding_recordOutcome r.advanceChunk generated
    have htokens : (r.advanceChunk.appendOutputIds generated.tokenIds).reachedMaxNewTokens =
        (r.appendOutputIds generated.tokenIds).reachedMaxNewTokens := rfl
    rw [htokens] at hrecord
    simpa [hstage, hdone] using hrecord
  · simp [hstage, hdone, Outcome.decoding]
  · have hrecord := length_decoding_recordOutcome r generated
    simpa [hstage] using hrecord

/-- What an executed batch adds to the decode queue. -/
theorem length_decoding_outcomes (requests : List ScheduledRequest) (tokens : List GeneratedToken)
    (hlen : requests.length = tokens.length) :
    (((requests.zip tokens).map fun item => item.1.outcome item.2).flatMap
        Outcome.decoding).length +
      (requests.zip tokens).countP (fun item => item.1.finishesWith item.2) =
    requests.countP completesPrompt + requests.countP (fun r => r.stage ≠ .prefillForward) := by
  induction requests generalizing tokens with
  | nil => rfl
  | cons r requests ih =>
    obtain _ | ⟨generated, tokens⟩ := tokens
    · cases hlen
    · have hone := length_decoding_outcome r generated
      have hrest := ih tokens (Nat.succ.inj hlen)
      have htoNat (b : Bool) : (if b = true then 1 else 0) = b.toNat := by cases b <;> rfl
      simp only [List.zip_cons_cons, List.map_cons, List.flatMap_cons, List.length_append,
        List.countP_cons, htoNat]
      omega

end ScheduledRequest

namespace Scheduler

variable {s s' : Scheduler W}

/-! ### Prefill batches -/

theorem length_scanPrefill_le (m u k : ℕ) (queue : List ScheduledRequest) (s : Scheduler W)
    (requests : List ScheduledRequest) (n : ℕ) (h : requests.length ≤ m) :
    (scanPrefill m u k queue s requests n).requests.length ≤ m := by
  induction queue generalizing s requests n with
  | nil => exact h
  | cons r queue ih =>
    unfold scanPrefill
    split
    case isFalse => exact h
    case isTrue hlt =>
      split
      · exact h
      · split_ifs
        · exact h
        · refine ih _ _ _ ?_
          rw [List.length_append]
          exact hlt

theorem ClosesPrefill.length_le {requests : List ScheduledRequest} {k m : ℕ} {batch : ScheduleBatch}
    (h : s.ClosesPrefill k requests s' (.ok batch)) (hm : 0 < m) (hle : requests.length ≤ m) :
    batch.requests.length ≤ m := by
  cases h with
  | batch _ => exact hle
  | single _ _ => exact hm

theorem remainingRunningRequestCapacity_eq_ok {m remaining : ℕ}
    (hm : s.maxRunningRequests = some m)
    (h : s.remainingRunningRequestCapacity = .ok remaining) :
    0 < remaining ∧ s.decodeQueue.length + remaining = m := by
  unfold remainingRunningRequestCapacity at h
  rw [hm] at h
  dsimp only at h
  split_ifs at h with hzero
  obtain rfl := Except.ok.inj h
  omega

/-- **A prefill batch fits.** It holds no more requests than the limit leaves room for. -/
theorem length_nextPrefillBatch_le {m b u : ℕ} (hm : s.maxRunningRequests = some m)
    {batch : ScheduleBatch} (h : s.nextPrefillBatchWithTokenBudget b u = (s', .ok batch)) :
    s.decodeQueue.length + batch.requests.length ≤ m := by
  have hscan (remaining : ℕ) := length_scanPrefill_le (min b remaining) u
    (s.chunkedPrefillSize.getD usizeMax) s.waitingQueue s [] 0 (Nat.zero_le _)
  cases formsPrefill h with
  | @cut remaining _ _ hcap _ _ =>
    obtain ⟨-, hroom⟩ := remainingRunningRequestCapacity_eq_ok hm hcap
    have hbatch : (ScheduleBatch.prefill (s.prefillScan b u remaining).requests).requests.length ≤
      min b remaining := hscan remaining
    omega
  | @closed remaining _ _ hrun hcap _ hclose =>
    obtain ⟨hpos, hroom⟩ := remainingRunningRequestCapacity_eq_ok hm hcap
    have hbatch := hclose.length_le (m := min b remaining) (by omega) (hscan remaining)
    omega

/-! ### Formers that fail -/

theorem ClosesPrefill.decodeQueue_eq {k : ℕ} {requests : List ScheduledRequest}
    {error : SchedulerError} (h : s.ClosesPrefill k requests s' (.error error)) :
    s'.decodeQueue = s.decodeQueue := by
  cases h with
  | empty _ => rfl
  | failed _ hp =>
    obtain ⟨allocator, rfl⟩ := eq_with_allocator_of_preparePrefillRequestChunk hp
    rfl

theorem decodeQueue_of_nextPrefillBatch_error {b u : ℕ} {error : SchedulerError}
    (h : s.nextPrefillBatchWithTokenBudget b u = (s', .error error)) :
    s'.decodeQueue = s.decodeQueue := by
  have hscan (remaining : ℕ) := (scanPrefill_selects (min b remaining) u
    (s.chunkedPrefillSize.getD usizeMax) s.chunkBudget_ne_zero s.waitingQueue s [] 0 rfl
    (.refl s)).2.1
  cases formsPrefill h with
  | idle _ | full _ => rfl
  | failed _ _ _ =>
    rw [restoreFailedPrefillAttempt_eq]
    exact hscan _
  | closed _ _ _ hclose => exact hclose.decodeQueue_eq.trans (hscan _)

/-- A decode scan takes its requests from the decode queue. -/
theorem length_scanDecode (probe : W → ℕ → ScheduledRequest → W × ProbeAnswer) (limit : ℕ) :
    let scan := scanDecode probe limit s.decodeQueue s []
    scan.requests.length + (scan.scheduler.unpop scan.exit).decodeQueue.length =
      s.decodeQueue.length := by
  obtain ⟨-, -, decoded, decodes, hrequests, hdecodes, hqueue⟩ :=
    scanDecode_selects probe limit s.decodeQueue s [] rfl (.refl s)
  dsimp only
  rw [hrequests, List.nil_append, ← hdecodes.length_eq]
  exact (List.length_append.symm).trans (congrArg List.length hqueue.symm)

theorem length_of_nextDecodeBatchWith_error
    {probe : W → ℕ → ScheduledRequest → W × ProbeAnswer} {b : ℕ} {error : SchedulerError}
    (h : s.nextDecodeBatchWith probe b = (s', .error error)) :
    s'.decodeQueue.length ≤ s.decodeQueue.length := by
  have hlength (limit : ℕ) := s.length_scanDecode probe limit
  dsimp only at hlength
  cases formsDecode h with
  | idle _ => exact le_rfl
  | @notReady limit _ _ hexit _ | @probeFailed limit _ _ hexit =>
    have hscan := hlength limit
    rw [hexit] at hscan
    exact (Nat.le_add_left _ _).trans hscan.le
  | @failed limit _ _ _ hexit =>
    have hscan := hlength limit
    rw [hexit] at hscan
    rw [restoreFailedDecodeAttempt_eq, List.length_append, List.length_map]
    exact hscan.le

theorem decodeQueue_of_addPrefillChunks_error {requests : List ScheduledRequest} {b t : ℕ}
    {error : SchedulerError} (h : s.addPrefillChunks requests b t = (s', .error error)) :
    s'.decodeQueue = s.decodeQueue := by
  obtain ⟨rfl, -⟩ := addPrefillChunks_eq_error h
  exact (scanPiggyback_selects b t (s.chunkedPrefillSize.getD usizeMax) s.waitingQueue s
    requests requests.length rfl (.refl s)).2.1

variable [WorkerExecutor W]

theorem length_of_nextMixedBatch_error {b t : ℕ} {error : SchedulerError}
    (h : s.nextMixedBatch b t = (s', .error error)) :
    s'.decodeQueue.length ≤ s.decodeQueue.length := by
  have hlength := s.length_scanDecode workerProbe (min b t)
  dsimp only at hlength
  cases formsMixed h with
  | idle _ => exact le_rfl
  | probeFailed hexit =>
    rw [hexit] at hlength
    exact (Nat.le_add_left _ _).trans hlength.le
  | failed hexit =>
    rw [hexit] at hlength
    rw [restoreFailedDecodeAttempt_eq, List.length_append, List.length_map]
    exact hlength.le
  | extended hunpop _ hadd =>
    rw [hunpop] at hlength
    rw [decodeQueue_of_addPrefillChunks_error hadd]
    exact (Nat.le_add_left _ _).trans hlength.le

end Scheduler

variable [WorkerExecutor W] {s s' : Scheduler W}

/-- A former that fails does not put requests on the decode queue. -/
theorem length_decodeQueue_of_form_error {former : Former} {error : SchedulerError}
    (h : former.form s = (s', .error error)) :
    s'.decodeQueue.length ≤ s.decodeQueue.length := by
  cases former with
  | prefill b u => exact (congrArg List.length (decodeQueue_of_nextPrefillBatch_error h)).le
  | decode b => exact length_of_nextDecodeBatchWith_error h
  | decodeWhenReady b isReady => exact length_of_nextDecodeBatchWith_error h
  | mixed b t => exact length_of_nextMixedBatch_error h

/-! ### Dispatches -/

omit [WorkerExecutor W] in
/-- The requests of a batch that come from the decode queue are those that are not prompts. -/
theorem Scheduler.Selects.length_eq {decoded prompted requests : List ScheduledRequest}
    (h : s.Selects s' decoded prompted requests) :
    s'.decodeQueue.length + requests.countP (fun r => r.stage ≠ .prefillForward) =
        s.decodeQueue.length ∧
      requests.countP completesPrompt ≤ prompted.length := by
  obtain ⟨decodes, prefills, rfl, hdecodes, hprefills⟩ := h.requests_eq
  have hdecode : ∀ r ∈ decodes, r.stage = .decodeForward := by
    intro r hr
    obtain ⟨r₀, -, slots, rfl⟩ := exists_mem_of_forall₂ hdecodes hr
    rfl
  have hprefill : ∀ r ∈ prefills, r.stage = .prefillForward := by
    intro r hr
    obtain ⟨r₀, -, hr₀⟩ := exists_mem_of_forall₂ hprefills hr
    cases hr₀ <;> rfl
  have hall : decodes.countP (fun r => r.stage ≠ .prefillForward) = decodes.length :=
    List.countP_eq_length.mpr fun r hr => by simp [hdecode r hr]
  have hnone : prefills.countP (fun r => r.stage ≠ .prefillForward) = 0 :=
    List.countP_eq_zero.mpr fun r hr => by simp [hprefill r hr]
  have hprompts : decodes.countP completesPrompt = 0 :=
    List.countP_eq_zero.mpr fun r hr => by simp [completesPrompt, hdecode r hr]
  constructor
  · rw [List.countP_append, hall, hnone, h.decode_eq, List.length_append, hdecodes.length_eq]
    omega
  · rw [List.countP_append, hprompts, zero_add, hprefills.length_eq]
    exact List.countP_le_length

/-- **What a dispatch does to the decode queue.** The prompts that the batch completes join it, and
the requests that the batch finishes do not come back. -/
theorem length_decodeQueue_dispatch (hs : s.WaitingStaged) {former : Former}
    {outputs : List ScheduledOutput} (h : s.dispatch former = (s', .ok outputs)) :
    ∃ s₁ batch worker generated, former.form s = (s₁, .ok batch) ∧
      WorkerExecutor.executeBatch s₁.worker batch = (worker, .ok generated) ∧
      s'.decodeQueue.length +
          (batch.requests.zip generated.tokens).countP (fun item => item.1.finishesWith item.2) =
        s.decodeQueue.length + batch.requests.countP completesPrompt := by
  obtain ⟨s₁, batch, worker, generated, hform, hexec, hcomplete⟩ := dispatch_eq_ok h
  obtain ⟨hlen, -, hqueue, -⟩ := completeBatch_eq_ok (staged_form s former hs hform) hcomplete
  obtain ⟨decoded, prompted, hsel⟩ := Former.selects hform
  refine ⟨s₁, batch, worker, generated, hform, hexec, ?_⟩
  have hcount := length_decoding_outcomes batch.requests generated.tokens hlen
  have hselected := hsel.length_eq.1
  have hlength := congrArg List.length hqueue
  rw [List.length_append] at hlength
  dsimp only at hlength
  omega

omit [WorkerExecutor W] in
/-- A decode batch completes no prompt. -/
theorem countP_completesPrompt_of_decode {requests : List ScheduledRequest}
    (h : ∃ decoded, s.Selects s' decoded [] requests) : requests.countP completesPrompt = 0 := by
  obtain ⟨decoded, hsel⟩ := h
  exact Nat.le_zero.mp hsel.length_eq.2

/-- Of the four batch formers only the mixed one can complete more prompts than the limit leaves
room for. -/
theorem length_add_completesPrompt_le {m : ℕ} (hm : s.maxRunningRequests = some m)
    (hle : s.decodeQueue.length ≤ m) {former : Former} {batch : ScheduleBatch}
    (h : former.form s = (s', .ok batch)) (hmixed : ∀ b t, former ≠ .mixed b t) :
    s.decodeQueue.length + batch.requests.countP completesPrompt ≤ m := by
  cases former with
  | prefill b u =>
    have hfits := length_nextPrefillBatch_le hm h
    have hcount : batch.requests.countP completesPrompt ≤ batch.requests.length :=
      List.countP_le_length
    omega
  | decode b => rwa [countP_completesPrompt_of_decode (nextDecodeBatchWith_selects h)]
  | decodeWhenReady b isReady =>
    rwa [countP_completesPrompt_of_decode (nextDecodeBatchWith_selects h)]
  | mixed b t => exact absurd rfl (hmixed b t)

/-! ### Runs -/

/-- The operations that submit and serve requests. -/
def Operation.Serves : Operation W → Prop
  | .enqueue _ => True
  | .dispatch _ => True
  | _ => False

/-- A mixed batch completes no more prompts than the room that the limit `m` leaves beside the
decode queue, the requests that leave with the batch not counted. -/
def HasRoom (m : ℕ) (s : Scheduler W) : Operation W → Prop
  | .dispatch (.mixed maxBatchSize tokenBudget) => ∀ s₁ batch worker generated,
      s.nextMixedBatch maxBatchSize tokenBudget = (s₁, .ok batch) →
      WorkerExecutor.executeBatch s₁.worker batch = (worker, .ok generated) →
      batch.requests.countP completesPrompt ≤ (m - s.decodeQueue.length) +
        (batch.requests.zip generated.tokens).countP fun item => item.1.finishesWith item.2
  | _ => True

/-- **One step.** If the worker does not fail, the decode queue stays within the limit exactly if
the prompts of a mixed batch have room. -/
theorem length_decodeQueue_step_iff {m : ℕ} (hs : s.WaitingStaged)
    (hm : s.maxRunningRequests = some m) (hle : s.decodeQueue.length ≤ m) {op : Operation W}
    (hop : op.Serves) (hexec : Executes s op) :
    (s.step op).decodeQueue.length ≤ m ↔ HasRoom m s op := by
  cases op with
  | enqueue n => exact iff_of_true hle trivial
  | dispatch former =>
    rcases hform : former.form s with ⟨s₁, error | batch⟩
    · have hlength := length_decodeQueue_of_form_error hform
      have hstep : s.step (.dispatch former) = s₁ := by
        change (dispatchFormed (former.form s)).1 = s₁
        rw [hform]
        rfl
      rw [hstep]
      refine iff_of_true (hlength.trans hle) ?_
      cases former with
      | mixed b t =>
        intro s₂ batch worker generated hformed
        cases hform.symm.trans hformed
      | _ => trivial
    · obtain ⟨outputs, houtputs⟩ := hexec s₁ batch hform
      obtain ⟨s₂, batch', worker, generated, hform', hexecute, hlength⟩ :=
        length_decodeQueue_dispatch hs
          (show s.dispatch former = (s.step (.dispatch former), .ok outputs) from
            Prod.ext rfl houtputs)
      by_cases hmixed : ∀ b t, former ≠ .mixed b t
      · have hfits := length_add_completesPrompt_le hm hle hform' hmixed
        refine iff_of_true (by omega) ?_
        cases former with
        | mixed b t => exact absurd rfl (hmixed b t)
        | _ => trivial
      · push Not at hmixed
        obtain ⟨b, t, rfl⟩ := hmixed
        constructor
        · intro hafter s₃ batch₃ worker₃ generated₃ hform₃ hexec₃
          obtain ⟨rfl, hbatch⟩ := Prod.mk.inj (hform'.symm.trans hform₃)
          obtain rfl := Except.ok.inj hbatch
          obtain ⟨rfl, hgenerated⟩ := Prod.mk.inj (hexecute.symm.trans hexec₃)
          obtain rfl := Except.ok.inj hgenerated
          omega
        · intro hroom
          have hfits := hroom s₂ batch' worker generated hform' hexecute
          omega
  | _ => exact hop.elim

/-- The limit is never changed. -/
theorem maxRunningRequests_step {m : Option ℕ} (hs : s.WaitingStaged)
    (hm : s.maxRunningRequests = m) (op : Operation W) : (s.step op).maxRunningRequests = m :=
  (moves_step s op hs (Guard.admits_submitting (P := fun _ => True) s op
    fun _ _ => trivial)).invariant (J := fun c => c.scheduler.maxRunningRequests = m)
    (fun _ _ hmove hc => hmove.settings_eq.2.trans hc) hm

/-- **The limit on running requests.** In a run of submissions and dispatches with a worker that
does not fail, the decode queue of a scheduler with the limit `m` holds at most `m` requests
throughout exactly if every mixed batch leaves room for the prompts it completes. -/
theorem running_limit_iff (hs : s.New) {m : ℕ} (hm : s.maxRunningRequests = some m)
    {ops : List (Operation W)} (hops : ∀ op ∈ ops, op.Serves)
    (hexec : Along Scheduler.step Executes s ops) :
    (∀ before, before <+: ops → (before.foldl Scheduler.step s).decodeQueue.length ≤ m) ↔
      Along Scheduler.step (HasRoom m) s ops := by
  have hstaged : s.WaitingStaged := by simp [WaitingStaged, hs.waiting_eq]
  have hempty : s.decodeQueue.length ≤ m := by simp [hs.decode_eq]
  clear hs
  induction ops generalizing s with
  | nil =>
    refine iff_of_true (fun before hbefore => ?_) trivial
    rwa [List.prefix_nil.mp hbefore]
  | cons op ops ih =>
    obtain ⟨hop, hops⟩ := List.forall_mem_cons.mp hops
    have hiff := length_decodeQueue_step_iff hstaged hm hempty hop hexec.1
    have hrest := ih (maxRunningRequests_step hstaged hm op) hops hexec.2
      (waitingStaged_step hstaged op)
    constructor
    · intro h
      have hnext : (s.step op).decodeQueue.length ≤ m := h [op] (by simp)
      refine ⟨hiff.mp hnext, (hrest hnext).mp fun before hbefore => ?_⟩
      exact h (op :: before) (List.cons_prefix_cons.mpr ⟨rfl, hbefore⟩)
    · rintro ⟨hroom, hrooms⟩ before hbefore
      rcases List.prefix_cons_iff.mp hbefore with rfl | ⟨before', rfl, hbefore'⟩
      · exact hempty
      · exact (hrest (hiff.mpr hroom)).mpr hrooms before' hbefore'

theorem executes_of_isSome {former : Former} (h : (s.dispatch former).2.toOption.isSome = true) :
    Executes s (.dispatch former) := by
  intro s' batch _
  cases hres : (s.dispatch former).2 with
  | error error =>
    rw [hres] at h
    cases h
  | ok outputs => exact ⟨outputs, rfl⟩

/-- A scheduler with sixteen free slots that runs one request at a time. -/
def Scheduler.limited : Scheduler ScriptedWorker :=
  Scheduler.withCacheResourcesAndPolicy {} ⟨16, 1, List.range 16, ∅⟩ .enabled none (some 1)

theorem Scheduler.new_limited : Scheduler.limited.New :=
  ⟨rfl, rfl, rfl, fun _ ha => ⟨16, 1, congrArg Except.ok (Option.some.inj ha)⟩⟩

/-- The theorem applied to mixed batches of one request: the second batch decodes. -/
theorem running_limit_of_single_batches :
    let ops : List (Operation ScriptedWorker) := [.submit "a" [1, 2] 4, .submit "b" [3, 4] 4,
      .dispatch (.mixed 1 16), .dispatch (.mixed 1 16)]
    ∀ before, before <+: ops →
      (before.foldl Scheduler.step Scheduler.limited).decodeQueue.length ≤ 1 := by
  intro ops
  have hroom : ∀ s : Scheduler ScriptedWorker,
      ((s.nextMixedBatch 1 16).2.toOption.all fun batch =>
        batch.requests.countP completesPrompt ≤ 1 - s.decodeQueue.length) = true →
      HasRoom 1 s (.dispatch (.mixed 1 16)) := by
    intro s hall s₁ batch worker generated hform _
    rw [hform] at hall
    exact (of_decide_eq_true hall).trans (Nat.le_add_right _ _)
  refine (running_limit_iff Scheduler.new_limited rfl (by simp [ops, Operation.Serves,
    Operation.submit]) ?_).mpr ?_
  · exact ⟨trivial, trivial, executes_of_isSome (by decide +kernel),
      executes_of_isSome (by decide +kernel), trivial⟩
  · exact ⟨trivial, trivial, hroom _ (by decide +kernel), hroom _ (by decide +kernel), trivial⟩

/-- Two prompts in one mixed batch: both are running afterwards. -/
theorem running_limit_exceeded :
    let ops : List (Operation ScriptedWorker) := [.submit "a" [1, 2] 4, .submit "b" [3, 4] 4,
      .dispatch (.mixed 2 16)]
    Scheduler.limited.New ∧ Scheduler.limited.maxRunningRequests = some 1 ∧
      Along Scheduler.step Executes Scheduler.limited ops ∧
      (ops.foldl Scheduler.step Scheduler.limited).decodeQueue.length = 2 := by
  refine ⟨Scheduler.new_limited, rfl, ?_, by decide +kernel⟩
  exact ⟨trivial, trivial, executes_of_isSome (by decide +kernel), trivial⟩

end SglangRs
