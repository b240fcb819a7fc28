import SglangRs.Scheduler.Atomicity
import SglangRs.Scheduler.Dispatch
import SglangRs.Scheduler.Selection

/-!
# The order of the waiting queue

A submitted request goes to the end of the waiting queue, and the formers take requests from its
head. A request whose prompt is not finished by a chunk goes back to the head. `complete_batch` does
this request by request (`scheduler.rs`, lines 1088–1094), so that two unfinished prompts of one
batch end up in the wrong order, while the rollback of a failed attempt goes backwards through the
batch to keep the order (lines 700–720).

## Main definitions

* `ScheduledRequest.submission`: what a request was submitted as.
* `Scheduler.InOrder`: the waiting queue lists its requests as they were submitted.
* `ScheduledRequest.unfinished`: the chunk of a request does not finish its prompt.
* `OneUnfinished`: a dispatch forms no batch with two unfinished prompts.

## Main results

* `submissions_of_form_error`: a former that fails leaves the queue in order.
* `InOrder.dispatch`: so does a dispatch with one unfinished prompt.
* `oneUnfinished_of_inOrder`: two unfinished prompts change places.
* `waiting_queue_in_order_iff`: when the waiting queue is in order throughout a run.
-/

namespace SglangRs

open Scheduler Transition

variable {W : Type}

namespace ScheduledRequest

/-- What a request was submitted as. -/
def submission (r : ScheduledRequest) : NewRequest where
  requestId := r.requestId
  inputIds := r.inputIds
  sampling := r.sampling
  disaggregatedParams := r.disaggregatedParams
  dataParallelRank := r.dataParallelRank

/-- The chunk that a request is forwarded with does not finish its prompt. -/
def unfinished (r : ScheduledRequest) : Bool :=
  r.stage = .prefillForward && !r.advanceChunk.isPrefillComplete

@[simp] theorem submission_withPrefix (s : Scheduler W) (r : ScheduledRequest) :
    (s.withPrefix r).submission = r.submission := by
  rw [withPrefix_eq]
  rfl

@[simp] theorem submission_clear (r : ScheduledRequest) (stage : RequestStage) :
    (r.clearForwardCacheAllocation.setStage stage).submission = r.submission := rfl

@[simp] theorem submission_toScheduled (n : NewRequest) : n.toScheduled.submission = n := rfl

theorem map_submission_clear (requests : List ScheduledRequest) (stage : RequestStage) :
    (requests.map fun r => r.clearForwardCacheAllocation.setStage stage).map submission =
      requests.map submission := by
  rw [List.map_map]
  rfl

end ScheduledRequest

open ScheduledRequest

namespace Scheduler

/-- The submissions of the waiting queue, from its head. -/
def waitingSubmissions (s : Scheduler W) : List NewRequest := s.waitingQueue.map submission

/-- The waiting queue lists its requests in the order in which they were submitted. -/
def InOrder (s : Scheduler W) (submissions : List NewRequest) : Prop :=
  s.waitingSubmissions.Sublist submissions

variable {s s' s₀ : Scheduler W} {r r' : ScheduledRequest}

theorem submission_of_preparePrefillRequestChunk {k : ℕ} {result : Except SchedulerError Unit}
    (h : s.preparePrefillRequestChunk r k = (s', r', result)) : r'.submission = r.submission := by
  have hsub := submission_withPrefix s r
  obtain ⟨-, -, -, rfl⟩ | ⟨-, _, -, -, rfl⟩ | ⟨-, _, -, -, rfl, -⟩ :=
    preparePrefillRequestChunk_cases h
  all_goals exact hsub

theorem Prepared.submission_eq (h : s.Prepared r r') : r'.submission = r.submission := by
  have hsub := submission_withPrefix s r
  cases h with
  | replay _ => exact hsub
  | chunk _ _ _ => exact hsub

theorem Kept.submission_eq (h : s.Kept r r') : r'.submission = r.submission := by
  cases h with
  | same => rfl
  | withPrefix => exact submission_withPrefix s r
  | rolledBack h => exact h.submission_eq

/-- Requests that keep their submissions one by one keep the list of submissions. -/
theorem map_submission_of_forall₂ {R : ScheduledRequest → ScheduledRequest → Prop}
    {requests requests' : List ScheduledRequest} (h : List.Forall₂ R requests requests')
    (hR : ∀ r r', R r r' → r'.submission = r.submission) :
    requests'.map submission = requests.map submission := by
  induction h with
  | nil => rfl
  | cons hr _ ih => rw [List.map_cons, List.map_cons, ih, hR _ _ hr]

/-! ### Formers that fail -/

/-- A scan of the waiting queue keeps its requests in order. -/
theorem submissions_scanPrefill (m u k : ℕ) (queue : List ScheduledRequest) (s : Scheduler W)
    (requests : List ScheduledRequest) (n : ℕ) (hq : s.waitingQueue = queue) :
    let scan := scanPrefill m u k queue s requests n
    (scan.requests ++ scan.exit.held ++ scan.scheduler.waitingQueue).map submission =
      (requests ++ queue).map submission := by
  induction queue generalizing s requests n with
  | nil => simp [scanPrefill, PrefillExit.held, hq]
  | cons r queue ih =>
    unfold scanPrefill
    split
    case isFalse => simp [PrefillExit.held, hq]
    case isTrue =>
      split
      case h_1 s' r' error hp =>
        have hsub := submission_of_preparePrefillRequestChunk hp
        obtain ⟨allocator, rfl⟩ := eq_with_allocator_of_preparePrefillRequestChunk hp
        simp [PrefillExit.held, hsub]
      case h_2 s' r' hp =>
        have hsub := submission_of_preparePrefillRequestChunk hp
        obtain ⟨allocator, rfl⟩ := eq_with_allocator_of_preparePrefillRequestChunk hp
        split_ifs
        · simp [PrefillExit.held, hsub]
        · exact (ih _ (requests ++ [r']) (n + r'.currentChunkLen) rfl).trans (by simp [hsub])

theorem ClosesPrefill.submissions {k : ℕ} {requests : List ScheduledRequest}
    {error : SchedulerError} (h : s.ClosesPrefill k requests s' (.error error)) :
    requests = [] ∧ s'.waitingSubmissions = s.waitingSubmissions := by
  cases h with
  | empty _ => exact ⟨rfl, rfl⟩
  | failed hq hp =>
    have hsub := submission_of_preparePrefillRequestChunk hp
    obtain ⟨allocator, rfl⟩ := eq_with_allocator_of_preparePrefillRequestChunk hp
    exact ⟨rfl, by simp [waitingSubmissions, hq, hsub]⟩

theorem submissions_of_nextPrefillBatch_error {m u : ℕ} {error : SchedulerError}
    (h : s.nextPrefillBatchWithTokenBudget m u = (s', .error error)) :
    s'.waitingSubmissions = s.waitingSubmissions := by
  have hscan (remaining : ℕ) := submissions_scanPrefill (min m remaining) u
    (s.chunkedPrefillSize.getD usizeMax) s.waitingQueue s [] 0 rfl
  cases formsPrefill h with
  | idle _ | full _ => rfl
  | @failed remaining r error _ _ hexit =>
    have hscan := hscan remaining
    dsimp only at hscan
    rw [hexit] at hscan
    rw [restoreFailedPrefillAttempt_eq, waitingSubmissions, List.map_append,
      map_submission_clear, List.map_cons, submission_clear]
    simpa [PrefillExit.held, waitingSubmissions] using hscan
  | @closed remaining _ _ _ _ hexit hclose =>
    have hscan := hscan remaining
    obtain ⟨hnil, hclosed⟩ := hclose.submissions
    dsimp only at hscan
    rw [hexit, hnil] at hscan
    exact hclosed.trans hscan

/-- The decode formers leave the waiting queue alone. -/
theorem waitingQueue_nextDecodeBatchWith (probe : W → ℕ → ScheduledRequest → W × ProbeAnswer)
    (m : ℕ) : (s.nextDecodeBatchWith probe m).1.waitingQueue = s.waitingQueue := by
  have hscan (limit : ℕ) :=
    (scanDecode_selects probe limit s.decodeQueue s [] rfl (.refl s)).2.1
  rcases h : s.nextDecodeBatchWith probe m with ⟨s', result⟩
  cases formsDecode h with
  | idle _ => rfl
  | formed _ _ _ | notReady _ _ _ | probeFailed _ _ => exact hscan _
  | failed _ _ =>
    rw [restoreFailedDecodeAttempt_eq]
    exact hscan _

theorem submissions_of_addPrefillChunks_error {requests : List ScheduledRequest} {m b : ℕ}
    {error : SchedulerError} (h : s.addPrefillChunks requests m b = (s', .error error)) :
    s'.waitingSubmissions = s.waitingSubmissions := by
  obtain ⟨rfl, hnil⟩ := addPrefillChunks_eq_error h
  obtain ⟨-, hsame | ⟨r, rest, r', _, _, hq, hp, hscan⟩⟩ :=
    scanPiggyback_nil _ _ _ _ _ _ _ rfl hnil
  · rw [hsame]
  · have hsub := submission_of_preparePrefillRequestChunk hp
    rw [hscan]
    simp [waitingSubmissions, hq, hsub]

variable [WorkerExecutor W]

theorem submissions_of_nextMixedBatch_error {m b : ℕ} {error : SchedulerError}
    (h : s.nextMixedBatch m b = (s', .error error)) :
    s'.waitingSubmissions = s.waitingSubmissions := by
  have hscan := (scanDecode_selects workerProbe (min m b) s.decodeQueue s [] rfl (.refl s)).2.1
  cases formsMixed h with
  | idle _ => rfl
  | probeFailed _ => exact congrArg (List.map submission) hscan
  | failed _ =>
    rw [restoreFailedDecodeAttempt_eq]
    exact congrArg (List.map submission) hscan
  | extended _ _ hadd =>
    exact (submissions_of_addPrefillChunks_error hadd).trans (congrArg (List.map submission) hscan)

end Scheduler

variable [WorkerExecutor W] {s s' : Scheduler W}

/-- **Rollbacks keep the order.** A former that fails leaves the submissions of the waiting queue as
they were. -/
theorem submissions_of_form_error {former : Former} {error : SchedulerError}
    (h : former.form s = (s', .error error)) : s'.waitingSubmissions = s.waitingSubmissions := by
  cases former with
  | prefill m u => exact submissions_of_nextPrefillBatch_error h
  | decode m =>
    have hwaiting := waitingQueue_nextDecodeBatchWith (s := s) workerProbe m
    rw [show s.nextDecodeBatchWith workerProbe m = (s', .error error) from h] at hwaiting
    exact congrArg (List.map submission) hwaiting
  | decodeWhenReady m isReady =>
    have hwaiting := waitingQueue_nextDecodeBatchWith (s := s) (closureProbe isReady) m
    rw [show s.nextDecodeBatchWith (closureProbe isReady) m = (s', .error error) from h] at hwaiting
    exact congrArg (List.map submission) hwaiting
  | mixed m b => exact submissions_of_nextMixedBatch_error h

/-! ### Completing a batch -/

theorem waitingQueue_recordGeneratedToken (c : Completion W) (r : ScheduledRequest)
    (generated : GeneratedToken) :
    (recordGeneratedToken c r generated).scheduler.waitingQueue = c.scheduler.waitingQueue := by
  unfold recordGeneratedToken
  dsimp only
  split_ifs
  · split
    · rfl
    · rw [releaseRequestCachePages_eq]
      rfl
  · rfl

/-- A request of a batch goes back to the waiting queue only if its prompt is not finished. -/
theorem waitingQueue_completeRequest {forwardMode : ForwardMode} {item : ScheduledRequest ×
      GeneratedToken}
    (hstage : (item.1.stage = .prefillForward ∧ forwardMode ≠ .decode) ∨
      (item.1.stage = .decodeForward ∧ forwardMode ≠ .prefill)) (c : Completion W) :
    ∃ back : List ScheduledRequest,
      (completeRequest forwardMode c item).scheduler.waitingQueue =
        back ++ c.scheduler.waitingQueue ∧
      (back.map submission).Sublist (([item.1].filter unfinished).map submission) := by
  obtain ⟨r, generated⟩ := item
  have hiff := isPrefillForward_iff hstage
  by_cases hr : r.stage = .prefillForward
  · rw [completeRequest_of_prefill c generated (hiff.mpr hr)]
    have hqueues := (c.scheduler.queues_stagePrefillChunkCachePages r.advanceChunk
      r.advanceChunk.promptTokensProcessed).1
    rcases hres : c.scheduler.stagePrefillChunkCachePages r.advanceChunk
        r.advanceChunk.promptTokensProcessed with ⟨s, error | ⟨⟩⟩
    · rw [hres] at hqueues
      exact ⟨[], hqueues, List.nil_sublist _⟩
    · rw [hres] at hqueues
      dsimp only at hqueues ⊢
      split_ifs with hdone
      · refine ⟨[], ?_, List.nil_sublist _⟩
        rw [waitingQueue_recordGeneratedToken]
        exact hqueues
      · refine ⟨[r.advanceChunk.awaitChunk], ?_, ?_⟩
        · exact congrArg (List.cons _) hqueues
        · rw [List.filter_cons_of_pos (by simp [unfinished, hr, hdone])]
          exact List.Sublist.refl _
  · rw [completeRequest_of_decode c generated (mt hiff.mp hr)]
    exact ⟨[], waitingQueue_recordGeneratedToken c r generated, List.nil_sublist _⟩

/-- With at most one unfinished prompt it does not matter in which order requests go back. -/
theorem waitingQueue_foldl_completeRequest {forwardMode : ForwardMode}
    (items : List (ScheduledRequest × GeneratedToken)) (c : Completion W)
    (hstage : ∀ item ∈ items, (item.1.stage = .prefillForward ∧ forwardMode ≠ .decode) ∨
      (item.1.stage = .decodeForward ∧ forwardMode ≠ .prefill))
    (hone : ((items.map Prod.fst).filter unfinished).length ≤ 1) :
    ∃ back : List ScheduledRequest,
      (items.foldl (completeRequest forwardMode) c).scheduler.waitingQueue =
        back ++ c.scheduler.waitingQueue ∧
      (back.map submission).Sublist (((items.map Prod.fst).filter unfinished).map submission) := by
  induction items generalizing c with
  | nil => exact ⟨[], rfl, List.nil_sublist _⟩
  | cons item items ih =>
    obtain ⟨back, hback, hsub⟩ := waitingQueue_completeRequest (hstage item List.mem_cons_self) c
    have hsplit : ((item :: items).map Prod.fst).filter unfinished =
        [item.1].filter unfinished ++ (items.map Prod.fst).filter unfinished := by
      rw [← List.filter_append]
      rfl
    rw [hsplit, List.length_append] at hone
    obtain ⟨more, hmore, hsubmore⟩ := ih (completeRequest forwardMode c item)
      (fun x hx => hstage x (List.mem_cons_of_mem _ hx)) (by omega)
    refine ⟨more ++ back, by rw [List.foldl_cons, hmore, hback, List.append_assoc], ?_⟩
    rw [hsplit, List.map_append, List.map_append]
    -- one of the two parts is empty
    rcases Nat.eq_zero_or_pos ([item.1].filter unfinished).length with hzero | hpos
    · rw [List.length_eq_zero_iff] at hzero
      rw [hzero, List.map_nil, List.sublist_nil] at hsub
      rw [hsub, List.append_nil]
      exact hsubmore.trans (List.sublist_append_right _ _)
    · have hnil : (items.map Prod.fst).filter unfinished = [] :=
        List.length_eq_zero_iff.mp (by omega)
      rw [hnil, List.map_nil, List.sublist_nil] at hsubmore
      rw [hsubmore, List.nil_append]
      exact hsub.trans (List.sublist_append_left _ _)

theorem waitingQueue_completeBatch {batch : ScheduleBatch} (hstaged : batch.Staged)
    (hone : (batch.requests.filter unfinished).length ≤ 1) (generated : BatchGeneratedTokens) :
    ∃ back : List ScheduledRequest,
      (s.completeBatch batch generated).1.waitingQueue = back ++ s.waitingQueue ∧
      (back.map submission).Sublist ((batch.requests.filter unfinished).map submission) := by
  unfold completeBatch
  split_ifs with hlen
  · exact ⟨[], rfl, List.nil_sublist _⟩
  · have hfst : (batch.requests.zip generated.tokens).map Prod.fst = batch.requests :=
      List.map_fst_zip (not_not.mp hlen).le
    obtain ⟨back, hback, hsub⟩ := waitingQueue_foldl_completeRequest
      (batch.requests.zip generated.tokens) ⟨s, [], none⟩
      (fun item hitem => hstaged item.1 (List.of_mem_zip hitem).1) (by rwa [hfst])
    exact ⟨back, hback, by rwa [hfst] at hsub⟩

/-- Cleaning up after a failed batch leaves the waiting queue alone. -/
theorem waitingQueue_releaseFailedBatch (batch : ScheduleBatch) :
    (s.releaseFailedBatchCachePages batch).1.waitingQueue = s.waitingQueue := by
  have hfold (requests : List ScheduledRequest)
      (state : Scheduler W × Option WorkerExecutionError) :
      (requests.foldl releaseFailedRequest state).1.waitingQueue = state.1.waitingQueue := by
    induction requests generalizing state with
    | nil => rfl
    | cons r requests ih =>
      rw [List.foldl_cons, ih]
      unfold releaseFailedRequest
      dsimp only
      split <;> rfl
  exact hfold batch.requests (s, none)

theorem waitingQueue_dispatchBatch {batch : ScheduleBatch} (hstaged : batch.Staged)
    (hone : (batch.requests.filter unfinished).length ≤ 1) :
    ∃ back : List ScheduledRequest,
      (s.dispatchBatch batch).1.waitingQueue = back ++ s.waitingQueue ∧
      (back.map submission).Sublist ((batch.requests.filter unfinished).map submission) := by
  unfold dispatchBatch
  rcases WorkerExecutor.executeBatch s.worker batch with ⟨worker, error | generated⟩
  · have hwaiting := waitingQueue_releaseFailedBatch (s := { s with worker }) batch
    refine ⟨[], ?_, List.nil_sublist _⟩
    dsimp only
    split
    case h_1 s' cleanup heq =>
      rw [heq] at hwaiting
      exact hwaiting
    case h_2 s' heq =>
      rw [heq] at hwaiting
      exact hwaiting
  · exact waitingQueue_completeBatch (s := { s with worker }) hstaged hone generated

/-! ### Dispatches -/

/-- The unfinished prompts of a batch and what stays in the queue, in the order of the queue. -/
theorem submissions_of_form_ok {former : Former} {batch : ScheduleBatch}
    (h : former.form s = (s', .ok batch)) :
    ((batch.requests.filter unfinished).map submission ++ s'.waitingSubmissions).Sublist
      s.waitingSubmissions := by
  obtain ⟨decoded, prompted, hsel⟩ := Former.selects h
  obtain ⟨kept, hwaiting, hkept⟩ := hsel.waiting_eq
  obtain ⟨decodes, prefills, hrequests, hdecodes, hprefills⟩ := hsel.requests_eq
  have hnone : decodes.filter unfinished = [] := by
    refine List.filter_eq_nil_iff.mpr fun r hr => ?_
    obtain ⟨r₀, -, slots, rfl⟩ := exists_mem_of_forall₂ hdecodes hr
    simp [unfinished, setStage]
  have hprompted : prefills.map submission = prompted.map submission :=
    map_submission_of_forall₂ hprefills fun _ _ => Prepared.submission_eq
  have hqueue : s'.waitingSubmissions = kept.map submission :=
    map_submission_of_forall₂ hkept fun _ _ => Kept.submission_eq
  have hbefore : s.waitingSubmissions = prefills.map submission ++ kept.map submission := by
    rw [waitingSubmissions, hwaiting, List.map_append, hprompted]
  rw [hbefore, hrequests, List.filter_append, hnone, List.nil_append, hqueue]
  exact (List.filter_sublist.map submission).append (List.Sublist.refl _)

/-! ### Runs -/

/-- The submission that an operation makes. -/
def Operation.enqueued : Operation W → List NewRequest
  | .enqueue n => [n]
  | _ => []

def Operation.IsAbort : Operation W → Prop
  | .abortRequest _ => True
  | .abortAllRequests => True
  | _ => False

/-- A dispatch that forms a batch forms one with at most one unfinished prompt. -/
def OneUnfinished (s : Scheduler W) : Operation W → Prop
  | .dispatch former => ∀ s' batch, former.form s = (s', .ok batch) →
      (batch.requests.filter unfinished).length ≤ 1
  | _ => True

/-- A dispatch that forms a batch returns its outputs: the worker does not fail. -/
def Executes (s : Scheduler W) : Operation W → Prop
  | .dispatch former => ∀ s' batch, former.form s = (s', .ok batch) →
      ∃ outputs, (s.dispatch former).2 = .ok outputs
  | _ => True

omit [WorkerExecutor W] in
theorem Scheduler.InOrder.congr {submissions : List NewRequest} (h : s.InOrder submissions)
    (heq : s'.waitingSubmissions = s.waitingSubmissions) : s'.InOrder submissions := by
  unfold Scheduler.InOrder
  rwa [heq]

/-- **One step.** A dispatch with at most one unfinished prompt keeps the queue in order, whatever
the worker does. -/
theorem Scheduler.InOrder.dispatch {submissions : List NewRequest} (h : s.InOrder submissions)
    (hs : s.WaitingStaged) {former : Former} (hone : OneUnfinished s (.dispatch former)) :
    (s.dispatch former).1.InOrder submissions := by
  unfold Scheduler.dispatch dispatchFormed
  rcases hform : former.form s with ⟨s₁, error | batch⟩
  · exact h.congr (submissions_of_form_error hform)
  · obtain ⟨back, hback, hsub⟩ := waitingQueue_dispatchBatch (s := s₁)
      (staged_form s former hs hform) (hone s₁ batch hform)
    have hwaiting : (s₁.dispatchBatch batch).1.waitingSubmissions =
        back.map submission ++ s₁.waitingSubmissions := by
      rw [waitingSubmissions, hback, List.map_append]
      rfl
    refine List.Sublist.trans ?_ h
    rw [hwaiting]
    exact (hsub.append (List.Sublist.refl _)).trans (submissions_of_form_ok hform)

theorem waitingQueue_reconcilePending (pending : List ScheduledRequest) (s : Scheduler W) :
    (reconcilePending pending s).1.waitingQueue = s.waitingQueue := by
  induction pending generalizing s with
  | nil => rfl
  | cons request pending ih =>
    unfold reconcilePending
    split
    · rfl
    · rw [ih, publishPrefillChunkCachePages_eq]
    · rw [ih]
    · rw [ih]
      unfold releaseFailedPendingPrefixCache
      split
      · rfl
      · dsimp only
        split <;> rfl

theorem waitingQueue_pollTransfers : s.pollTransfers.1.waitingQueue = s.waitingQueue := by
  have hreconcile := waitingQueue_reconcilePending s.pendingPrefixCacheInserts
    { s with worker := (WorkerExecutor.pollTransfers s.worker).1, pendingPrefixCacheInserts := [] }
  unfold pollTransfers reconcilePendingPrefixCacheInserts
  dsimp only
  split
  case h_1 s' error heq =>
    rw [heq] at hreconcile
    exact hreconcile
  case h_2 s' heq =>
    rw [heq] at hreconcile
    exact hreconcile

theorem Scheduler.InOrder.step {submissions : List NewRequest} (h : s.InOrder submissions)
    (hs : s.WaitingStaged) {op : Operation W} (habort : ¬ op.IsAbort) (hone : OneUnfinished s op) :
    (s.step op).InOrder (submissions ++ op.enqueued) := by
  cases op with
  | enqueue n =>
    have hwaiting : (s.step (.enqueue n)).waitingSubmissions = s.waitingSubmissions ++ [n] := by
      simp [Scheduler.step, enqueue, waitingSubmissions]
    unfold Scheduler.InOrder
    rw [hwaiting]
    exact List.Sublist.append h (List.Sublist.refl [n])
  | dispatch former => simpa [Operation.enqueued, Scheduler.step] using h.dispatch hs hone
  | abortRequest requestId => exact absurd trivial habort
  | abortAllRequests => exact absurd trivial habort
  | pollTransfers =>
    have hpoll : (s.step .pollTransfers).InOrder submissions :=
      h.congr (congrArg (List.map submission) waitingQueue_pollTransfers)
    simpa [Operation.enqueued] using hpoll
  | flushCache =>
    have hflush : (s.step .flushCache).waitingQueue = s.waitingQueue := by
      unfold Scheduler.step flushCache
      split_ifs <;> rfl
    simpa [Operation.enqueued] using h.congr (congrArg (List.map submission) hflush)
  | updateWorker worker =>
    have hworker : (s.step (.updateWorker worker)).InOrder submissions := h.congr rfl
    simpa [Operation.enqueued] using hworker

/-- A run all of whose batches have at most one unfinished prompt keeps the queue in order. -/
theorem Scheduler.InOrder.run {submissions : List NewRequest} (h : s.InOrder submissions)
    (hs : s.WaitingStaged) {ops : List (Operation W)} (habort : ∀ op ∈ ops, ¬ op.IsAbort)
    (hone : Along Scheduler.step OneUnfinished s ops) :
    (ops.foldl Scheduler.step s).InOrder (submissions ++ ops.flatMap Operation.enqueued) := by
  induction ops generalizing s submissions with
  | nil => rwa [List.flatMap_nil, List.append_nil]
  | cons op ops ih =>
    obtain ⟨habort, haborts⟩ := List.forall_mem_cons.mp habort
    rw [List.flatMap_cons, ← List.append_assoc]
    exact ih (h.step hs habort hone.1) (waitingStaged_step hs op) haborts hone.2

/-! ### Two unfinished prompts -/

/-- In a list without duplicates no two entries occur in both orders. -/
theorem length_le_one_of_reverse_sublist {α : Type} {l us : List α} (hl : l.Nodup)
    (h : us.Sublist l) (hrev : us.reverse.Sublist l) : us.length ≤ 1 := by
  classical
  have hpair : l.Pairwise fun a b => l.idxOf a < l.idxOf b := by
    refine List.pairwise_iff_getElem.mpr fun i j hi hj hij => ?_
    rwa [hl.idxOf_getElem, hl.idxOf_getElem]
  have hup := hpair.sublist h
  have hdown := List.pairwise_reverse.mp (hpair.sublist hrev)
  match us with
  | [] => exact Nat.zero_le _
  | [_] => exact le_rfl
  | a :: b :: us =>
    have hab := List.rel_of_pairwise_cons hup List.mem_cons_self
    have hba := List.rel_of_pairwise_cons hdown List.mem_cons_self
    omega

omit [WorkerExecutor W] in
/-- The requests that an executed batch puts back. -/
theorem waiting_outcomes (requests : List ScheduledRequest) (tokens : List GeneratedToken)
    (hlen : requests.length = tokens.length) :
    (((requests.zip tokens).map fun item => item.1.outcome item.2).flatMap
      Outcome.waiting).map submission = (requests.filter unfinished).map submission := by
  induction requests generalizing tokens with
  | nil => rfl
  | cons r requests ih =>
    obtain _ | ⟨generated, tokens⟩ := tokens
    · cases hlen
    · have hone : ((r.outcome generated).waiting).map submission =
          ([r].filter unfinished).map submission := by
        have hrecord (r : ScheduledRequest) : (r.recordOutcome generated).waiting = [] := by
          unfold recordOutcome
          split_ifs <;> rfl
        unfold outcome unfinished
        split_ifs with hstage hdone
        · simp [hrecord, hstage, hdone]
        · rw [List.filter_cons_of_pos (by simp [hstage, hdone])]
          rfl
        · simp [hrecord, hstage]
      have hsplit : (r :: requests).filter unfinished =
          [r].filter unfinished ++ requests.filter unfinished := by
        rw [← List.filter_append]
        rfl
      rw [List.zip_cons_cons, List.map_cons, List.flatMap_cons, List.map_append, hone,
        ih tokens (Nat.succ.inj hlen), hsplit, List.map_append]

/-- **Two unfinished prompts change places.** A batch that is completed puts its unfinished prompts
back in reverse, so that the queue is in order only if there is at most one. -/
theorem oneUnfinished_of_inOrder {submissions : List NewRequest} (hdistinct : submissions.Nodup)
    (h : s.InOrder submissions) (hs : s.WaitingStaged) {op : Operation W} (hexec : Executes s op)
    (hafter : (s.step op).InOrder submissions) : OneUnfinished s op := by
  cases op with
  | dispatch former =>
    intro s₁ batch hform
    obtain ⟨outputs, houtputs⟩ := hexec s₁ batch hform
    have hdispatch : s.dispatch former = ((s.dispatch former).1, .ok outputs) :=
      Prod.ext rfl houtputs
    obtain ⟨s₂, batch', worker, generated, hform', -, hcomplete⟩ := dispatch_eq_ok hdispatch
    obtain ⟨rfl, hbatch⟩ := Prod.mk.inj (hform'.symm.trans hform)
    obtain rfl := Except.ok.inj hbatch
    obtain ⟨hlen, -, -, hwaiting⟩ := completeBatch_eq_ok (staged_form s former hs hform) hcomplete
    have hback := waiting_outcomes batch'.requests generated.tokens hlen
    have hlist : (s.step (.dispatch former)).waitingSubmissions =
        ((batch'.requests.filter unfinished).map submission).reverse ++
          s₂.waitingSubmissions := by
      rw [← hback, ← List.map_reverse]
      exact (congrArg (List.map submission) hwaiting).trans (List.map_append ..)
    unfold Scheduler.InOrder at hafter
    rw [hlist] at hafter
    have hsub := (List.sublist_append_left _ _).trans ((submissions_of_form_ok hform).trans h)
    have hrev := (List.sublist_append_left _ _).trans hafter
    simpa using length_le_one_of_reverse_sublist hdistinct hsub hrev
  | _ => trivial

/-- **First come, first served, if a batch has at most one unfinished prompt.** In a run without
aborts all of whose batches have at most one request whose prompt is not finished by its chunk, the
waiting queue always lists its requests in the order in which they were submitted, whatever the
worker does. If the worker does not fail and the submissions differ, it does so only in these
runs. -/
theorem waiting_queue_in_order_iff (hs : s.New) {ops : List (Operation W)}
    (habort : ∀ op ∈ ops, ¬ op.IsAbort) :
    (Along Scheduler.step OneUnfinished s ops → ∀ before, before <+: ops →
      (before.foldl Scheduler.step s).InOrder (before.flatMap Operation.enqueued)) ∧
    (Along Scheduler.step Executes s ops → (ops.flatMap Operation.enqueued).Nodup →
      (∀ before, before <+: ops →
        (before.foldl Scheduler.step s).InOrder (before.flatMap Operation.enqueued)) →
      Along Scheduler.step OneUnfinished s ops) := by
  have hstaged : s.WaitingStaged := by simp [WaitingStaged, hs.waiting_eq]
  constructor
  · rintro hone before ⟨after, rfl⟩
    have h : s.InOrder [] := by simp [Scheduler.InOrder, waitingSubmissions, hs.waiting_eq]
    exact h.run hstaged (fun op hop => habort op (List.mem_append_left _ hop))
      ((along_append s before after).mp hone).1
  · intro hexec hdistinct horder
    by_contra hnot
    obtain ⟨before, op, after, rfl, hbefore, hop⟩ := exists_first hnot
    have hexec' := ((along_append s before (op :: after)).mp hexec).2.1
    have hstaged' : (before.foldl Scheduler.step s).WaitingStaged :=
      foldl_invariant (P := fun _ _ => True) (I := fun s => s.WaitingStaged)
        (fun s op _ hs => waitingStaged_step hs op)
        (along_of_forall (fun _ _ => trivial) s before) hstaged
    have hnow := horder before (List.prefix_append _ _)
    have hnext := horder (before ++ [op]) (by simp)
    rw [List.foldl_append, List.flatMap_append, List.flatMap_singleton] at hnext
    refine hop (oneUnfinished_of_inOrder ?_ ?_ hstaged' hexec' hnext)
    · refine hdistinct.sublist ?_
      rw [List.flatMap_append, List.flatMap_cons]
      exact (List.Sublist.refl _).append (List.sublist_append_left _ _)
    · exact hnow.trans (List.sublist_append_left _ _)

/-- The theorem applied to two prompts of three tokens, with chunks of two, in batches of one. -/
theorem waiting_queue_in_order_of_single_batches :
    let a : NewRequest := ⟨⟨"a"⟩, [1, 2, 3], ⟨4⟩, none, 0⟩
    let b : NewRequest := ⟨⟨"b"⟩, [4, 5, 6], ⟨4⟩, none, 0⟩
    let s := [Operation.enqueue a, .enqueue b, .dispatch (.prefill 1 16)].foldl Scheduler.step
      (Scheduler.scripted {} 1 16 .enabled (some 2))
    s.waitingQueue.map ScheduledRequest.requestId = [⟨"a"⟩, ⟨"b"⟩] ∧ s.InOrder [a, b] := by
  intro a b s
  have hnew : (Scheduler.scripted {} 1 16 .enabled (some 2)).New := by
    refine ⟨rfl, rfl, rfl, fun a ha => ⟨16, 1, ?_⟩⟩
    rw [← Option.some.inj ha]
    rfl
  have hone : Along Scheduler.step OneUnfinished (Scheduler.scripted {} 1 16 .enabled (some 2))
      [Operation.enqueue a, .enqueue b, .dispatch (.prefill 1 16)] := by
    refine ⟨trivial, trivial, fun s' batch h => ?_, trivial⟩
    have hcount : (((Former.prefill 1 16).form ([Operation.enqueue a, .enqueue b].foldl
        Scheduler.step (Scheduler.scripted {} 1 16 .enabled (some 2)))).2.toOption.map fun batch =>
          (batch.requests.filter unfinished).length) = some 1 := by
      decide +kernel
    have hbatch := congrArg (fun formed => formed.2.toOption.map fun batch =>
      (batch.requests.filter unfinished).length) h
    exact (Option.some.inj (hbatch.symm.trans hcount)).le
  exact ⟨by decide +kernel, (waiting_queue_in_order_iff hnew (by simp [Operation.IsAbort])).1 hone
    _ List.prefix_rfl⟩

/-- Two prompts of three tokens, with chunks of two, in one batch: the second is served first
afterwards. -/
theorem waiting_queue_reversed :
    let a : NewRequest := ⟨⟨"a"⟩, [1, 2, 3], ⟨4⟩, none, 0⟩
    let b : NewRequest := ⟨⟨"b"⟩, [4, 5, 6], ⟨4⟩, none, 0⟩
    let s := [Operation.enqueue a, .enqueue b, .dispatch (.prefill 2 16)].foldl Scheduler.step
      (Scheduler.scripted {} 1 16 .enabled (some 2))
    s.waitingQueue.map ScheduledRequest.requestId = [⟨"b"⟩, ⟨"a"⟩] ∧ ¬ s.InOrder [a, b] := by
  intro a b s
  have hids : s.waitingQueue.map ScheduledRequest.requestId = [⟨"b"⟩, ⟨"a"⟩] := by
    decide +kernel
  refine ⟨hids, fun h => ?_⟩
  have hsub := h.map NewRequest.requestId
  rw [waitingSubmissions, List.map_map] at hsub
  have hwrong : [(⟨"b"⟩ : RequestId), ⟨"a"⟩].Sublist [⟨"a"⟩, ⟨"b"⟩] := hids ▸ hsub
  exact absurd hwrong (by decide)

end SglangRs
