import SglangRs.Scheduler.FormingMoves
import SglangRs.Scheduler.Places
import SglangRs.Transition.Run

/-!
# The operations are made of moves

Each operation of the scheduler is a sequence of the moves of `SglangRs.Scheduler.Moves`. The
moves an operation makes depend on the state, on the arguments and on the worker's answers; the
predicate `Guard.Admits G s op` walks through the operation and asks the guard `G` at every move.

## Main definitions

* `Guard.Admits`: every move of an operation meets the guard.

## Main results

* `moves_step`: an operation is a sequence of moves.
* `run_invariant`: a property of idle schedulers kept by every guarded move holds after every run
  whose operations the guard admits.
-/

namespace SglangRs

open Transition

variable {W : Type}

variable [WorkerExecutor W]

/-! ### The guard of an operation -/

namespace Guard

open Scheduler

variable (G : Guard W)

/-- Offering the executed chunk of `r` to the prefix cache meets the guard. -/
def AdmitsStage (s : Scheduler W) (r : ScheduledRequest) : Prop :=
  if s.prefixCachePolicy = .disabled ∨ r.skipsRadixCacheInsert then G.skip s r
  else if r.disaggregatedParams.isSome then
    match WorkerExecutor.decodeRequestState s.worker r with
    | (worker, .error _) => G.stageError { s with worker } r
    | (worker, .ok .ready) => G.publish { s with worker } r
    | (_, .ok .pending) => True
    | (worker, .ok (.failed _)) => G.stageError { s with worker } r
  else G.publish s r

/-- Recording the token of `r` meets the guard. -/
def AdmitsRecord (s : Scheduler W) (r : ScheduledRequest) (generated : GeneratedToken) : Prop :=
  G.token generated.tokenIds ∧
    (generated.finished || (r.appendOutputIds generated.tokenIds).reachedMaxNewTokens →
      match WorkerExecutor.finishRequest s.worker (r.finish generated.tokenIds) with
      | (worker, .error _) => G.finishError { s with worker } (r.finish generated.tokenIds)
      | (_, .ok ()) => True)

/-- One iteration of `complete_batch` meets the guard. -/
def AdmitsCompletion (forwardMode : ForwardMode) (c : Completion W)
    (item : ScheduledRequest × GeneratedToken) : Prop :=
  if isPrefillForward forwardMode item.1 then
    G.AdmitsStage c.scheduler item.1.advanceChunk ∧
      match c.scheduler.stagePrefillChunkCachePages item.1.advanceChunk
          item.1.advanceChunk.promptTokensProcessed with
      | (_, .error _) => True
      | (s, .ok ()) =>
          item.1.advanceChunk.isPrefillComplete → G.AdmitsRecord s item.1.advanceChunk item.2
  else G.AdmitsRecord c.scheduler item.1 item.2

/-- One iteration of `release_failed_batch_cache_pages` meets the guard. -/
def AdmitsFailure (state : Scheduler W × Option WorkerExecutionError) (r : ScheduledRequest) :
    Prop :=
  match WorkerExecutor.finishRequest state.1.worker r with
  | (worker, .error _) => G.park { state.1 with worker } r
  | (worker, .ok ()) => G.fail { state.1 with worker } r

/-- Executing a batch meets the guard. -/
def AdmitsBatch (s : Scheduler W) (batch : ScheduleBatch) : Prop :=
  match WorkerExecutor.executeBatch s.worker batch with
  | (worker, .ok generated) =>
      if batch.requests.length ≠ generated.tokens.length then
        Along Scheduler.park G.park { s with worker } batch.requests
      else
        Along (completeRequest batch.forwardMode) (G.AdmitsCompletion batch.forwardMode)
          ⟨{ s with worker }, [], none⟩ (batch.requests.zip generated.tokens)
  | (worker, .error _) =>
      Along releaseFailedRequest G.AdmitsFailure ({ s with worker }, none) batch.requests

/-- Forming and executing a batch meets the guard. -/
def AdmitsDispatch (s : Scheduler W) (former : Former) : Prop :=
  G.AdmitsForm s former ∧
    match former.form s with
    | (_, .error _) => True
    | (s, .ok batch) => G.AdmitsBatch s batch

/-- Aborting a request meets the guard. -/
def AdmitsAbort (s : Scheduler W) (requestId : RequestId) : Prop :=
  match removeRequestFromQueue requestId s.waitingQueue with
  | some _ => True
  | none =>
      match removeRequestFromQueue requestId s.decodeQueue with
      | none => True
      | some (request, decodeQueue) =>
          match WorkerExecutor.finishRequest s.worker request with
          | (_, .error _) => True
          | (worker, .ok ()) =>
              match removeRequestFromQueue requestId s.pendingPrefixCacheInserts with
              | none => True
              | some (e, pendingPrefixCacheInserts) =>
                  G.releasePending { s with worker, decodeQueue, pendingPrefixCacheInserts } e

/-- The loop of `abort_all_requests` over the pending inserts meets the guard. -/
def AdmitsAbortPending : List ScheduledRequest → Scheduler W × ℕ → Prop
  | [], _ => True
  | e :: pending, state =>
      (match WorkerExecutor.finishRequest state.1.worker e with
        | (_, .error _) => True
        | (worker, .ok ()) =>
            G.releasePending
              { state.1 with
                worker
                pendingPrefixCacheInserts := pending ++ state.1.pendingPrefixCacheInserts } e) ∧
      AdmitsAbortPending pending (abortPendingInsert state e)

/-- Aborting everything meets the guard. -/
def AdmitsAbortAll (s : Scheduler W) : Prop :=
  let ids := (s.waitingQueue ++ s.decodeQueue).map ScheduledRequest.requestId
  let state := ids.foldl abortRequests (s, 0)
  Along abortRequests (fun state id => G.AdmitsAbort state.1 id) (s, 0) ids ∧
    G.AdmitsAbortPending state.1.pendingPrefixCacheInserts
      ({ state.1 with pendingPrefixCacheInserts := [] }, state.2)

/-- Dropping pending inserts meets the guard. -/
def AdmitsLosePending (s : Scheduler W) : List ScheduledRequest → Prop
  | [] => True
  | e :: pending =>
      G.losePending
        { s with pendingPrefixCacheInserts := pending ++ s.pendingPrefixCacheInserts } e ∧
      AdmitsLosePending s pending

/-- The loop of `reconcile_pending_prefix_cache_inserts` meets the guard. -/
def AdmitsReconcile : List ScheduledRequest → Scheduler W → Prop
  | [], _ => True
  | e :: pending, s =>
      match WorkerExecutor.decodeRequestState s.worker e with
      | (worker, .error _) => G.AdmitsLosePending { s with worker } (e :: pending)
      | (worker, .ok .ready) =>
          let s := { s with worker }
          G.publish
            { s with pendingPrefixCacheInserts := pending ++ s.pendingPrefixCacheInserts } e ∧
            AdmitsReconcile pending (s.publishPrefillChunkCachePages e e.promptTokensProcessed)
      | (worker, .ok .pending) =>
          AdmitsReconcile pending
            { s with
              worker
              pendingPrefixCacheInserts := s.pendingPrefixCacheInserts ++ [e] }
      | (worker, .ok (.failed _)) =>
          let s := { s with worker }
          (match WorkerExecutor.finishRequest s.worker e with
            | (_, .error _) => True
            | (worker, .ok ()) =>
                let s := { s with worker }
                match removeRequestFromQueue e.requestId s.decodeQueue with
                | none =>
                    G.releasePending
                      { s with
                        pendingPrefixCacheInserts := pending ++ s.pendingPrefixCacheInserts } e
                | some (r, decodeQueue) =>
                    G.releasePending
                      { s with
                        decodeQueue
                        pendingPrefixCacheInserts := pending ++ s.pendingPrefixCacheInserts } e ∧
                    G.loseDecode
                      { s with
                        decodeQueue
                        pendingPrefixCacheInserts := pending ++ s.pendingPrefixCacheInserts } r) ∧
          AdmitsReconcile pending (s.releaseFailedPendingPrefixCache e)

/-- Every move of an operation meets the guard. -/
def Admits (s : Scheduler W) : Operation W → Prop
  | .enqueue request => G.submit request
  | .dispatch former => G.AdmitsDispatch s former
  | .abortRequest requestId => G.AdmitsAbort s requestId
  | .abortAllRequests => G.AdmitsAbortAll s
  | .pollTransfers =>
      G.AdmitsReconcile s.pendingPrefixCacheInserts
        { s with
          worker := (WorkerExecutor.pollTransfers s.worker).1
          pendingPrefixCacheInserts := [] }
  | .flushCache => True
  | .updateWorker _ => True

end Guard

open Scheduler

variable {G : Guard W}

/-! ### Executing a batch -/

/-- Offering an executed chunk to the prefix cache. -/
theorem moves_stage (s : Scheduler W) {r : ScheduledRequest} (t : List ScheduledRequest)
    (hr : r.stage = .prefillForward) (hg : G.AdmitsStage s r.advanceChunk) :
    Moves G ⟨s, r :: t, []⟩
      (match s.stagePrefillChunkCachePages r.advanceChunk r.advanceChunk.promptTokensProcessed with
        | (s', .ok ()) => ⟨s', t, [r.advanceChunk]⟩
        | (s', .error _) => ⟨s'.park r.advanceChunk, t, []⟩) := by
  unfold Guard.AdmitsStage at hg
  unfold stagePrefillChunkCachePages
  split_ifs at hg ⊢ with hskip hdis
  · exact .single (.skipChunk hr hskip hg)
  · have henabled : s.prefixCachePolicy = .enabled := by
      cases hpol : s.prefixCachePolicy with
      | enabled => rfl
      | disabled => exact absurd (.inl hpol) hskip
    have hsome : r.disaggregatedParams ≠ none := Option.isSome_iff_ne_none.mp hdis
    rcases hans : WorkerExecutor.decodeRequestState s.worker r.advanceChunk with ⟨worker, answer⟩
    have hworker : Moves G ⟨s, r :: t, []⟩ ⟨{ s with worker }, r :: t, []⟩ :=
      .single (.worker _ _ _ worker)
    rw [hans] at hg
    rcases answer with error | (_ | _ | message)
    · exact hworker.tail (.stageError hr hsome hg)
    · exact hworker.tail (.publishChunk hr henabled hg)
    · exact hworker.tail (.pendChunk hr henabled hsome)
    · exact hworker.tail (.stageError hr hsome hg)
  · have henabled : s.prefixCachePolicy = .enabled := by
      cases hpol : s.prefixCachePolicy with
      | enabled => rfl
      | disabled => exact absurd (.inl hpol) hskip
    exact .single (.publishChunk hr henabled hg)

/-- Recording a generated token. -/
theorem moves_recordGeneratedToken (c : Completion W) {r : ScheduledRequest}
    (t : List ScheduledRequest) (generated : GeneratedToken)
    (hc : r.stage = .prefillForward → r.isPrefillComplete = true)
    (hg : G.AdmitsRecord c.scheduler r generated) :
    Moves G ⟨c.scheduler, t, [r]⟩ ⟨(recordGeneratedToken c r generated).scheduler, t, []⟩ := by
  unfold Guard.AdmitsRecord at hg
  unfold recordGeneratedToken
  dsimp only
  split_ifs with hfin
  · have hg' := hg.2 hfin
    rcases hans : WorkerExecutor.finishRequest c.scheduler.worker (r.finish generated.tokenIds) with
      ⟨worker, error | ⟨⟩⟩
    all_goals
      have hworker : Moves G ⟨c.scheduler, t, [r]⟩ ⟨{ c.scheduler with worker }, t, [r]⟩ :=
        .single (.worker _ _ _ worker)
      rw [hans] at hg'
      rw [ScheduledRequest.finish] at hans
      rw [hans]
    · exact hworker.tail (.finishError generated.tokenIds hc hg.1 hg')
    · exact hworker.tail (.finish generated.tokenIds hc hg.1)
  · exact .single (.requeueToken generated.tokenIds hc hg.1)

/-- Completing a prompt chunk. -/
theorem completeRequest_of_prefill {forwardMode : ForwardMode} (c : Completion W)
    {r : ScheduledRequest} (generated : GeneratedToken)
    (h : isPrefillForward forwardMode r = true) :
    completeRequest forwardMode c (r, generated) =
      match c.scheduler.stagePrefillChunkCachePages r.advanceChunk
          r.advanceChunk.promptTokensProcessed with
      | (s, .error error) =>
          { c with scheduler := s.park r.advanceChunk, completionError := some error }
      | (s, .ok ()) =>
          if r.advanceChunk.isPrefillComplete then
            recordGeneratedToken { c with scheduler := s } r.advanceChunk generated
          else
            { c with
              scheduler :=
                { s with waitingQueue := r.advanceChunk.awaitChunk :: s.waitingQueue } } := by
  simp only [completeRequest, if_pos h]
  change (match c.scheduler.stagePrefillChunkCachePages r.advanceChunk
    r.advanceChunk.promptTokensProcessed with | (s, .error error) => _ | (s, .ok ()) => _) = _
  rcases c.scheduler.stagePrefillChunkCachePages r.advanceChunk
    r.advanceChunk.promptTokensProcessed with ⟨s, error | ⟨⟩⟩
  · rfl
  · by_cases hdone : r.advanceChunk.isPrefillComplete = true
    · exact (if_neg (not_not.mpr hdone)).trans (if_pos hdone).symm
    · exact (if_pos hdone).trans (if_neg hdone).symm

theorem completeRequest_of_decode {forwardMode : ForwardMode} (c : Completion W)
    {r : ScheduledRequest} (generated : GeneratedToken)
    (h : ¬isPrefillForward forwardMode r = true) :
    completeRequest forwardMode c (r, generated) = recordGeneratedToken c r generated := by
  simp only [completeRequest, if_neg h]

omit [WorkerExecutor W] in
/-- `complete_batch` treats a request as a prompt chunk exactly if its stage says so. -/
theorem isPrefillForward_iff {forwardMode : ForwardMode} {r : ScheduledRequest}
    (hstage : (r.stage = .prefillForward ∧ forwardMode ≠ .decode) ∨
      (r.stage = .decodeForward ∧ forwardMode ≠ .prefill)) :
    isPrefillForward forwardMode r = true ↔ r.stage = .prefillForward := by
  rcases hstage with ⟨hr, hmode⟩ | ⟨hr, hmode⟩ <;> simp [isPrefillForward, hr, hmode]

/-- Completing a request of an executed batch. -/
theorem moves_completeRequest (forwardMode : ForwardMode) (c : Completion W)
    (item : ScheduledRequest × GeneratedToken) (t : List ScheduledRequest)
    (hstage : (item.1.stage = .prefillForward ∧ forwardMode ≠ .decode) ∨
      (item.1.stage = .decodeForward ∧ forwardMode ≠ .prefill))
    (hg : G.AdmitsCompletion forwardMode c item) :
    Moves G ⟨c.scheduler, item.1 :: t, []⟩
      ⟨(completeRequest forwardMode c item).scheduler, t, []⟩ := by
  obtain ⟨r, generated⟩ := item
  unfold Guard.AdmitsCompletion at hg
  by_cases hprefill : isPrefillForward forwardMode r = true
  · have hr := (isPrefillForward_iff hstage).mp hprefill
    rw [if_pos hprefill] at hg
    have hmoves := moves_stage c.scheduler t hr hg.1
    rw [completeRequest_of_prefill c generated hprefill]
    rcases hres : c.scheduler.stagePrefillChunkCachePages r.advanceChunk
        r.advanceChunk.promptTokensProcessed with ⟨s', error | ⟨⟩⟩
    · rw [hres] at hmoves
      exact hmoves
    · rw [hres] at hmoves hg
      dsimp only at hmoves hg ⊢
      split_ifs with hdone
      · exact hmoves.trans (moves_recordGeneratedToken { c with scheduler := s' } t generated
          (fun _ => hdone) (hg.2 hdone))
      · exact hmoves.tail (.requeueChunk hr (by simpa using hdone))
  · have hr : r.stage = .decodeForward :=
      (hstage.resolve_left fun h => hprefill ((isPrefillForward_iff hstage).mpr h.1)).1
    rw [if_neg hprefill] at hg
    have hexec : Moves G ⟨c.scheduler, r :: t, []⟩ ⟨c.scheduler, t, [r]⟩ :=
      .single (.executeDecode hr)
    rw [completeRequest_of_decode c generated hprefill]
    exact hexec.trans (moves_recordGeneratedToken c t generated (by simp [hr]) hg)

theorem moves_foldl_completeRequest (forwardMode : ForwardMode) (c : Completion W)
    (requests : List ScheduledRequest) (tokens : List GeneratedToken)
    (hlen : requests.length = tokens.length)
    (hstage : ∀ r ∈ requests, (r.stage = .prefillForward ∧ forwardMode ≠ .decode) ∨
      (r.stage = .decodeForward ∧ forwardMode ≠ .prefill))
    (hg : Along (completeRequest forwardMode) (G.AdmitsCompletion forwardMode) c
      (requests.zip tokens)) :
    Moves G ⟨c.scheduler, requests, []⟩
      ((requests.zip tokens).foldl (completeRequest forwardMode) c).scheduler.idle := by
  induction requests generalizing c tokens with
  | nil => exact .refl
  | cons r requests ih =>
    cases tokens with
    | nil => simp at hlen
    | cons generated tokens =>
      rw [List.zip_cons_cons, along_cons] at hg
      rw [List.zip_cons_cons, List.foldl_cons]
      refine (moves_completeRequest forwardMode c (r, generated) requests
        (hstage r List.mem_cons_self) hg.1).trans ?_
      exact ih _ tokens (by simpa using hlen) (fun x hx => hstage x (List.mem_cons_of_mem _ hx))
        hg.2

omit [WorkerExecutor W] in
/-- Putting requests at the end of the decode queue one by one. -/
theorem moves_park (s : Scheduler W) (requests : List ScheduledRequest)
    (hg : Along Scheduler.park G.park s requests) :
    Moves G ⟨s, requests, []⟩
      { s with decodeQueue := s.decodeQueue ++ requests }.idle := by
  induction requests generalizing s with
  | nil =>
    rw [List.append_nil]
    exact .refl
  | cons r requests ih =>
    refine Relation.ReflTransGen.head (.park hg.1) ?_
    have hih := ih (s.park r) hg.2
    simp only [Scheduler.park, List.append_assoc, List.singleton_append] at hih
    exact hih

/-- Retiring an executed batch. -/
theorem moves_completeBatch (s : Scheduler W) (batch : ScheduleBatch)
    (generated : BatchGeneratedTokens) (hstage : batch.Staged)
    (hg : if batch.requests.length ≠ generated.tokens.length then
        Along Scheduler.park G.park s batch.requests
      else Along (completeRequest batch.forwardMode) (G.AdmitsCompletion batch.forwardMode)
        ⟨s, [], none⟩ (batch.requests.zip generated.tokens)) :
    Moves G ⟨s, batch.requests, []⟩ (s.completeBatch batch generated).1.idle := by
  unfold completeBatch
  split_ifs at hg ⊢ with hlen
  · exact moves_park s batch.requests hg
  · exact moves_foldl_completeRequest _ _ _ _ (by simpa using hlen) hstage hg

/-- Cleaning up after a batch that could not be executed. -/
theorem moves_releaseFailedBatch (state : Scheduler W × Option WorkerExecutionError)
    (requests : List ScheduledRequest)
    (hg : Along releaseFailedRequest G.AdmitsFailure state requests) :
    Moves G ⟨state.1, requests, []⟩ (requests.foldl releaseFailedRequest state).1.idle := by
  induction requests generalizing state with
  | nil => exact .refl
  | cons r requests ih =>
    rw [along_cons] at hg
    refine Relation.ReflTransGen.trans ?_ (ih _ hg.2)
    obtain ⟨s, cleanup⟩ := state
    have hfirst := hg.1
    unfold Guard.AdmitsFailure at hfirst
    unfold releaseFailedRequest
    dsimp only at hfirst ⊢
    rcases hans : WorkerExecutor.finishRequest s.worker r with ⟨worker, error | ⟨⟩⟩
    all_goals
      have hworker : Moves G ⟨s, r :: requests, []⟩ ⟨{ s with worker }, r :: requests, []⟩ :=
        .single (.worker _ _ _ worker)
      rw [hans] at hfirst
    · exact hworker.tail (.park hfirst)
    · exact (hworker.tail (.fail hfirst)).tail (.worker _ _ _ _)

/-- Executing a batch. -/
theorem moves_dispatchBatch (s : Scheduler W) (batch : ScheduleBatch) (hstage : batch.Staged)
    (hg : G.AdmitsBatch s batch) :
    Moves G ⟨s, batch.requests, []⟩ (s.dispatchBatch batch).1.idle := by
  unfold Guard.AdmitsBatch at hg
  unfold dispatchBatch
  rcases hans : WorkerExecutor.executeBatch s.worker batch with ⟨worker, error | generated⟩
  all_goals
    have hworker : Moves G ⟨s, batch.requests, []⟩ ⟨{ s with worker }, batch.requests, []⟩ :=
      .single (.worker _ _ _ worker)
    rw [hans] at hg
  · refine hworker.trans ?_
    have hmoves := moves_releaseFailedBatch _ _ hg
    unfold releaseFailedBatchCachePages
    dsimp only at hmoves ⊢
    split
    case h_1 s' cleanup heq =>
      obtain ⟨rfl, -⟩ := Prod.mk.inj heq
      exact hmoves
    case h_2 s' heq =>
      obtain ⟨rfl, -⟩ := Prod.mk.inj heq
      exact hmoves
  · exact hworker.trans (moves_completeBatch _ _ _ hstage hg)

/-- Forming and executing a batch. -/
theorem moves_dispatch (s : Scheduler W) (f : Former) (hs : s.WaitingStaged)
    (hg : G.AdmitsDispatch s f) : Moves G s.idle (s.dispatch f).1.idle := by
  obtain ⟨hform, hbatch⟩ := hg
  have hmoves := moves_form s f hs hform
  unfold Scheduler.dispatch dispatchFormed
  rcases hformed : f.form s with ⟨s', error | batch⟩
  · rw [hformed] at hmoves
    exact hmoves
  · rw [hformed] at hmoves hbatch
    exact hmoves.trans (moves_dispatchBatch s' batch (staged_form s f hs hformed) hbatch)

/-! ### Aborts -/

theorem perm_of_removeRequestFromQueue {requestId : RequestId} {queue rest : List ScheduledRequest}
    {r : ScheduledRequest} (h : removeRequestFromQueue requestId queue = some (r, rest)) :
    queue.Perm (r :: rest) ∧ r.requestId = requestId := by
  induction queue generalizing r rest with
  | nil => simp [removeRequestFromQueue] at h
  | cons x queue ih =>
    unfold removeRequestFromQueue at h
    split_ifs at h with hid
    · obtain ⟨rfl, rfl⟩ := Prod.mk.inj (Option.some.inj h)
      exact ⟨.rfl, hid⟩
    · obtain ⟨⟨found, rest'⟩, hfound, heq⟩ := Option.map_eq_some_iff.mp h
      obtain ⟨rfl, rfl⟩ := Prod.mk.inj heq
      obtain ⟨hperm, hid'⟩ := ih hfound
      exact ⟨(hperm.cons x).trans (.swap _ _ _), hid'⟩

theorem moves_abortRequest (s : Scheduler W) (requestId : RequestId)
    (hg : G.AdmitsAbort s requestId) : Moves G s.idle (s.abortRequest requestId).1.idle := by
  unfold Guard.AdmitsAbort at hg
  unfold abortRequest
  rcases hw : removeRequestFromQueue requestId s.waitingQueue with - | ⟨r, queue⟩
  · rw [hw] at hg
    rcases hd : removeRequestFromQueue requestId s.decodeQueue with - | ⟨r, queue⟩
    · exact .refl
    · rw [hd] at hg
      obtain ⟨hperm, -⟩ := perm_of_removeRequestFromQueue hd
      dsimp only at hg ⊢
      rcases hans : WorkerExecutor.finishRequest s.worker r with ⟨worker, error | ⟨⟩⟩
      all_goals
        have hfront : Moves G s.idle { s with worker, decodeQueue := r :: queue }.idle :=
          (Relation.ReflTransGen.single (.worker _ _ _ worker)).tail
            (.reorder { s with worker } _ _ .rfl hperm .rfl .rfl)
        rw [hans] at hg
      · exact hfront
      · unfold releasePendingPrefixCacheInsert
        dsimp only at hg ⊢
        rcases hp : removeRequestFromQueue requestId s.pendingPrefixCacheInserts with
          - | ⟨e, pending⟩
        · exact hfront.tail (.abortDecode rfl)
        · rw [hp] at hg
          obtain ⟨hpperm, -⟩ := perm_of_removeRequestFromQueue hp
          have hboth : Moves G s.idle
              { s with
                worker, decodeQueue := r :: queue
                pendingPrefixCacheInserts := e :: pending }.idle :=
            hfront.tail
              (.reorder { s with worker, decodeQueue := r :: queue } _ _ .rfl .rfl hpperm .rfl)
          exact hboth.tail (.abortDecodePending rfl rfl hg)
  · obtain ⟨hperm, -⟩ := perm_of_removeRequestFromQueue hw
    dsimp only
    rcases hans : WorkerExecutor.finishRequest s.worker r with ⟨worker, error | ⟨⟩⟩
    all_goals
      have hfront : Moves G s.idle { s with worker, waitingQueue := r :: queue }.idle :=
        (Relation.ReflTransGen.single (.worker _ _ _ worker)).tail
          (.reorder { s with worker } _ _ hperm .rfl .rfl .rfl)
    · exact hfront
    · exact hfront.tail (.abortWaiting rfl)

theorem moves_foldl_abortRequests (state : Scheduler W × ℕ) (ids : List RequestId)
    (hg : Along abortRequests (fun state id => G.AdmitsAbort state.1 id) state ids) :
    Moves G state.1.idle (ids.foldl abortRequests state).1.idle := by
  induction ids generalizing state with
  | nil => exact .refl
  | cons id ids ih => exact (moves_abortRequest state.1 id hg.1).trans (ih _ hg.2)

/-- The loop over the pending inserts, those not yet looked at being put back. -/
theorem moves_abortPending (pending : List ScheduledRequest) (state : Scheduler W × ℕ)
    (hg : G.AdmitsAbortPending pending state) :
    Moves G
      { state.1 with
        pendingPrefixCacheInserts := pending ++ state.1.pendingPrefixCacheInserts }.idle
      (pending.foldl abortPendingInsert state).1.idle := by
  induction pending generalizing state with
  | nil => exact .refl
  | cons e pending ih =>
    obtain ⟨s, aborted⟩ := state
    obtain ⟨hfirst, hrest⟩ := hg
    refine Relation.ReflTransGen.trans ?_ (ih _ hrest)
    unfold abortPendingInsert
    dsimp only at hfirst ⊢
    rcases hans : WorkerExecutor.finishRequest s.worker e with ⟨worker, error | ⟨⟩⟩
    all_goals
      have hworker : Moves G
          { s with pendingPrefixCacheInserts := e :: pending ++ s.pendingPrefixCacheInserts }.idle
          { s with
            worker
            pendingPrefixCacheInserts := e :: pending ++ s.pendingPrefixCacheInserts }.idle :=
        .single (.worker _ _ _ worker)
      rw [hans] at hfirst
    · refine hworker.tail (.reorder _ _ _ .rfl .rfl ?_ .rfl)
      dsimp only
      rw [← List.append_assoc, List.cons_append]
      exact (List.perm_append_singleton e (pending ++ s.pendingPrefixCacheInserts)).symm
    · exact hworker.tail (.releasePending rfl hfirst)

theorem moves_abortAllRequests (s : Scheduler W) (hg : G.AdmitsAbortAll s) :
    Moves G s.idle s.abortAllRequests.1.idle := by
  obtain ⟨hids, hpending⟩ := hg
  refine (moves_foldl_abortRequests (s, 0) _ hids).trans ?_
  have hmoves := moves_abortPending _ _ hpending
  rw [List.append_nil] at hmoves
  exact hmoves

/-! ### Transfers -/

omit [WorkerExecutor W] in
theorem moves_losePending (s : Scheduler W) (pending : List ScheduledRequest)
    (hg : G.AdmitsLosePending s pending) :
    Moves G
      { s with pendingPrefixCacheInserts := pending ++ s.pendingPrefixCacheInserts }.idle
      s.idle := by
  induction pending with
  | nil => exact .refl
  | cons e pending ih =>
    exact Relation.ReflTransGen.head (.losePending rfl hg.1) (ih hg.2)

/-- Dropping a pending insert whose transfer failed, the inserts not yet looked at being put
back. -/
theorem moves_releaseFailedPending (s : Scheduler W) (e : ScheduledRequest)
    (pending : List ScheduledRequest)
    (hg : match WorkerExecutor.finishRequest s.worker e with
      | (_, .error _) => True
      | (worker, .ok ()) =>
          let s := { s with worker }
          match removeRequestFromQueue e.requestId s.decodeQueue with
          | none =>
              G.releasePending
                { s with
                  pendingPrefixCacheInserts := pending ++ s.pendingPrefixCacheInserts } e
          | some (r, decodeQueue) =>
              G.releasePending
                { s with
                  decodeQueue
                  pendingPrefixCacheInserts := pending ++ s.pendingPrefixCacheInserts } e ∧
              G.loseDecode
                { s with
                  decodeQueue
                  pendingPrefixCacheInserts := pending ++ s.pendingPrefixCacheInserts } r) :
    Moves G
      { s with pendingPrefixCacheInserts := e :: pending ++ s.pendingPrefixCacheInserts }.idle
      { s.releaseFailedPendingPrefixCache e with
        pendingPrefixCacheInserts :=
          pending ++ (s.releaseFailedPendingPrefixCache e).pendingPrefixCacheInserts }.idle := by
  unfold releaseFailedPendingPrefixCache
  rcases hans : WorkerExecutor.finishRequest s.worker e with ⟨worker, error | ⟨⟩⟩
  all_goals
    have hworker : Moves G
        { s with pendingPrefixCacheInserts := e :: pending ++ s.pendingPrefixCacheInserts }.idle
        { s with
          worker
          pendingPrefixCacheInserts := e :: pending ++ s.pendingPrefixCacheInserts }.idle :=
      .single (.worker _ _ _ worker)
    rw [hans] at hg
  · refine hworker.tail (.reorder _ _ _ .rfl .rfl ?_ .rfl)
    dsimp only
    rw [← List.append_assoc, List.cons_append]
    exact (List.perm_append_singleton e (pending ++ s.pendingPrefixCacheInserts)).symm
  · dsimp only [releaseUnpublishedCachePages, release] at hg ⊢
    rcases hd : removeRequestFromQueue e.requestId s.decodeQueue with - | ⟨r, queue⟩
    · rw [hd] at hg
      exact (hworker.tail (.releasePending rfl hg)).tail (.worker _ _ _ _)
    · rw [hd] at hg
      obtain ⟨hperm, -⟩ := perm_of_removeRequestFromQueue hd
      have hfront : Moves G
          { s with pendingPrefixCacheInserts := e :: pending ++ s.pendingPrefixCacheInserts }.idle
          { s with
            worker, decodeQueue := r :: queue
            pendingPrefixCacheInserts := e :: pending ++ s.pendingPrefixCacheInserts }.idle :=
        hworker.tail (.reorder
          { s with
            worker
            pendingPrefixCacheInserts := e :: pending ++ s.pendingPrefixCacheInserts }
          _ _ .rfl hperm .rfl .rfl)
      exact (hfront.tail (.failTransfer rfl rfl hg.1 hg.2)).tail (.worker _ _ _ _)

/-- The loop over the pending inserts, those not yet looked at being put back. -/
theorem moves_reconcilePending (pending : List ScheduledRequest) (s : Scheduler W)
    (hg : G.AdmitsReconcile pending s) :
    Moves G
      { s with pendingPrefixCacheInserts := pending ++ s.pendingPrefixCacheInserts }.idle
      (reconcilePending pending s).1.idle := by
  induction pending generalizing s with
  | nil => exact .refl
  | cons e pending ih =>
    unfold Guard.AdmitsReconcile at hg
    unfold reconcilePending
    rcases hans : WorkerExecutor.decodeRequestState s.worker e with
      ⟨worker, error | (_ | _ | message)⟩
    all_goals
      have hworker : Moves G
          { s with pendingPrefixCacheInserts := e :: pending ++ s.pendingPrefixCacheInserts }.idle
          { s with
            worker
            pendingPrefixCacheInserts := e :: pending ++ s.pendingPrefixCacheInserts }.idle :=
        .single (.worker _ _ _ worker)
      rw [hans] at hg
    · exact hworker.trans (moves_losePending { s with worker } (e :: pending) hg)
    · refine (hworker.tail (.publishPending rfl hg.1)).trans ?_
      have hih := ih _ hg.2
      simp only [publishPrefillChunkCachePages_eq] at hih ⊢
      exact hih
    · have hih := ih _ hg
      refine (hworker.tail (.reorder _ _ _ .rfl .rfl ?_ .rfl)).trans hih
      dsimp only
      rw [← List.append_assoc, List.cons_append]
      exact (List.perm_append_singleton e (pending ++ s.pendingPrefixCacheInserts)).symm
    · exact hworker.trans ((moves_releaseFailedPending { s with worker } e pending hg.1).trans
        (ih _ hg.2))

theorem moves_pollTransfers (s : Scheduler W) (hg : G.Admits s .pollTransfers) :
    Moves G s.idle s.pollTransfers.1.idle := by
  have hmoves := moves_reconcilePending _ _ hg
  rw [List.append_nil] at hmoves
  have hworker : Moves G s.idle
      { s with worker := (WorkerExecutor.pollTransfers s.worker).1 }.idle :=
    .single (.worker _ _ _ _)
  have heq : s.pollTransfers.1 =
      ({ s with worker := (WorkerExecutor.pollTransfers s.worker).1
         }.reconcilePendingPrefixCacheInserts).1 := by
    unfold pollTransfers
    dsimp only
    split
    case h_1 s' error heq => rw [heq]
    case h_2 s' heq => rw [heq]
  rw [heq]
  exact hworker.trans hmoves

/-! ### Operations and runs -/

/-- **An operation is a sequence of moves.** -/
theorem moves_step (s : Scheduler W) (op : Operation W) (hs : s.WaitingStaged)
    (hg : G.Admits s op) : Moves G s.idle (s.step op).idle := by
  cases op with
  | enqueue request => exact .single (.enqueue _ _ _ request hg)
  | dispatch f => exact moves_dispatch s f hs hg
  | abortRequest requestId => exact moves_abortRequest s requestId hg
  | abortAllRequests => exact moves_abortAllRequests s hg
  | pollTransfers => exact moves_pollTransfers s hg
  | flushCache =>
    unfold Scheduler.step
    by_cases hq : ¬s.waitingQueue.isEmpty ∨ ¬s.decodeQueue.isEmpty
    · rw [flushCache, if_pos hq]
      exact .refl
    · push Not at hq
      exact .single (.flush (by simpa using hq.1) (by simpa using hq.2))
  | updateWorker worker => exact .single (.worker _ _ _ worker)

omit [WorkerExecutor W] in
/-- Every move keeps the waiting queue marked as waiting. -/
theorem Move.waitingStaged {c c' : Config W} (h : Move G c c') (hc : c.scheduler.WaitingStaged) :
    c'.scheduler.WaitingStaged :=
  h.waiting (fun _ => rfl) (fun s r hr => (s.stage_withPrefix r).trans hr) (fun _ => rfl)
    (fun _ => rfl) hc

/-- **Invariants of runs.** A property kept by every guarded move holds after every run whose
operations the guard admits, and so does the marking of the waiting queue. -/
theorem run_invariant {J : Config W → Prop} (hJ : ∀ c c', Move G c c' → J c → J c')
    {s : Scheduler W} {ops : List (Operation W)} (hg : Along Scheduler.step G.Admits s ops)
    (hs : s.WaitingStaged) (h : J s.idle) :
    (ops.foldl Scheduler.step s).WaitingStaged ∧ J (ops.foldl Scheduler.step s).idle := by
  refine foldl_invariant (I := fun s => s.WaitingStaged ∧ J s.idle) ?_ hg ⟨hs, h⟩
  intro s op hop hinv
  have hmoves := moves_step s op hinv.1 hop
  exact ⟨hmoves.invariant (J := fun c => c.scheduler.WaitingStaged) (fun _ _ => Move.waitingStaged)
    hinv.1, hmoves.invariant hJ hinv.2⟩

/-! ### Guards on submissions and tokens only -/

/-- The guard that only restricts what is submitted and, if told so, the tokens generated. -/
def Guard.submitting (P : NewRequest → Prop) (T : List UInt32 → Prop := fun _ => True) : Guard W :=
  { submit := P, token := T }

section Submitting

variable {P : NewRequest → Prop} {T : List UInt32 → Prop}

theorem Guard.admitsRecord_submitting (s : Scheduler W) (r : ScheduledRequest)
    (generated : GeneratedToken) : (Guard.submitting P).AdmitsRecord s r generated := by
  refine ⟨trivial, fun _ => ?_⟩
  split <;> trivial

theorem Guard.admitsCompletion_submitting (forwardMode : ForwardMode) (c : Completion W)
    (item : ScheduledRequest × GeneratedToken) :
    (Guard.submitting P).AdmitsCompletion forwardMode c item := by
  unfold Guard.AdmitsCompletion
  split_ifs
  · refine ⟨?_, ?_⟩
    · unfold Guard.AdmitsStage
      split_ifs
      · trivial
      · split <;> trivial
      · trivial
    · split
      · trivial
      · exact fun _ => admitsRecord_submitting _ _ _
  · exact admitsRecord_submitting _ _ _

theorem Guard.admitsBatch_submitting (s : Scheduler W) (batch : ScheduleBatch) :
    (Guard.submitting P).AdmitsBatch s batch := by
  unfold Guard.AdmitsBatch
  split
  · split_ifs
    · exact along_of_forall (fun _ _ => trivial) _ _
    · exact along_of_forall (fun c item => admitsCompletion_submitting _ c item) _ _
  · refine along_of_forall (fun state r => ?_) _ _
    unfold Guard.AdmitsFailure
    split <;> trivial

theorem Guard.admitsAbort_submitting (s : Scheduler W) (id : RequestId) :
    (Guard.submitting P T).AdmitsAbort s id := by
  unfold Guard.AdmitsAbort
  repeat' split
  all_goals trivial

theorem Guard.admitsAbortPending_submitting (pending : List ScheduledRequest)
    (state : Scheduler W × ℕ) : (Guard.submitting P T).AdmitsAbortPending pending state := by
  induction pending generalizing state with
  | nil => trivial
  | cons e pending ih =>
    refine ⟨?_, ih _⟩
    split <;> trivial

omit [WorkerExecutor W] in
theorem Guard.admitsLosePending_submitting (s : Scheduler W) (pending : List ScheduledRequest) :
    (Guard.submitting P T).AdmitsLosePending s pending := by
  induction pending with
  | nil => trivial
  | cons e pending ih => exact ⟨trivial, ih⟩

theorem Guard.admitsReconcile_submitting (pending : List ScheduledRequest) (s : Scheduler W) :
    (Guard.submitting P T).AdmitsReconcile pending s := by
  induction pending generalizing s with
  | nil => trivial
  | cons e pending ih =>
    unfold Guard.AdmitsReconcile
    split
    · exact admitsLosePending_submitting _ _
    · exact ⟨trivial, ih _⟩
    · exact ih _
    · refine ⟨?_, ih _⟩
      split
      · trivial
      · dsimp only
        split
        · trivial
        · exact ⟨trivial, trivial⟩

/-- The guard admits the forming of every batch. -/
theorem Guard.admitsForm_submitting (s : Scheduler W) (f : Former) :
    (Guard.submitting P T).AdmitsForm s f := by
  cases f with
  | decodeWhenReady => trivial
  | _ => exact fun _ _ => trivial

/-- A guard on submissions and tokens admits every operation that neither submits a request nor
dispatches a batch. -/
theorem Guard.admits_submitting_of_ne_dispatch (s : Scheduler W) (op : Operation W)
    (hsubmit : ∀ n, op = .enqueue n → P n) (hdispatch : ∀ f, op ≠ .dispatch f) :
    (Guard.submitting P T).Admits s op := by
  cases op with
  | enqueue n => exact hsubmit n rfl
  | dispatch f => exact absurd rfl (hdispatch f)
  | abortRequest id => exact admitsAbort_submitting s id
  | abortAllRequests =>
    refine ⟨along_of_forall ?_ _ _, admitsAbortPending_submitting _ _⟩
    exact fun state id => admitsAbort_submitting state.1 id
  | pollTransfers => exact admitsReconcile_submitting _ _
  | flushCache => trivial
  | updateWorker worker => trivial

/-- A guard on submissions admits every other operation. -/
theorem Guard.admits_submitting (s : Scheduler W) (op : Operation W)
    (h : ∀ n, op = .enqueue n → P n) : (Guard.submitting P).Admits s op := by
  cases op with
  | dispatch f =>
    refine ⟨admitsForm_submitting s f, ?_⟩
    split
    · trivial
    · exact admitsBatch_submitting _ _
  | _ => exact admits_submitting_of_ne_dispatch s _ h (by simp)

end Submitting

/-- Every operation keeps the waiting queue marked as waiting. -/
theorem waitingStaged_step {s : Scheduler W} (hs : s.WaitingStaged) (op : Operation W) :
    (s.step op).WaitingStaged :=
  (moves_step s op hs (Guard.admits_submitting (P := fun _ => True) s op
    fun _ _ => trivial)).invariant (J := fun c => c.scheduler.WaitingStaged)
    (fun _ _ => Move.waitingStaged) hs

end SglangRs
