import SglangRs.Engine.Generation
import SglangRs.Scheduler.Dispatch
import SglangRs.Scheduler.Selection

/-!
# Attribution of outputs in batch calls

A batch call attributes the outputs of a dispatch to its requests by position. The positions are
right as long as the list of active positions mirrors the decode queue, and it does so only if the
prefill batch held all requests and each of them had its whole prompt processed. If a request is
missing in the decode queue, because the limit of running requests cut the batch, because its prompt
was cut into chunks or because its transfer failed, the active list stays longer than the queue, the
queue is empty before all are finished, and the call returns an error.

## Main definitions

* `Engine.Mirrors`: the active list mirrors the decode queue, and the groups hold the outputs of
  their requests.

## Main results

* `ids_of_dispatch_prefill`, `ids_of_dispatch_decode`: the ids of the outputs of a dispatch.
* `batchLoop_of_gap`: a call whose active list is longer than the decode queue does not return
  groups.
* `groups_of_batchWith`: the groups returned hold the outputs of their requests.
-/

namespace SglangRs

open Scheduler

variable {W : Type} [WorkerExecutor W]

/-! ### The ids of outputs -/

/-- The ids of some requests. -/
def requestIds (queue : List ScheduledRequest) : List RequestId :=
  queue.map ScheduledRequest.requestId

theorem requestIds_append (queue queue' : List ScheduledRequest) :
    requestIds (queue ++ queue') = requestIds queue ++ requestIds queue' :=
  List.map_append

/-- The ids of the unfinished outputs. -/
def unfinishedIds (outputs : List ScheduledOutput) : List RequestId :=
  (outputs.filter fun o => ¬o.finished).map ScheduledOutput.requestId

@[simp] theorem unfinishedIds_append (outputs outputs' : List ScheduledOutput) :
    unfinishedIds (outputs ++ outputs') = unfinishedIds outputs ++ unfinishedIds outputs' := by
  simp [unfinishedIds]

theorem recordOutcome_ids (r : ScheduledRequest) (generated : GeneratedToken) :
    (r.recordOutcome generated).outputs.map ScheduledOutput.requestId = [r.requestId] ∧
      requestIds (r.recordOutcome generated).decoding =
        unfinishedIds (r.recordOutcome generated).outputs := by
  unfold ScheduledRequest.recordOutcome
  split_ifs
  · exact ⟨rfl, rfl⟩
  · exact ⟨rfl, rfl⟩

theorem outcome_ids (r : ScheduledRequest) (generated : GeneratedToken) :
    ((r.outcome generated).outputs.map ScheduledOutput.requestId).Sublist [r.requestId] ∧
      requestIds (r.outcome generated).decoding = unfinishedIds (r.outcome generated).outputs := by
  unfold ScheduledRequest.outcome
  split_ifs
  · obtain ⟨hid, hdec⟩ := recordOutcome_ids r.advanceChunk generated
    exact ⟨by rw [hid]; exact List.Sublist.refl _, hdec⟩
  · exact ⟨List.nil_sublist _, rfl⟩
  · obtain ⟨hid, hdec⟩ := recordOutcome_ids r generated
    exact ⟨by rw [hid], hdec⟩

theorem outcomes_ids (items : List (ScheduledRequest × GeneratedToken)) :
    let outcomes := items.map fun item => item.1.outcome item.2
    ((outcomes.flatMap Outcome.outputs).map ScheduledOutput.requestId).Sublist
        (requestIds (items.map Prod.fst)) ∧
      requestIds (outcomes.flatMap Outcome.decoding) =
        unfinishedIds (outcomes.flatMap Outcome.outputs) := by
  induction items with
  | nil => exact ⟨List.Sublist.refl _, rfl⟩
  | cons item items ih =>
    obtain ⟨hids, hdec⟩ := outcome_ids item.1 item.2
    refine ⟨?_, ?_⟩
    · simp only [List.map_cons, List.flatMap_cons, List.map_append]
      exact hids.append ih.1
    · simp only [List.map_cons, List.flatMap_cons, unfinishedIds_append]
      rw [← hdec, ← ih.2, requestIds_append]

/-- The outcomes of decode requests return one output each. -/
theorem outcomes_ids_of_decode (items : List (ScheduledRequest × GeneratedToken))
    (h : ∀ item ∈ items, item.1.stage = .decodeForward) :
    ((items.map fun item => item.1.outcome item.2).flatMap Outcome.outputs).map
        ScheduledOutput.requestId = requestIds (items.map Prod.fst) := by
  induction items with
  | nil => rfl
  | cons item items ih =>
    obtain ⟨hfirst, hrest⟩ := List.forall_mem_cons.mp h
    have hid : (item.1.outcome item.2).outputs.map ScheduledOutput.requestId =
        [item.1.requestId] := by
      rw [ScheduledRequest.outcome, if_neg (by simp [hfirst])]
      exact (recordOutcome_ids item.1 item.2).1
    simp only [List.map_cons, List.flatMap_cons, List.map_append, hid, ih hrest]
    rfl

theorem requestIds_of_forall₂ {R : ScheduledRequest → ScheduledRequest → Prop}
    (hR : ∀ r r', R r r' → r'.requestId = r.requestId) {l l' : List ScheduledRequest}
    (h : List.Forall₂ R l l') : requestIds l' = requestIds l := by
  induction h with
  | nil => rfl
  | cons hr _ ih =>
    rw [requestIds, List.map_cons, hR _ _ hr, ← requestIds, ih]
    rfl

omit [WorkerExecutor W] in
theorem Scheduler.Prepared.requestId_eq {s : Scheduler W} {r r' : ScheduledRequest}
    (h : s.Prepared r r') : r'.requestId = r.requestId := by
  cases h with
  | replay _ => exact s.requestId_withPrefix r
  | chunk _ slots _ => exact s.requestId_withPrefix r

theorem Scheduler.PreparedDecode.requestId_eq {r r' : ScheduledRequest}
    (h : Scheduler.PreparedDecode r r') : r'.requestId = r.requestId := by
  obtain ⟨_, rfl⟩ := h
  rfl

/-- A prefill dispatch that returns outputs. Requests without an output in this batch keep their
place. -/
theorem ids_of_dispatch_prefill {s s' : Scheduler W} (hs : s.WaitingStaged) {m u : ℕ}
    {outputs : List ScheduledOutput} (h : s.dispatch (.prefill m u) = (s', .ok outputs)) :
    (outputs.map ScheduledOutput.requestId).Sublist (requestIds s.waitingQueue) ∧
      requestIds s'.decodeQueue = requestIds s.decodeQueue ++ unfinishedIds outputs := by
  obtain ⟨s₁, batch, worker, generated, hform, -, hcomplete⟩ := dispatch_eq_ok h
  obtain ⟨prompted, hsel⟩ := nextPrefillBatch_selects hform
  obtain ⟨hlen, rfl, hdecode, -⟩ := completeBatch_eq_ok (staged_form s _ hs hform) hcomplete
  obtain ⟨hids, hdec⟩ := outcomes_ids (batch.requests.zip generated.tokens)
  obtain ⟨kept, hwaiting, -⟩ := hsel.waiting_eq
  obtain ⟨decodes, prefills, hreq, hdecodes, hprefills⟩ := hsel.requests_eq
  obtain rfl := List.forall₂_nil_left_iff.mp hdecodes
  have hbatch : requestIds batch.requests = requestIds prompted := by
    rw [hreq, List.nil_append, requestIds_of_forall₂ (fun _ _ hr => hr.requestId_eq) hprefills]
  rw [List.map_fst_zip hlen.le, hbatch] at hids
  refine ⟨hids.trans ?_, ?_⟩
  · rw [hwaiting, requestIds_append]
    exact List.sublist_append_left _ _
  · rw [hdecode, hsel.decode_eq, ← hdec, requestIds_append]
    rfl

/-- A decode dispatch that returns outputs: they are those of the front of the decode queue, and the
unfinished ones go to its end. -/
theorem ids_of_dispatch_decode {s s' : Scheduler W} (hs : s.WaitingStaged) {m : ℕ}
    {outputs : List ScheduledOutput} (h : s.dispatch (.decode m) = (s', .ok outputs)) :
    ∃ rest, requestIds s.decodeQueue = outputs.map ScheduledOutput.requestId ++ rest ∧
      requestIds s'.decodeQueue = rest ++ unfinishedIds outputs := by
  obtain ⟨s₁, batch, worker, generated, hform, -, hcomplete⟩ := dispatch_eq_ok h
  obtain ⟨decoded, hsel⟩ := nextDecodeBatchWith_selects hform
  obtain ⟨hlen, rfl, hdecode, -⟩ := completeBatch_eq_ok (staged_form s _ hs hform) hcomplete
  obtain ⟨-, hdec⟩ := outcomes_ids (batch.requests.zip generated.tokens)
  obtain ⟨decodes, prefills, hreq, hdecodes, hprefills⟩ := hsel.requests_eq
  obtain rfl := List.forall₂_nil_left_iff.mp hprefills
  have hstage : ∀ item ∈ batch.requests.zip generated.tokens, item.1.stage = .decodeForward := by
    intro item hitem
    have hmem := (List.of_mem_zip hitem).1
    rw [hreq, List.append_nil] at hmem
    obtain ⟨r, -, slots, hr⟩ := exists_mem_of_forall₂ hdecodes hmem
    rw [hr]
    rfl
  have hbatch : requestIds batch.requests = requestIds decoded := by
    rw [hreq, List.append_nil, requestIds_of_forall₂ (fun _ _ hr => hr.requestId_eq) hdecodes]
  have hids := outcomes_ids_of_decode _ hstage
  rw [List.map_fst_zip hlen.le, hbatch] at hids
  refine ⟨requestIds s₁.decodeQueue, ?_, ?_⟩
  · rw [hids, hsel.decode_eq, requestIds_append]
  · rw [hdecode, ← hdec, requestIds_append]

/-! ### Polling -/

theorem sublist_of_removeRequestFromQueue {requestId : RequestId}
    {queue rest : List ScheduledRequest} {r : ScheduledRequest}
    (h : removeRequestFromQueue requestId queue = some (r, rest)) : rest.Sublist queue := by
  induction queue generalizing r rest with
  | nil => simp [removeRequestFromQueue] at h
  | cons x queue ih =>
    unfold removeRequestFromQueue at h
    split_ifs at h
    · obtain ⟨-, rfl⟩ := Prod.mk.inj (Option.some.inj h)
      exact List.sublist_cons_self _ _
    · obtain ⟨⟨found, rest'⟩, hfound, heq⟩ := Option.map_eq_some_iff.mp h
      obtain ⟨-, rfl⟩ := Prod.mk.inj heq
      exact (ih hfound).cons_cons x

theorem sublist_releaseFailedPendingPrefixCache (s : Scheduler W) (r : ScheduledRequest) :
    (s.releaseFailedPendingPrefixCache r).decodeQueue.Sublist s.decodeQueue := by
  unfold releaseFailedPendingPrefixCache
  split
  · exact List.Sublist.refl _
  · dsimp only [releaseUnpublishedCachePages, release]
    split
    · exact List.Sublist.refl _
    case h_2 hfound => exact sublist_of_removeRequestFromQueue hfound

theorem sublist_reconcilePending (pending : List ScheduledRequest) (s : Scheduler W) :
    (reconcilePending pending s).1.decodeQueue.Sublist s.decodeQueue := by
  induction pending generalizing s with
  | nil => exact List.Sublist.refl _
  | cons r pending ih =>
    unfold reconcilePending
    split
    · exact List.Sublist.refl _
    · refine (ih _).trans ?_
      rw [publishPrefillChunkCachePages_eq]
    · exact ih _
    · exact (ih _).trans (sublist_releaseFailedPendingPrefixCache _ r)

/-- Polling only removes requests from the decode queue. -/
theorem sublist_pollTransfers (s : Scheduler W) :
    s.pollTransfers.1.decodeQueue.Sublist s.decodeQueue := by
  have h := sublist_reconcilePending s.pendingPrefixCacheInserts
    { s with
      worker := (WorkerExecutor.pollTransfers s.worker).1
      pendingPrefixCacheInserts := [] }
  unfold pollTransfers reconcilePendingPrefixCacheInserts
  dsimp only
  split
  all_goals
    rename_i heq
    rw [heq] at h
    exact h

/-- The errors of an executed batch come from the worker. -/
theorem completionError_worker {forwardMode : ForwardMode} (c : Completion W)
    (item : ScheduledRequest × GeneratedToken)
    (hc : ∀ error, c.completionError = some error → ∃ e, error = .worker e) :
    ∀ error, (completeRequest forwardMode c item).completionError = some error →
      ∃ e, error = .worker e := by
  have hrecord {c : Completion W} (r : ScheduledRequest) (generated : GeneratedToken)
      (hc : ∀ error, c.completionError = some error → ∃ e, error = .worker e) :
      ∀ error, (recordGeneratedToken c r generated).completionError = some error →
        ∃ e, error = .worker e := by
    unfold recordGeneratedToken
    dsimp only
    split_ifs
    · split
      · exact fun error herror => ⟨_, (Option.some.inj herror).symm⟩
      · exact hc
    · exact hc
  obtain ⟨r, generated⟩ := item
  by_cases hprefill : isPrefillForward forwardMode r = true
  · rw [completeRequest_of_prefill c generated hprefill]
    rcases hres : c.scheduler.stagePrefillChunkCachePages r.advanceChunk
        r.advanceChunk.promptTokensProcessed with ⟨s, error | ⟨⟩⟩
    · intro error' herror
      obtain rfl := Option.some.inj herror
      unfold stagePrefillChunkCachePages at hres
      split_ifs at hres
      · cases hres
      · split at hres
        · cases hres
          exact ⟨_, rfl⟩
        · cases hres
        · cases hres
        · cases hres
          exact ⟨_, rfl⟩
      · cases hres
    · dsimp only
      split_ifs
      · exact hrecord _ _ hc
      · exact hc
  · rw [completeRequest_of_decode c generated hprefill]
    exact hrecord r generated hc

theorem error_dispatchBatch {s s' : Scheduler W} {batch : ScheduleBatch} {error : SchedulerError}
    (h : s.dispatchBatch batch = (s', .error error)) : ∃ e, error = .worker e := by
  unfold dispatchBatch at h
  split at h
  · unfold completeBatch at h
    split_ifs at h
    · cases h
      exact ⟨_, rfl⟩
    · dsimp only at h
      split at h
      · cases h
      case h_2 error' herr =>
        cases h
        have hworker : ∀ (items : List (ScheduledRequest × GeneratedToken)) (c : Completion W),
            (∀ error, c.completionError = some error → ∃ e, error = .worker e) →
            ∀ error, (items.foldl (completeRequest batch.forwardMode) c).completionError =
              some error → ∃ e, error = .worker e := by
          intro items c hc
          exact Transition.foldl_invariant
            (I := fun c : Completion W =>
              ∀ error, c.completionError = some error → ∃ e, error = .worker e)
            (fun c item _ hc => completionError_worker c item hc)
            (Transition.along_of_forall (P := fun _ _ => True) (fun _ _ => trivial) c items) hc
        exact hworker _ _ (by simp) error herr
  · unfold releaseFailedBatchCachePages at h
    dsimp only at h
    split at h
    case h_1 heq =>
      cases h
      split at heq
      · cases heq
      · cases heq
        exact ⟨_, rfl⟩
    case h_2 =>
      cases h
      exact ⟨_, rfl⟩

omit [WorkerExecutor W] in
/-- A decode former that fails removes requests from the decode queue at most. -/
theorem sublist_of_nextDecodeBatchWith_error {s s' : Scheduler W}
    {probe : W → ℕ → ScheduledRequest → W × ProbeAnswer} {m : ℕ} {error : SchedulerError}
    (h : s.nextDecodeBatchWith probe m = (s', .error error)) :
    (requestIds s'.decodeQueue).Sublist (requestIds s.decodeQueue) := by
  have hdrop {limit : ℕ} (hunpop : (s.decodeScan probe limit).scheduler.unpop
      (s.decodeScan probe limit).exit = (s.decodeScan probe limit).scheduler) :
      (requestIds (s.decodeScan probe limit).scheduler.decodeQueue).Sublist
        (requestIds s.decodeQueue) := by
    obtain ⟨-, -, decoded, -, -, -, hqueue⟩ := scanDecode_selects probe limit s.decodeQueue s [] rfl
      (.refl s)
    rw [hunpop] at hqueue
    rw [hqueue, requestIds_append]
    exact List.sublist_append_right _ _
  cases formsDecode h with
  | idle _ => exact List.Sublist.refl _
  | notReady _ hexit _ => exact hdrop (by rw [hexit]; rfl)
  | probeFailed _ hexit => exact hdrop (by rw [hexit]; rfl)
  | @failed limit r _ _ hexit =>
    obtain ⟨-, -, decoded, decodes, hreq, hall, hqueue⟩ := scanDecode_selects probe limit
      s.decodeQueue s [] rfl (.refl s)
    rw [hexit] at hqueue
    have hids : requestIds decodes = requestIds decoded :=
      requestIds_of_forall₂ (fun _ _ hr => hr.requestId_eq) hall
    rw [restoreFailedDecodeAttempt_eq, hqueue, hreq, List.nil_append]
    set queue := (s.decodeScan probe limit).scheduler.decodeQueue
    have heq : requestIds (decodes.map (fun r => r.clearForwardCacheAllocation.setStage
        .decodeWaiting) ++ r :: queue) = requestIds (decoded ++ r :: queue) := by
      rw [requestIds_append, requestIds_append, ← hids]
      simp [requestIds, Function.comp_def, ScheduledRequest.setStage,
        ScheduledRequest.clearForwardCacheAllocation]
    rw [heq]
    exact List.Sublist.refl _

theorem sublist_of_decodeNotReady {s s' : Scheduler W} {m : ℕ} {requestId : RequestId}
    (h : s.dispatch (.decode m) = (s', .error (.decodeNotReady requestId))) :
    (requestIds s'.decodeQueue).Sublist (requestIds s.decodeQueue) := by
  unfold Scheduler.dispatch dispatchFormed at h
  rcases hform : (Former.decode m).form s with ⟨s₁, error | batch⟩
  · rw [hform] at h
    obtain ⟨rfl, -⟩ := Prod.mk.inj h
    exact sublist_of_nextDecodeBatchWith_error hform
  · rw [hform] at h
    obtain ⟨e, he⟩ := error_dispatchBatch h
    cases he

namespace Engine

/-- A decode step that returns outputs dispatches one decode batch, after requests have been removed
from the decode queue at most. -/
def Decodes (decode : ℕ → Scheduler W → ℕ → Decoded W) : Prop :=
  ∀ polls s size s' polls' outputs, s.WaitingStaged →
    decode polls s size = (s', polls', .ok outputs) →
    s'.WaitingStaged ∧ ∃ s₁ : Scheduler W, s₁.WaitingStaged ∧
      (requestIds s₁.decodeQueue).Sublist (requestIds s.decodeQueue) ∧
      s₁.dispatch (.decode size) = (s', .ok outputs)

theorem decodes_decodeBatch : Decodes (W := W) decodeBatch := by
  intro polls s size s' polls' outputs hs h
  unfold decodeBatch at h
  split at h
  case h_1 s₁ outputs₁ hdispatch =>
    cases h
    refine ⟨?_, s, hs, List.Sublist.refl _, hdispatch⟩
    have hstep := waitingStaged_step hs (.dispatch (.decode size))
    rwa [Scheduler.step, show s.dispatch (.decode size) = _ from hdispatch] at hstep
  case h_2 => cases h

theorem decodes_decodeBatchWithTransferPolling :
    Decodes (W := W) decodeBatchWithTransferPolling := by
  intro polls
  induction polls with
  | zero =>
    intro s size s' polls' outputs hs h
    unfold decodeBatchWithTransferPolling at h
    split at h
    case h_1 s₁ outputs₁ hdispatch =>
      cases h
      exact decodes_decodeBatch 0 s size s' 0 outputs hs (by rw [decodeBatch, hdispatch])
    case h_2 => cases h
    case h_3 => cases h
  | succ polls ih =>
    intro s size s' polls' outputs hs h
    unfold decodeBatchWithTransferPolling at h
    split at h
    case h_1 s₁ outputs₁ hdispatch =>
      cases h
      exact decodes_decodeBatch 0 s size s' 0 outputs hs (by rw [decodeBatch, hdispatch])
    case h_2 s₁ requestId hdispatch =>
      have hs₁ : s₁.WaitingStaged := by
        have hstep := waitingStaged_step hs (.dispatch (.decode size))
        rwa [Scheduler.step, show s.dispatch (.decode size) = _ from hdispatch] at hstep
      dsimp only at h
      split at h
      case h_1 => cases h
      case h_2 s₂ summary hpoll =>
        have hs₂ : s₂.WaitingStaged := by
          have hstep := waitingStaged_step hs₁ .pollTransfers
          rwa [Scheduler.step, hpoll] at hstep
        obtain ⟨hs', s₃, hs₃, hsub, hdispatch₃⟩ := ih s₂ size s' polls' outputs hs₂ h
        refine ⟨hs', s₃, hs₃, hsub.trans (List.Sublist.trans ?_ (sublist_of_decodeNotReady hdispatch)),
          hdispatch₃⟩
        have hsub₂ := sublist_pollTransfers s₁
        rw [hpoll] at hsub₂
        exact hsub₂.map _
    case h_3 => cases h

/-! ### Groups -/

section Groups

variable {idAt : ℕ → RequestId} {active : List ℕ} {outputs : List ScheduledOutput}

/-- Each output is appended to the group of its position. -/
theorem getElem?_foldl_modify {α : Type} (pairs : List (ℕ × α)) (grouped : List (List α)) (i : ℕ) :
    (pairs.foldl (fun grouped (index, output) => grouped.modify index (· ++ [output]))
      grouped)[i]? =
      grouped[i]?.map (· ++ (pairs.filter fun pair => pair.1 = i).map Prod.snd) := by
  induction pairs generalizing grouped with
  | nil => simp
  | cons pair pairs ih =>
    rw [List.foldl_cons, ih, List.getElem?_modify, List.filter_cons]
    by_cases hi : pair.1 = i
    · simp [hi, Function.comp_def]
    · simp [hi]

/-- The positions dispatched carry the ids of the outputs. -/
theorem idAt_of_mem_zip {rest : List RequestId}
    (h : active.map idAt = outputs.map ScheduledOutput.requestId ++ rest)
    {pair : ℕ × ScheduledOutput}
    (hpair : pair ∈ active.zip outputs) : idAt pair.1 = pair.2.requestId := by
  induction outputs generalizing active with
  | nil => simp at hpair
  | cons output outputs ih =>
    cases active with
    | nil => simp at hpair
    | cons i active =>
      rw [List.map_cons, List.map_cons, List.cons_append, List.cons.injEq] at h
      rw [List.zip_cons_cons, List.mem_cons] at hpair
      rcases hpair with rfl | hpair
      · exact h.1
      · exact ih h.2 hpair

theorem length_le_of_isPrefix_map {rest : List RequestId}
    (h : active.map idAt = outputs.map ScheduledOutput.requestId ++ rest) :
    outputs.length ≤ active.length := by
  have hlen := congrArg List.length h
  simp only [List.length_map, List.length_append] at hlen
  omega

/-- The positions requeued are those of the unfinished outputs. -/
theorem map_requeued {rest : List RequestId}
    (h : active.map idAt = outputs.map ScheduledOutput.requestId ++ rest) :
    ((active.zip outputs).filter fun (_, output) => ¬output.finished).map (idAt ∘ Prod.fst) =
      unfinishedIds outputs := by
  have hsnd : (active.zip outputs).map Prod.snd = outputs :=
    List.map_snd_zip (length_le_of_isPrefix_map h)
  calc ((active.zip outputs).filter fun (_, output) => ¬output.finished).map (idAt ∘ Prod.fst)
      = ((active.zip outputs).filter fun (_, output) => ¬output.finished).map
          (ScheduledOutput.requestId ∘ Prod.snd) :=
        List.map_congr_left fun pair hpair => idAt_of_mem_zip h (List.mem_of_mem_filter hpair)
    _ = (((active.zip outputs).map Prod.snd).filter fun o => ¬o.finished).map
          ScheduledOutput.requestId := by
        rw [List.filter_map, List.map_map]
        rfl
    _ = unfinishedIds outputs := by rw [hsnd, unfinishedIds]

/-- The active list after a dispatch rotates as the decode queue does. -/
theorem map_active_recordBatchOutputs (grouped : List (List ScheduledOutput))
    {rest : List RequestId}
    (h : active.map idAt = outputs.map ScheduledOutput.requestId ++ rest) :
    (recordBatchOutputs grouped active outputs).2.map idAt = rest ++ unfinishedIds outputs := by
  have hdrop : (active.drop outputs.length).map idAt = rest := by
    rw [List.map_drop, h]
    simp
  simp only [recordBatchOutputs, List.map_append, hdrop, List.map_map, map_requeued h]

end Groups

/-- The outputs of one request. -/
def outputsOf (requestId : RequestId) (outputs : List ScheduledOutput) : List ScheduledOutput :=
  outputs.filter fun o => o.requestId = requestId

/-- The last output is marked as finished. -/
def EndsFinished (outputs : List ScheduledOutput) : Prop :=
  ∃ init last, outputs = init ++ [last] ∧ last.finished = true

/-- The active list mirrors the decode queue `queue`, and the groups of the `n` requests hold the
`outputs` of their requests; those of the requests that are not active end with a finished one. -/
structure Mirrors (idAt : ℕ → RequestId) (n : ℕ) (queue : List RequestId)
    (outputs : List ScheduledOutput) (grouped : List (List ScheduledOutput)) (active : List ℕ) :
    Prop where
  queue_eq : queue = active.map idAt
  active_lt : ∀ i ∈ active, i < n
  length_eq : grouped.length = n
  group_eq : ∀ i < n, grouped[i]? = some (outputsOf (idAt i) outputs)
  ended : ∀ i < n, i ∉ active → EndsFinished (outputsOf (idAt i) outputs)

section Mirrors

variable {idAt : ℕ → RequestId} {n : ℕ} {outputs : List ScheduledOutput}
  {grouped : List (List ScheduledOutput)} {active : List ℕ}

theorem outputsOf_append (requestId : RequestId) (outputs outputs' : List ScheduledOutput) :
    outputsOf requestId (outputs ++ outputs') =
      outputsOf requestId outputs ++ outputsOf requestId outputs' :=
  List.filter_append ..

/-- The outputs attributed to a position are those of its request. -/
theorem filter_zip_eq (hinj : ∀ i < n, ∀ j < n, idAt i = idAt j → i = j)
    (hactive : ∀ i ∈ active, i < n) {decodeOutputs : List ScheduledOutput} {rest : List RequestId}
    (hq : active.map idAt = decodeOutputs.map ScheduledOutput.requestId ++ rest) {i : ℕ}
    (hi : i < n) :
    ((active.zip decodeOutputs).filter fun pair => pair.1 = i).map Prod.snd =
      outputsOf (idAt i) decodeOutputs := by
  have hfilter : (active.zip decodeOutputs).filter (fun pair => pair.1 = i) =
      (active.zip decodeOutputs).filter fun pair => pair.2.requestId = idAt i := by
    refine List.filter_congr fun pair hpair => ?_
    have hid := idAt_of_mem_zip hq hpair
    have hlt := hactive _ (List.of_mem_zip hpair).1
    refine decide_eq_decide.mpr ⟨fun h => ?_, fun h => hinj _ hlt _ hi (hid.trans h)⟩
    rw [← hid, h]
  have hmap := List.filter_map (p := fun o : ScheduledOutput => decide (o.requestId = idAt i))
    (f := Prod.snd) (l := active.zip decodeOutputs)
  rw [List.map_snd_zip (length_le_of_isPrefix_map hq)] at hmap
  rw [hfilter, outputsOf, hmap]
  rfl

/-- **A dispatch whose outputs are those of the front of the queue keeps the mirror.** -/
theorem Mirrors.record (hinj : ∀ i < n, ∀ j < n, idAt i = idAt j → i = j)
    {queue rest : List RequestId} (h : Mirrors idAt n queue outputs grouped active)
    {decodeOutputs : List ScheduledOutput}
    (hq : queue = decodeOutputs.map ScheduledOutput.requestId ++ rest) :
    Mirrors idAt n (rest ++ unfinishedIds decodeOutputs) (outputs ++ decodeOutputs)
      (recordBatchOutputs grouped active decodeOutputs).1
      (recordBatchOutputs grouped active decodeOutputs).2 := by
  have hq' := h.queue_eq.symm.trans hq
  refine ⟨(map_active_recordBatchOutputs grouped hq').symm, ?_, ?_, ?_, ?_⟩
  · intro i hi
    rcases List.mem_append.mp hi with hi | hi
    · exact h.active_lt i (List.mem_of_mem_drop hi)
    · obtain ⟨pair, hpair, rfl⟩ := List.mem_map.mp hi
      exact h.active_lt _ (List.of_mem_zip (List.mem_of_mem_filter hpair)).1
  · have hlength : ∀ (pairs : List (ℕ × ScheduledOutput)) (grouped : List (List ScheduledOutput)),
        (pairs.foldl (fun grouped (index, output) => grouped.modify index (· ++ [output]))
          grouped).length = grouped.length := by
      intro pairs
      induction pairs with
      | nil => exact fun _ => rfl
      | cons pair pairs ih => exact fun grouped => (ih _).trans (List.length_modify ..)
    exact (hlength _ _).trans h.length_eq
  · intro i hi
    simp only [recordBatchOutputs]
    rw [getElem?_foldl_modify, h.group_eq i hi, Option.map_some,
      filter_zip_eq hinj h.active_lt hq' hi, outputsOf_append]
  · intro i hi hnot
    rw [outputsOf_append]
    simp only [recordBatchOutputs, List.mem_append, not_or] at hnot
    rcases List.eq_nil_or_concat' (outputsOf (idAt i) decodeOutputs) with hnil | ⟨init, last, hlast⟩
    · -- no output in this dispatch, so the position was not active before
      rw [hnil, List.append_nil]
      refine h.ended i hi fun hmem => ?_
      rw [← List.take_append_drop decodeOutputs.length active] at hmem
      rcases List.mem_append.mp hmem with hmem | hmem
      · have hid : idAt i ∈ decodeOutputs.map ScheduledOutput.requestId := by
          have htake : (active.take decodeOutputs.length).map idAt =
              decodeOutputs.map ScheduledOutput.requestId := by
            rw [List.map_take, hq']
            simp
          exact htake ▸ List.mem_map_of_mem hmem
        obtain ⟨o, ho, hoid⟩ := List.mem_map.mp hid
        have hmem' : o ∈ outputsOf (idAt i) decodeOutputs :=
          List.mem_filter.mpr ⟨ho, decide_eq_true hoid⟩
        rw [hnil] at hmem'
        cases hmem'
      · exact hnot.1 hmem
    · refine ⟨outputsOf (idAt i) outputs ++ init, last, by rw [hlast, List.append_assoc], ?_⟩
      by_contra hfin
      -- an unfinished output would have kept the position active
      rw [← filter_zip_eq hinj h.active_lt hq' hi] at hlast
      have hmem : last ∈ ((active.zip decodeOutputs).filter fun pair => pair.1 = i).map Prod.snd :=
        hlast ▸ List.mem_append_right _ List.mem_cons_self
      obtain ⟨⟨j, o⟩, hpair, rfl⟩ := List.mem_map.mp hmem
      obtain ⟨hzip, hj⟩ := List.mem_filter.mp hpair
      obtain rfl : j = i := of_decide_eq_true hj
      refine hnot.2 (List.mem_map.mpr ⟨(j, o), List.mem_filter.mpr ⟨hzip, ?_⟩, rfl⟩)
      simpa using hfin

end Mirrors

/-! ### The loop of a batch call -/

/-- The length of the active list after a dispatch. -/
theorem length_active_recordBatchOutputs (grouped : List (List ScheduledOutput)) (active : List ℕ)
    (outputs : List ScheduledOutput) (h : outputs.length ≤ active.length) :
    (recordBatchOutputs grouped active outputs).2.length =
      active.length - outputs.length + (unfinishedIds outputs).length := by
  have hsnd := List.map_snd_zip h
  have hmap := List.filter_map (p := fun o : ScheduledOutput => decide (¬o.finished))
    (f := Prod.snd) (l := active.zip outputs)
  rw [hsnd] at hmap
  simp only [recordBatchOutputs, unfinishedIds, List.length_append, List.length_drop,
    List.length_map, hmap]
  rfl

theorem length_requestIds (queue : List ScheduledRequest) :
    (requestIds queue).length = queue.length :=
  List.length_map ..

variable {decode : ℕ → Scheduler W → ℕ → Decoded W}

/-- **A gap stays.** If fewer requests wait for a token than are active, the call does not return
groups. -/
theorem batchLoop_of_gap (hdecode : Decodes decode) (fuel : ℕ) (s : Scheduler W) (polls : ℕ)
    (outputs : List ScheduledOutput) (grouped : List (List ScheduledOutput)) (active : List ℕ)
    (hs : s.WaitingStaged) (hgap : s.decodeQueue.length < active.length)
    (groups : List (List ScheduledOutput)) :
    (batchLoop decode fuel s polls outputs grouped active).result ≠ some (.ok groups) := by
  induction fuel generalizing s polls outputs grouped active with
  | zero => simp [batchLoop]
  | succ fuel ih =>
    unfold batchLoop
    have hne : ¬active.isEmpty = true := by
      rw [List.isEmpty_iff_length_eq_zero]
      omega
    rw [if_neg hne]
    rcases hres : decode polls s active.length with ⟨s', polls', error | decodeOutputs⟩
    · simp
    · obtain ⟨hs', s₁, hs₁, hsub, hdispatch⟩ := hdecode _ _ _ _ _ _ hs hres
      obtain ⟨rest, hbefore, hafter⟩ := ids_of_dispatch_decode hs₁ hdispatch
      have hlen := hsub.length_le
      have hlen₁ := congrArg List.length hbefore
      have hlen' := congrArg List.length hafter
      simp only [length_requestIds, List.length_append, List.length_map] at hlen hlen₁ hlen'
      have hactive := length_active_recordBatchOutputs grouped active decodeOutputs (by omega)
      exact ih s' polls' _ _ _ hs' (lt_of_lt_of_eq (by omega) hactive.symm)

/-- **Groups of a loop that mirrors the queue.** -/
theorem batchLoop_of_mirrors (hdecode : Decodes decode) {idAt : ℕ → RequestId} {n : ℕ}
    (hinj : ∀ i < n, ∀ j < n, idAt i = idAt j → i = j) (fuel : ℕ) (s : Scheduler W) (polls : ℕ)
    {outputs : List ScheduledOutput} {grouped : List (List ScheduledOutput)} {active : List ℕ}
    (hs : s.WaitingStaged)
    (h : Mirrors idAt n (requestIds s.decodeQueue) outputs grouped active)
    {groups : List (List ScheduledOutput)}
    (hres : (batchLoop decode fuel s polls outputs grouped active).result = some (.ok groups)) :
    ∃ queue, Mirrors idAt n queue (batchLoop decode fuel s polls outputs grouped active).outputs
      groups [] := by
  induction fuel generalizing s polls outputs grouped active with
  | zero => simp [batchLoop] at hres
  | succ fuel ih =>
    unfold batchLoop at hres ⊢
    by_cases hempty : active.isEmpty = true
    · rw [if_pos hempty] at hres ⊢
      obtain rfl := List.isEmpty_iff.mp hempty
      obtain rfl := Except.ok.inj (Option.some.inj hres)
      exact ⟨_, h⟩
    · rw [if_neg hempty] at hres ⊢
      rcases hdec : decode polls s active.length with ⟨s', polls', error | decodeOutputs⟩
      · rw [hdec] at hres
        simp at hres
      · rw [hdec] at hres
        obtain ⟨hs', s₁, hs₁, hsub, hdispatch⟩ := hdecode _ _ _ _ _ _ hs hdec
        obtain ⟨rest, hbefore, hafter⟩ := ids_of_dispatch_decode hs₁ hdispatch
        -- if polling has removed a request, the gap it leaves stays
        by_cases hsame : requestIds s₁.decodeQueue = requestIds s.decodeQueue
        · refine ih s' polls' hs' ?_ hres
          rw [hafter]
          exact h.record hinj (hsame.symm.trans hbefore)
        · have hlt : (requestIds s₁.decodeQueue).length < (requestIds s.decodeQueue).length :=
            lt_of_le_of_ne hsub.length_le fun heq => hsame (hsub.eq_of_length heq)
          have hlen := congrArg List.length h.queue_eq
          have hlen₁ := congrArg List.length hbefore
          have hlen' := congrArg List.length hafter
          simp only [length_requestIds, List.length_append, List.length_map] at hlt hlen hlen₁ hlen'
          have hactive := length_active_recordBatchOutputs grouped active decodeOutputs (by omega)
          exact absurd hres (batchLoop_of_gap hdecode fuel s' polls' _ _ _ hs'
            (lt_of_lt_of_eq (by omega) hactive.symm) groups)

/-! ### Batch calls -/

omit [WorkerExecutor W] in
/-- The queues after the requests of a call were submitted. -/
theorem foldl_enqueue (s : Scheduler W) (requests : List NewRequest) :
    requests.foldl (fun s request => s.enqueue request.toScheduled) s =
      { s with waitingQueue := s.waitingQueue ++ requests.map NewRequest.toScheduled } := by
  induction requests generalizing s with
  | nil => simp
  | cons request requests ih =>
    rw [List.foldl_cons, ih]
    simp [Scheduler.enqueue]

/-- The groups a batch call returns. -/
theorem groups_of_batchWith (hdecode : Decodes decode) (fuel : ℕ) {s : Scheduler W}
    (hw : s.waitingQueue = []) (hd : s.decodeQueue = []) {requests : List NewRequest}
    (hne : requests ≠ []) (hids : (requests.map NewRequest.requestId).Nodup) (polls : ℕ)
    {groups : List (List ScheduledOutput)}
    (hres : (batchWith decode fuel s requests polls).result = some (.ok groups)) :
    groups.length = requests.length ∧
      ∀ (i : ℕ) (request : NewRequest), requests[i]? = some request →
        ∃ group, groups[i]? = some group ∧
        group = outputsOf request.requestId (batchWith decode fuel s requests polls).outputs ∧
        EndsFinished group := by
  obtain ⟨idAt, hidAt⟩ : ∃ idAt : ℕ → RequestId,
      ∀ (i : ℕ) (request : NewRequest), requests[i]? = some request → idAt i = request.requestId :=
    ⟨fun i => (requests[i]?.map NewRequest.requestId).getD ⟨""⟩, fun i request h => by simp [h]⟩
  have hinj : ∀ i < requests.length, ∀ j < requests.length, idAt i = idAt j → i = j := by
    intro i hi j hj hij
    rw [hidAt i _ (List.getElem?_eq_getElem hi), hidAt j _ (List.getElem?_eq_getElem hj)] at hij
    have hget := @List.Nodup.getElem_inj_iff _ _ hids i (by simpa using hi) j (by simpa using hj)
    exact hget.mp (by simpa using hij)
  have hall : (List.range requests.length).map idAt = requests.map NewRequest.requestId := by
    refine List.ext_getElem (by simp) fun i hi hi' => ?_
    have hlt : i < requests.length := by simpa using hi'
    simp [hidAt i _ (List.getElem?_eq_getElem hlt)]
  unfold batchWith at hres ⊢
  dsimp only at hres ⊢
  rw [if_neg (by simpa using hne)] at hres ⊢
  set s₀ := requests.foldl (fun s request => s.enqueue request.toScheduled) s with hs₀
  rw [foldl_enqueue, hw, List.nil_append] at hs₀
  have hstaged : s₀.WaitingStaged := by
    intro r hr
    rw [hs₀] at hr
    obtain ⟨request, -, rfl⟩ := List.mem_map.mp hr
    rfl
  rcases hprefill : s₀.dispatchPrefillBatch requests.length with ⟨s', error | prefillOutputs⟩
  · rw [hprefill] at hres
    simp at hres
  · rw [hprefill] at hres
    dsimp only at hres ⊢
    have hdispatch : s₀.dispatch (.prefill requests.length usizeMax) = (s', .ok prefillOutputs) :=
      hprefill
    obtain ⟨hsub, hqueue⟩ := ids_of_dispatch_prefill hstaged hdispatch
    have hs' : s'.WaitingStaged := by
      have hstep := waitingStaged_step hstaged (.dispatch (.prefill requests.length usizeMax))
      rwa [Scheduler.step, hdispatch] at hstep
    have hwaiting : requestIds s₀.waitingQueue = requests.map NewRequest.requestId := by
      rw [hs₀, requestIds, List.map_map]
      rfl
    have hdecodeQueue : requestIds s₀.decodeQueue = [] := by
      rw [hs₀]
      simp [requestIds, hd]
    rw [hwaiting] at hsub
    rw [hdecodeQueue, List.nil_append] at hqueue
    have hlen := hsub.length_le
    simp only [List.length_map] at hlen
    by_cases hfull : prefillOutputs.length = requests.length
    · -- every request has an output, so the active list mirrors the queue
      have hinit : Mirrors idAt requests.length (requests.map NewRequest.requestId) []
          (List.replicate requests.length []) (List.range requests.length) := by
        refine ⟨hall.symm, by simp, by simp, fun i hi => by simp [hi, outputsOf], fun i hi hnot => ?_⟩
        exact absurd (List.mem_range.mpr hi) hnot
      have hids' : prefillOutputs.map ScheduledOutput.requestId =
          requests.map NewRequest.requestId := hsub.eq_of_length (by simpa using hfull)
      have hfront : requests.map NewRequest.requestId =
          prefillOutputs.map ScheduledOutput.requestId ++ [] := by rw [hids', List.append_nil]
      have hmirror := hinit.record hinj hfront
      rw [List.nil_append, List.nil_append, ← hqueue] at hmirror
      obtain ⟨queue, hdone⟩ := batchLoop_of_mirrors hdecode hinj fuel s' polls hs' hmirror hres
      refine ⟨hdone.length_eq, fun i request hi => ?_⟩
      have hlt : i < requests.length := (List.getElem?_eq_some_iff.mp hi).1
      refine ⟨_, hdone.group_eq i hlt, ?_, hdone.ended i hlt List.not_mem_nil⟩
      rw [hidAt i request hi]
    · -- a request without an output leaves a gap
      have hactive := length_active_recordBatchOutputs
        (List.replicate requests.length ([] : List ScheduledOutput)) (List.range requests.length)
        prefillOutputs (by simpa using hlen)
      have hlen' := congrArg List.length hqueue
      rw [length_requestIds] at hlen'
      rw [List.length_range] at hactive
      exact absurd hres (batchLoop_of_gap hdecode fuel s' polls _ _ _ hs'
        (lt_of_lt_of_eq (by omega) hactive.symm) groups)

/-- **Batch calls attribute outputs to their requests.** On an engine with empty queues, whenever a
batch call over requests with distinct ids returns groups, with or without polling, the `i`-th group
holds exactly the outputs of the `i`-th request, in the order of generation, and ends with a
finished one. -/
theorem batch_stream_groups (fuel : ℕ) {s : Scheduler W} (hw : s.waitingQueue = [])
    (hd : s.decodeQueue = []) {requests : List NewRequest} (hne : requests ≠ [])
    (hids : (requests.map NewRequest.requestId).Nodup) (maxTransferPolls : ℕ)
    {call : Batch W} (hcall : call = generateScheduledBatchStream fuel s requests ∨
      call = generateScheduledBatchStreamWithTransferPolling fuel s requests maxTransferPolls)
    {groups : List (List ScheduledOutput)} (hres : call.result = some (.ok groups)) :
    groups.length = requests.length ∧
      ∀ (i : ℕ) (request : NewRequest), requests[i]? = some request →
        ∃ group, groups[i]? = some group ∧
        group = call.outputs.filter (fun o => o.requestId = request.requestId) ∧
        ∃ init last, group = init ++ [last] ∧ last.finished = true := by
  rcases hcall with rfl | rfl
  · exact groups_of_batchWith decodes_decodeBatch fuel hw hd hne hids 0 hres
  · exact groups_of_batchWith decodes_decodeBatchWithTransferPolling fuel hw hd hne hids
      maxTransferPolls hres

/-- The theorem applied to two requests, the first of which finishes later. -/
theorem batch_stream_groups_of_two_requests :
    let requests : List NewRequest := [⟨⟨"a"⟩, [1], ⟨3⟩, none, 0⟩, ⟨⟨"b"⟩, [2], ⟨2⟩, none, 0⟩]
    let call := generateScheduledBatchStream 8 (Scheduler.scripted {} 1 8) requests
    ∃ group, group = call.outputs.filter (fun o => o.requestId = ⟨"a"⟩) ∧ group.length = 3 ∧
      ∃ init last, group = init ++ [last] ∧ last.finished = true := by
  have hids : ([⟨⟨"a"⟩, [1], ⟨3⟩, none, 0⟩, ⟨⟨"b"⟩, [2], ⟨2⟩, none, 0⟩].map
      NewRequest.requestId).Nodup := by decide
  obtain ⟨-, hgroups⟩ := batch_stream_groups 8 (s := Scheduler.scripted {} 1 8) rfl rfl
    (by simp) hids 0 (.inl rfl) rfl
  obtain ⟨group, -, hgroup, hend⟩ := hgroups 0 _ rfl
  exact ⟨group, hgroup, by rw [hgroup]; decide, hend⟩

end Engine

end SglangRs
