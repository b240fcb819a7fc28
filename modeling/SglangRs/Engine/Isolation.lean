import SglangRs.Engine.Attribution
import SglangRs.Scheduler.Identity

/-!
# Isolation of calls

All calls of an engine share the queues of one scheduler, and a call takes what the queues yield
without looking at ids. A call that finds both queues empty delivers outputs of its own requests
only. A request that an earlier call has left in a queue is dispatched by a later one, and its
outputs are delivered there: a streaming call that ends because the worker is not ready leaves its
request in the decode queue, a batch call that fails in a decode step leaves all of them.

## Main definitions

* `Engine.Call`, `Engine.Call.run`: the calls and what they deliver.
* `Engine.Owned`: the queues hold requests of one call only.

## Main results

* `calls_isolated`: in every sequence of calls each of which starts with empty queues, every output
  is delivered to the call that submitted its request.
-/

namespace SglangRs

open Scheduler Transition

variable {W : Type} [WorkerExecutor W]

namespace Engine

/-- The calls of an engine, with the number of iterations their loops may take. -/
inductive Call where
  | stream (fuel : ℕ) (request : NewRequest) (sink : List ScheduledOutput → ScheduledOutput → Bool)
  | streamWithPolling (fuel : ℕ) (request : NewRequest) (maxTransferPolls : ℕ)
      (sink : List ScheduledOutput → ScheduledOutput → Bool)
  | batch (fuel : ℕ) (requests : List NewRequest)
  | batchWithPolling (fuel : ℕ) (requests : List NewRequest) (maxTransferPolls : ℕ)

/-- The ids of the requests a call submits. -/
def Call.ids : Call → List RequestId
  | .stream _ request _ => [request.requestId]
  | .streamWithPolling _ request _ _ => [request.requestId]
  | .batch _ requests => requests.map NewRequest.requestId
  | .batchWithPolling _ requests _ => requests.map NewRequest.requestId

/-- The outputs in the groups a batch call returns. -/
def Batch.delivered (call : Batch W) : List ScheduledOutput :=
  match call.result with
  | some (.ok groups) => groups.flatten
  | _ => []

/-- The state a call leaves and the outputs it hands to its sink or returns. -/
def Call.run (s : Scheduler W) : Call → Scheduler W × List ScheduledOutput
  | .stream fuel request sink =>
      let call := generateScheduledStreamWithSink fuel s request sink
      (call.scheduler, call.delivered)
  | .streamWithPolling fuel request polls sink =>
      let call := generateScheduledStreamWithTransferPollingSink fuel s request polls sink
      (call.scheduler, call.delivered)
  | .batch fuel requests =>
      let call := generateScheduledBatchStream fuel s requests
      (call.scheduler, call.delivered)
  | .batchWithPolling fuel requests polls =>
      let call := generateScheduledBatchStreamWithTransferPolling fuel s requests polls
      (call.scheduler, call.delivered)

/-- The queues hold requests with the given ids only. -/
structure Owned (ids : List RequestId) (s : Scheduler W) : Prop where
  staged : s.WaitingStaged
  all : s.idle.All fun r => r.requestId ∈ ids

variable {ids : List RequestId} {s s' : Scheduler W}

theorem Owned.step (h : Owned ids s) (op : Operation W)
    (hsubmit : ∀ n, op = .enqueue n → n.requestId ∈ ids) : Owned ids (s.step op) := by
  refine ⟨waitingStaged_step h.staged op, ?_⟩
  have hmoves := moves_step s op h.staged
    (Guard.admits_submitting (P := fun n => n.requestId ∈ ids) s op hsubmit)
  exact hmoves.invariant (J := fun c => c.All fun r => r.requestId ∈ ids)
    (fun _ _ hmove hc => hmove.all (fun x hx y hxy => hxy.requestId_eq ▸ hx) (fun n hn => hn) hc)
    h.all

/-- A dispatch returns outputs of queued requests. -/
theorem Owned.dispatch (h : Owned ids s) (former : Former)
    {result : Except SchedulerError (List ScheduledOutput)}
    (hdispatch : s.dispatch former = (s', result)) :
    Owned ids s' ∧ ∀ outputs, result = .ok outputs → ∀ o ∈ outputs, o.requestId ∈ ids := by
  refine ⟨?_, ?_⟩
  · have hstep := h.step (.dispatch former) (by simp)
    rwa [Scheduler.step, hdispatch] at hstep
  · rintro outputs rfl o ho
    obtain ⟨s₁, batch, worker, generated, hform, -, hcomplete⟩ := dispatch_eq_ok hdispatch
    obtain ⟨decoded, prompted, hsel⟩ := Former.selects hform
    obtain ⟨hlen, rfl, -⟩ := completeBatch_eq_ok (staged_form s former h.staged hform) hcomplete
    obtain ⟨hsub, -⟩ := outcomes_ids (batch.requests.zip generated.tokens)
    have hid := hsub.subset (List.mem_map_of_mem ho)
    rw [List.map_fst_zip hlen.le] at hid
    obtain ⟨kept, hwaiting, -⟩ := hsel.waiting_eq
    obtain ⟨decodes, prefills, hreq, hdecodes, hprefills⟩ := hsel.requests_eq
    rw [hreq, requestIds_append, requestIds_of_forall₂ (fun _ _ hr => hr.requestId_eq) hdecodes,
      requestIds_of_forall₂ (fun _ _ hr => hr.requestId_eq) hprefills, List.mem_append] at hid
    rcases hid with hid | hid
    · obtain ⟨r, hr, hrid⟩ := List.mem_map.mp hid
      exact hrid ▸ h.all.decode r (by
        rw [idle, hsel.decode_eq]
        exact List.mem_append_left _ hr)
    · obtain ⟨r, hr, hrid⟩ := List.mem_map.mp hid
      exact hrid ▸ h.all.waiting r (by
        rw [idle, hwaiting]
        exact List.mem_append_left _ hr)

theorem Owned.dispatchNext (fuel : ℕ) (h : Owned ids s) :
    Owned ids (s.dispatchNext fuel).1 ∧ ∀ output,
      (s.dispatchNext fuel).2 = some (.ok output) → output.requestId ∈ ids := by
  induction fuel generalizing s with
  | zero => exact ⟨h, by simp [Scheduler.dispatchNext]⟩
  | succ fuel ih =>
    unfold Scheduler.dispatchNext
    rcases hres : s.dispatchPrefillBatch 1 with ⟨s', error | outputs⟩
    · exact ⟨(h.dispatch (.prefill 1 usizeMax) hres).1, by simp⟩
    · obtain ⟨hs', hids⟩ := h.dispatch (.prefill 1 usizeMax) hres
      dsimp only
      split
      case h_1 output hlast =>
        refine ⟨hs', fun output' heq => ?_⟩
        obtain rfl := Except.ok.inj (Option.some.inj heq)
        exact hids outputs rfl _ (List.mem_of_getLast? hlast)
      case h_2 =>
        split_ifs
        · exact ⟨hs', by simp⟩
        · exact ih hs'

/-- A decode step keeps the queues and returns outputs of their requests. -/
def KeepsOwned (decode : ℕ → Scheduler W → ℕ → Decoded W) : Prop :=
  ∀ ids polls s size s' polls' result, Owned ids s → decode polls s size = (s', polls', result) →
    Owned ids s' ∧ ∀ outputs, result = .ok outputs → ∀ o ∈ outputs, o.requestId ∈ ids

theorem keepsOwned_decodeBatch : KeepsOwned (W := W) decodeBatch := by
  intro ids polls s size s' polls' result h hres
  unfold decodeBatch at hres
  rcases hdispatch : s.dispatchDecodeBatch size with ⟨s₁, error | outputs⟩
  · rw [hdispatch] at hres
    cases hres
    exact ⟨(h.dispatch (.decode size) hdispatch).1, by simp⟩
  · rw [hdispatch] at hres
    cases hres
    obtain ⟨hs₁, hids⟩ := h.dispatch (.decode size) hdispatch
    exact ⟨hs₁, fun outputs' heq => Except.ok.inj heq ▸ hids outputs rfl⟩

theorem keepsOwned_decodeBatchWithTransferPolling :
    KeepsOwned (W := W) decodeBatchWithTransferPolling := by
  intro ids polls
  induction polls with
  | zero =>
    intro s size s' polls' result h hres
    unfold decodeBatchWithTransferPolling at hres
    split at hres
    case h_1 s₁ outputs hdispatch =>
      cases hres
      obtain ⟨hs₁, hids⟩ := h.dispatch (.decode size) hdispatch
      exact ⟨hs₁, fun outputs' heq => Except.ok.inj heq ▸ hids outputs rfl⟩
    case h_2 s₁ requestId hdispatch =>
      cases hres
      exact ⟨(h.dispatch (.decode size) hdispatch).1, by simp⟩
    case h_3 s₁ error _ hdispatch =>
      cases hres
      exact ⟨(h.dispatch (.decode size) hdispatch).1, by simp⟩
  | succ polls ih =>
    intro s size s' polls' result h hres
    unfold decodeBatchWithTransferPolling at hres
    split at hres
    case h_1 s₁ outputs hdispatch =>
      cases hres
      obtain ⟨hs₁, hids⟩ := h.dispatch (.decode size) hdispatch
      exact ⟨hs₁, fun outputs' heq => Except.ok.inj heq ▸ hids outputs rfl⟩
    case h_2 s₁ requestId hdispatch =>
      have hs₁ := (h.dispatch (.decode size) hdispatch).1
      have hpolled := hs₁.step .pollTransfers (by simp)
      rw [Scheduler.step] at hpolled
      dsimp only at hres
      split at hres
      case h_1 s₂ error hpoll =>
        cases hres
        rw [hpoll] at hpolled
        exact ⟨hpolled, by simp⟩
      case h_2 s₂ summary hpoll =>
        rw [hpoll] at hpolled
        exact ih s₂ size s' polls' result hpolled hres
    case h_3 s₁ error _ hdispatch =>
      cases hres
      exact ⟨(h.dispatch (.decode size) hdispatch).1, by simp⟩

omit [WorkerExecutor W] in
theorem KeepsOwned.nextOutput {decode : ℕ → Scheduler W → ℕ → Decoded W}
    (hdecode : KeepsOwned decode)
    (h : Owned ids s) {polls polls' : ℕ} {result : Except RuntimeError ScheduledOutput}
    (hres : Engine.nextOutput decode polls s = (s', polls', result)) :
    Owned ids s' ∧ ∀ output, result = .ok output → output.requestId ∈ ids := by
  unfold Engine.nextOutput at hres
  rcases hdec : decode polls s 1 with ⟨s₁, polls₁, error | outputs⟩
  · rw [hdec] at hres
    cases hres
    exact ⟨(hdecode _ _ _ _ _ _ _ h hdec).1, by simp⟩
  · obtain ⟨hs₁, hids⟩ := hdecode _ _ _ _ _ _ _ h hdec
    rw [hdec] at hres
    dsimp only at hres
    split at hres
    case h_1 output hlast =>
      cases hres
      refine ⟨hs₁, fun output' heq => ?_⟩
      obtain rfl := Except.ok.inj heq
      exact hids outputs rfl _ (List.mem_of_getLast? hlast)
    case h_2 =>
      cases hres
      exact ⟨hs₁, by simp⟩

/-! ### Calls -/

variable {decode : ℕ → Scheduler W → ℕ → Decoded W}

theorem KeepsOwned.streamLoop (hdecode : KeepsOwned decode)
    (sink : List ScheduledOutput → ScheduledOutput → Bool) (requestId : RequestId) (fuel : ℕ)
    (polls : ℕ) {output : ScheduledOutput} {delivered : List ScheduledOutput} (h : Owned ids s)
    (houtput : output.requestId ∈ ids) (hdelivered : ∀ o ∈ delivered, o.requestId ∈ ids) :
    ∀ o ∈ (Engine.streamLoop (Engine.nextOutput decode) sink requestId fuel s polls output
        delivered).delivered,
      o.requestId ∈ ids := by
  induction fuel generalizing s polls output delivered with
  | zero => exact hdelivered
  | succ fuel ih =>
    have hnext : ∀ o ∈ delivered ++ [output], o.requestId ∈ ids :=
      List.forall_mem_append.mpr ⟨hdelivered, List.forall_mem_singleton.mpr houtput⟩
    unfold Engine.streamLoop
    split
    case isTrue => exact hnext
    case isFalse =>
      split
      case isTrue => exact hnext
      case isFalse =>
        rcases hres : Engine.nextOutput decode polls s with ⟨s', polls', error | output'⟩
        · dsimp only
          split_ifs <;> exact hnext
        · obtain ⟨hs', hid⟩ := hdecode.nextOutput h hres
          exact ih polls' hs' (hid output' rfl) hnext

/-- A streaming call on empty queues delivers its own outputs. -/
theorem KeepsOwned.streamWith (hdecode : KeepsOwned decode) (hw : s.waitingQueue = [])
    (hd : s.decodeQueue = []) (fuel : ℕ) (request : NewRequest) (polls : ℕ)
    (sink : List ScheduledOutput → ScheduledOutput → Bool) :
    ∀ o ∈ (Engine.streamWith (Engine.nextOutput decode) fuel s request polls sink).delivered,
      o.requestId ∈ [request.requestId] := by
  have hempty : Owned [request.requestId] s :=
    ⟨by simp [WaitingStaged, hw], by simp [idle, hw], by simp [idle, hd], by simp [idle],
      by simp [idle]⟩
  have henqueued := hempty.step (.enqueue request) fun n hn => by
    rw [Operation.enqueue.inj hn]
    exact List.mem_singleton_self _
  obtain ⟨hnext, hid⟩ := Owned.dispatchNext fuel henqueued
  unfold Engine.streamWith
  rw [Scheduler.step] at hnext hid
  rcases hres : (s.enqueue request.toScheduled).dispatchNext fuel with ⟨s', _ | error | output⟩
  · simp
  · simp
  · rw [hres] at hnext hid
    exact hdecode.streamLoop sink request.requestId fuel polls hnext (hid output rfl) (by simp)

/-- The groups hold nothing but recorded outputs. -/
theorem mem_recordBatchOutputs {grouped : List (List ScheduledOutput)} {active : List ℕ}
    {outputs : List ScheduledOutput} {o : ScheduledOutput}
    (h : o ∈ (recordBatchOutputs grouped active outputs).1.flatten) :
    o ∈ grouped.flatten ∨ o ∈ outputs := by
  obtain ⟨group, hgroup, ho⟩ := List.mem_flatten.mp h
  obtain ⟨i, hi⟩ := List.mem_iff_getElem?.mp hgroup
  simp only [recordBatchOutputs] at hi
  rw [getElem?_foldl_modify] at hi
  obtain ⟨group', hgroup', rfl⟩ := Option.map_eq_some_iff.mp hi
  rcases List.mem_append.mp ho with ho | ho
  · exact .inl (List.mem_flatten.mpr ⟨group', List.mem_of_getElem? hgroup', ho⟩)
  · obtain ⟨pair, hpair, rfl⟩ := List.mem_map.mp ho
    exact .inr (List.of_mem_zip (List.mem_of_mem_filter hpair)).2

omit [WorkerExecutor W] in
theorem KeepsOwned.batchLoop (hdecode : KeepsOwned decode) (fuel : ℕ) (polls : ℕ)
    {outputs : List ScheduledOutput} {grouped : List (List ScheduledOutput)} {active : List ℕ}
    (h : Owned ids s) (hgrouped : ∀ o ∈ grouped.flatten, o.requestId ∈ ids) :
    ∀ o ∈ (Engine.batchLoop decode fuel s polls outputs grouped active).delivered,
      o.requestId ∈ ids := by
  induction fuel generalizing s polls outputs grouped active with
  | zero => simp [Engine.batchLoop, Batch.delivered]
  | succ fuel ih =>
    unfold Engine.batchLoop
    split_ifs
    · exact hgrouped
    · rcases hres : decode polls s active.length with ⟨s', polls', error | decodeOutputs⟩
      · simp [Batch.delivered]
      · obtain ⟨hs', hids⟩ := hdecode _ _ _ _ _ _ _ h hres
        refine ih polls' hs' fun o ho => ?_
        rcases mem_recordBatchOutputs ho with ho | ho
        · exact hgrouped o ho
        · exact hids decodeOutputs rfl o ho

/-- A batch call on empty queues returns its own outputs. -/
theorem KeepsOwned.batchWith (hdecode : KeepsOwned decode) (hw : s.waitingQueue = [])
    (hd : s.decodeQueue = []) (fuel : ℕ) (requests : List NewRequest) (polls : ℕ) :
    ∀ o ∈ (Engine.batchWith decode fuel s requests polls).delivered,
      o.requestId ∈ requests.map NewRequest.requestId := by
  have hsubmitted : Owned (requests.map NewRequest.requestId)
      (requests.foldl (fun s request => s.enqueue request.toScheduled) s) := by
    rw [foldl_enqueue, hw, List.nil_append]
    refine ⟨?_, ?_, by simp [idle, hd], by simp [idle], by simp [idle]⟩
    all_goals
      intro r hr
      obtain ⟨request, hrequest, rfl⟩ := List.mem_map.mp hr
    · rfl
    · exact List.mem_map_of_mem hrequest
  unfold Engine.batchWith
  dsimp only
  split_ifs
  · simp [Batch.delivered]
  · rcases hres : (requests.foldl (fun s request => s.enqueue request.toScheduled)
        s).dispatchPrefillBatch requests.length with ⟨s', error | prefillOutputs⟩
    all_goals rw [hres]
    · simp [Batch.delivered]
    · obtain ⟨hs', hids⟩ := hsubmitted.dispatch (.prefill requests.length usizeMax) hres
      refine hdecode.batchLoop fuel polls hs' fun o ho => ?_
      rcases mem_recordBatchOutputs ho with ho | ho
      · simp at ho
      · exact hids prefillOutputs rfl o ho

/-- **Calls are isolated if they start with empty queues.** In every sequence of calls each of which
finds both queues empty, whatever the worker answers and however the calls end, every output a call
delivers carries the id of a request of that call. -/
theorem calls_isolated {s : Scheduler W} {calls : List Call}
    (hempty : Along (fun s (call : Call) => (call.run s).1)
      (fun s _ => s.waitingQueue = [] ∧ s.decodeQueue = []) s calls) :
    Along (fun s (call : Call) => (call.run s).1)
      (fun s call => ∀ o ∈ (call.run s).2, o.requestId ∈ call.ids) s calls := by
  refine hempty.imp fun s call hqueues => ?_
  cases call with
  | stream fuel request sink =>
    exact keepsOwned_decodeBatch.streamWith hqueues.1 hqueues.2 fuel request 0 sink
  | streamWithPolling fuel request polls sink =>
    exact keepsOwned_decodeBatchWithTransferPolling.streamWith hqueues.1 hqueues.2 fuel request
      polls sink
  | batch fuel requests =>
    exact keepsOwned_decodeBatch.batchWith hqueues.1 hqueues.2 fuel requests 0
  | batchWithPolling fuel requests polls =>
    exact keepsOwned_decodeBatchWithTransferPolling.batchWith hqueues.1 hqueues.2 fuel requests
      polls

/-- The worker is not ready for `a`, whose call ends and leaves it in the decode queue. The call
of `b` delivers the next token of `a` to its sink. -/
theorem output_delivered_to_later_call :
    let s := Scheduler.scripted { states := [.ok .pending] } 1 8
    let first := Call.stream 8 ⟨⟨"a"⟩, [1], ⟨3⟩, none, 0⟩ fun _ _ => true
    let second := Call.stream 8 ⟨⟨"b"⟩, [2], ⟨3⟩, none, 0⟩ fun _ _ => true
    first.ids ≠ second.ids ∧ ∃ o ∈ (second.run (first.run s).1).2, o.requestId = ⟨"a"⟩ ∧
      o.requestId ∉ second.ids := by
  refine ⟨by decide, _, List.mem_cons_of_mem _ List.mem_cons_self, rfl, by decide⟩

/-- The theorem applied to two calls that end with a finished output. -/
theorem calls_isolated_of_finished_calls :
    let s := Scheduler.scripted {} 1 8
    let first := Call.stream 8 ⟨⟨"a"⟩, [1], ⟨2⟩, none, 0⟩ fun _ _ => true
    let second := Call.batch 8 [⟨⟨"b"⟩, [2], ⟨1⟩, none, 0⟩]
    ∀ o ∈ (second.run (first.run s).1).2, o.requestId ∈ second.ids := by
  intro s first second
  have hempty : Along (fun s (call : Call) => (call.run s).1)
      (fun s _ => s.waitingQueue = [] ∧ s.decodeQueue = []) s [first, second] :=
    ⟨⟨rfl, rfl⟩, ⟨by decide, by decide⟩, trivial⟩
  exact (calls_isolated hempty).2.1

end Engine

end SglangRs
