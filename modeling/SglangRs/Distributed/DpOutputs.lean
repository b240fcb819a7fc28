import SglangRs.Distributed.DpContainment

/-!
# What the data-parallel scheduler puts out

A request that gets tokens leaves a step output, and with its last tokens a finished output too.
Both lists only grow until they are drained, and each of them is drained on its own. If no worker
fails and the pool is open then no step fails.

## Main definitions

* `DpScheduler.OutputsSince`: the outputs that have been added.
* `DpScheduler.InOrder`: the pool is open and all batches that have been executed succeeded.
* `DpScheduler.Answers`: a thread answers its batch.

## Main results

* `DpScheduler.outputsSince_step`, `DpScheduler.outputsSince_stepBlocking`: what a step adds.
* `DpScheduler.InOrder.step`, `DpScheduler.InOrder.stepBlocking`: no step fails.
-/

namespace SglangRs

namespace DpScheduler

variable {s s' : DpScheduler}

/-! ### Outputs -/

/-- Some outputs have been added to the given ones. The requests of the finished outputs are those
of the last step outputs, in the same order. -/
def OutputsSince (steps finished : List ScheduledOutput) (s : DpScheduler) : Prop :=
  ∃ newSteps newFinished, s.stepOutputs = steps ++ newSteps ∧
    s.finishedOutputs = finished ++ newFinished ∧
    (newSteps.filter (·.finished)).map (·.requestId) = newFinished.map (·.requestId) ∧
    ∀ output ∈ newFinished, output.finished = true

theorem OutputsSince.refl (s : DpScheduler) : OutputsSince s.stepOutputs s.finishedOutputs s :=
  ⟨[], [], by simp⟩

theorem OutputsSince.congr {steps finished : List ScheduledOutput}
    (h : OutputsSince steps finished s) (hsteps : s'.stepOutputs = s.stepOutputs)
    (hfinished : s'.finishedOutputs = s.finishedOutputs) : OutputsSince steps finished s' := by
  obtain ⟨newSteps, newFinished, hs, hf, hnew⟩ := h
  exact ⟨newSteps, newFinished, hsteps.trans hs, hfinished.trans hf, hnew⟩

@[simp] theorem outputs_release (s : DpScheduler) (rank : ℕ) (slots origins : List ℕ) :
    (s.release rank slots origins).stepOutputs = s.stepOutputs ∧
      (s.release rank slots origins).finishedOutputs = s.finishedOutputs := by
  unfold release
  split <;> exact ⟨rfl, rfl⟩

theorem outputs_publish (s : DpScheduler) (q : DpRequest) :
    (s.publish q).stepOutputs = s.stepOutputs ∧
      (s.publish q).finishedOutputs = s.finishedOutputs := by
  unfold publish
  dsimp only
  split <;> exact ⟨rfl, rfl⟩

theorem outputsSince_deliver {steps finished : List ScheduledOutput}
    (h : OutputsSince steps finished s) (rank : ℕ) (q : DpRequest) (token : GeneratedToken) :
    OutputsSince steps finished (s.deliver rank q token) := by
  obtain ⟨newSteps, newFinished, hs, hf, hids, hlast'⟩ := h
  unfold deliver releaseFrom
  dsimp only
  split_ifs with hlast
  · refine ⟨newSteps ++ [⟨q.request.requestId, token.tokenIds, q.request.cacheHitTokenCount, true⟩],
      newFinished ++ [⟨q.request.requestId, q.request.outputIds ++ token.tokenIds,
        q.request.cacheHitTokenCount, true⟩], ?_, ?_, ?_, ?_⟩
    · simp only [outputs_release, hs, List.append_assoc, hlast]
      rfl
    · simp only [outputs_release, hf, List.append_assoc]
      rfl
    · simp [hids]
    · intro output hmem
      rcases List.mem_append.mp hmem with hmem | hmem
      · exact hlast' output hmem
      · rw [List.mem_singleton.mp hmem]
  · refine ⟨newSteps ++ [⟨q.request.requestId, token.tokenIds, q.request.cacheHitTokenCount,
      false⟩], newFinished, ?_, hf, ?_, hlast'⟩
    · simp only [hs, List.append_assoc, hlast]
      rfl
    · simp [hids]

theorem outputsSince_keptBy (steps finished : List ScheduledOutput) :
    KeptBy anyMove fun s _ _ => OutputsSince steps finished s where
  rank := fun s rank rank' h => h
  workerPool := fun s rank hand workerPool _ h => h
  take := fun s sequence running h _ => h
  complete := fun s rank forwardMode hand q token _ h => by
    have hpublish := h.congr (outputs_publish s (advanced q)).1 (outputs_publish s (advanced q)).2
    unfold completeRequest
    dsimp only
    split_ifs
    · exact outputsSince_deliver hpublish rank (advanced q) token
    · exact hpublish
    · exact outputsSince_deliver h rank q token
  drop := fun s rank hand _ h => h
  decode := fun s hand rank kept q queue allocator allocator' slots h _ _ _ _ => h
  matched := fun s rank hand q queue h _ => h
  prefill := fun s hand rank q queue allocator allocator' slots _ h _ _ _ _ => h
  submit := fun s hand sequence rank h _ => h

/-- What a step adds. -/
theorem outputsSince_step (h : Pooled s.workerPool s.runningBatches []) :
    OutputsSince s.stepOutputs s.finishedOutputs s.step.1 :=
  (outputsSince_keptBy _ _).step 0 h.agrees (stepAlong_anyMove s .step) (.refl s)

theorem outputsSince_stepBlocking (h : Pooled s.workerPool s.runningBatches []) :
    OutputsSince s.stepOutputs s.finishedOutputs s.stepBlocking.1 :=
  (outputsSince_keptBy _ _).stepBlocking 0 h.agrees (stepAlong_anyMove s .stepBlocking) (.refl s)

/-! ### Requests in the scheduler -/

/-- The requests in the queues and in running batches. -/
def liveIds (s : DpScheduler) : Multiset RequestId :=
  idsOf s.waitingQueue + idsOf s.decodeQueue +
    (s.runningBatches.map fun running => idsOf running.batch.requests).sum

theorem account_eq (s : DpScheduler) :
    s.account = s.liveIds + (s.finishedOutputs.map fun output => output.requestId :
      List RequestId) :=
  rfl

theorem liveIds_of_isIdle (h : s.isIdle = true) : s.liveIds = 0 := by
  simp only [isIdle, Bool.and_eq_true, List.isEmpty_iff] at h
  simp [liveIds, h.1.1, h.1.2, h.2]

/-! ### Steps that do not fail -/

/-- The pool is open, and all events that wait are about batches that succeeded. -/
structure InOrder (s : DpScheduler) : Prop extends Regular s where
  isShutdown : s.workerPool.isShutdown = false
  succeeds : ∀ event ∈ s.workerPool.events, s.Succeeds event

theorem workerPool_handleEvents (s : DpScheduler) (events : List DpWorkerEvent) :
    (s.handleEvents events).1.workerPool = s.workerPool := by
  induction events generalizing s with
  | nil => rfl
  | cons event events ih =>
    have hevent := (handleEvent_frame s event).2
    unfold handleEvents
    cases hresult : s.handleEvent event with
    | mk s' error =>
      rw [hresult] at hevent
      cases error with
      | some error => exact hevent
      | none => exact (ih s').trans hevent

/-- Handling events does not touch the batches of other events. -/
theorem succeeds_handleEvents {event' : DpWorkerEvent} (events : List DpWorkerEvent)
    (hne : ∀ event ∈ events, ∀ sequence, event'.completed = some sequence →
      event.completed ≠ some sequence) (h : s.Succeeds event') :
    (s.handleEvents events).1.Succeeds event' := by
  induction events generalizing s with
  | nil => exact h
  | cons event events ih =>
    have hevent := (succeeds_handleEvent (hne event List.mem_cons_self)).mpr h
    unfold handleEvents
    cases hresult : s.handleEvent event with
    | mk s' error =>
      rw [hresult] at hevent
      cases error with
      | some error => exact hevent
      | none => exact ih (fun e he => hne e (List.mem_cons_of_mem _ he)) hevent

/-- Batches that are added are about other events. -/
theorem Succeeds.of_isPrefix {event : DpWorkerEvent} (h : s.Succeeds event)
    (hrunning : ∀ sequence, event.completed = some sequence →
      ∃ b ∈ s.runningBatches, b.sequence = sequence)
    (hsub : s.runningBatches <+: s'.runningBatches) : s'.Succeeds event := by
  cases event with
  | weightsUpdated rank result => trivial
  | fatalError rank error => exact h
  | batchCompleted sequence rank result =>
    obtain ⟨b, hb, hseq⟩ := hrunning sequence rfl
    obtain ⟨running, hrun⟩ : ∃ running, s.runningBatch sequence = some running :=
      Option.isSome_iff_exists.mp (List.find?_isSome.mpr ⟨b, hb, by simpa using hseq⟩)
    have hrun' : s'.runningBatch sequence = some running := by
      obtain ⟨more, hmore⟩ := hsub
      rw [runningBatch, ← hmore, List.find?_append, ← runningBatch, hrun]
      rfl
    intro running' hrunning'
    obtain rfl := Option.some.inj (hrun'.symm.trans hrunning')
    exact h running hrun

theorem events_dispatchRank (s : DpScheduler) (rank : ℕ) :
    (s.dispatchRank rank).1.workerPool.events = s.workerPool.events := by
  unfold dispatchRank
  cases hform : s.formBatchForRank rank with
  | error error => rfl
  | ok result =>
    obtain ⟨s', batch⟩ := result
    rw [← (formBatchForRank_frame hform).1]
    cases batch with
    | none => rfl
    | some batch =>
      dsimp only
      cases hsubmit : s'.workerPool.submitBatch rank with
      | error error => rfl
      | ok result =>
        obtain ⟨workerPool, sequence⟩ := result
        unfold DpWorkerPool.submitBatch at hsubmit
        split_ifs at hsubmit
        split at hsubmit
        · simp at hsubmit
        · split_ifs at hsubmit
          rw [← (Prod.mk.inj (Except.ok.inj hsubmit)).1]

/-- Idle ranks of an open pool take their batches. -/
theorem dispatchRanks_open (hconf : Configured s) (hopen : s.workerPool.isShutdown = false)
    {ranks : List ℕ} (hnodup : ranks.Nodup)
    (hranks : ∀ rank ∈ ranks, ∃ handle, s.workerPool.ranks[rank]? = some handle ∧
      handle.isIdle = true) :
    (s.dispatchRanks ranks).2 = none ∧
      (s.dispatchRanks ranks).1.workerPool.isShutdown = false ∧
      (s.dispatchRanks ranks).1.workerPool.events = s.workerPool.events := by
  induction ranks generalizing s with
  | nil => exact ⟨rfl, hopen, rfl⟩
  | cons rank ranks ih =>
    obtain ⟨handle, hhandle, hidle⟩ := hranks rank List.mem_cons_self
    obtain ⟨dropped, -, hnil, hnone⟩ := account_dispatchRank hconf hhandle hidle
    have hok := hnone (hnil.mpr fun hclosed => by simp [hopen] at hclosed)
    obtain ⟨hshut, hother⟩ := dispatchRank_frame s rank
    have hranks' : ∀ r ∈ ranks, ∃ handle,
        (s.dispatchRank rank).1.workerPool.ranks[r]? = some handle ∧ handle.isIdle = true := by
      intro r hr
      rw [hother r fun heq => (List.nodup_cons.mp hnodup).1 (heq ▸ hr)]
      exact hranks r (List.mem_cons_of_mem _ hr)
    have hrest := ih (hconf.dispatchRank rank) (hshut.trans hopen) (List.nodup_cons.mp hnodup).2
      hranks'
    rw [events_dispatchRank] at hrest
    unfold dispatchRanks
    cases hresult : s.dispatchRank rank with
    | mk s' error =>
      rw [hresult] at hok hrest
      dsimp only at hok
      subst hok
      exact hrest

theorem mem_idleRanks {rank : ℕ} (hrank : rank ∈ s.workerPool.idleRanks) :
    ∃ handle, s.workerPool.ranks[rank]? = some handle ∧ handle.isIdle = true := by
  have hidle := (List.mem_filter.mp hrank).2
  cases hhandle : s.workerPool.ranks[rank]? with
  | none => simp [hhandle] at hidle
  | some handle => exact ⟨handle, rfl, by simpa [hhandle] using hidle⟩

/-- Events about batches that succeeded are handled, and the idle ranks take new batches. -/
theorem tick_open {workerPool : DpWorkerPool} {events : List DpWorkerEvent}
    (hpool : Pooled workerPool s.runningBatches events) (hconf : Configured s)
    (hlen : workerPool.ranks.length = s.workerPool.ranks.length)
    (hbatch : ∀ running ∈ s.runningBatches, running.batch.requests ≠ [])
    (hopen : workerPool.isShutdown = false)
    (hsucceeds : ∀ event ∈ events ++ workerPool.events, s.Succeeds event) :
    let handled := { s with workerPool }.handleEvents events
    handled.2 = none ∧ handled.1.dispatch.2 = none ∧
      handled.1.dispatch.1.workerPool.isShutdown = false ∧
      ∀ event ∈ handled.1.dispatch.1.workerPool.events, handled.1.dispatch.1.Succeeds event := by
  have hsucceeds' : ∀ event ∈ events ++ workerPool.events, { s with workerPool }.Succeeds event :=
    fun event hmem => by cases event <;> exact hsucceeds _ hmem
  obtain ⟨-, -, -, hnone⟩ := account_handleEvents (s := { s with workerPool }) hpool hbatch
  have hconf' := hconf.handleEvents_workerPool hpool hlen
  have hframe := workerPool_handleEvents { s with workerPool } events
  have hpooled := Pooled.handleEvents (s := { s with workerPool }) hpool
  have hrest : ∀ event ∈ workerPool.events,
      ({ s with workerPool }.handleEvents events).1.Succeeds event := by
    intro event hmem
    refine succeeds_handleEvents events (fun event' hmem' sequence heq heq' => ?_)
      (hsucceeds' event (List.mem_append_right _ hmem))
    have hnodup := hpool.event_nodup
    rw [List.filterMap_append, List.nodup_append] at hnodup
    exact hnodup.2.2 sequence (List.mem_filterMap.mpr ⟨event', hmem', heq'⟩) sequence
      (List.mem_filterMap.mpr ⟨event, hmem, heq⟩) rfl
  obtain ⟨hok, hopen', hevents⟩ := dispatchRanks_open hconf' (by rw [hframe]; exact hopen)
    (List.nodup_range.filter _) fun rank hrank => mem_idleRanks hrank
  refine ⟨hnone fun event hmem => hsucceeds' event (List.mem_append_left _ hmem), hok, hopen',
    fun event hmem => ?_⟩
  have hmem' : event ∈ workerPool.events := by
    rw [← show _ = workerPool.events from hevents.trans (congrArg DpWorkerPool.events hframe)]
    exact hmem
  refine (hrest event hmem').of_isPrefix (fun sequence heq => ?_) (dispatchRanks_running _ _)
  obtain ⟨b, hb, hseq, -⟩ := hpooled.event_running event
    (by rw [hframe]; exact hmem') sequence heq
  exact ⟨b, hb, hseq⟩

theorem InOrder.contained_step (h : InOrder s) : s.Contained .step := by
  refine ⟨h.succeeds, fun hclosed => ?_⟩
  have hframe := workerPool_handleEvents { s with workerPool := s.workerPool.pollEvents.1 }
    s.workerPool.events
  have hopen := (DpWorkerPool.foldl_markIdle_fields s.workerPool.events s.workerPool).2.2.1
  rw [hframe] at hclosed
  exact absurd (hclosed.symm.trans (hopen.trans h.isShutdown)) (by simp)

theorem step_eq_of_ok {s₁ s₂ : DpScheduler}
    (hhandled : { s with workerPool := s.workerPool.pollEvents.1 }.handleEvents
      s.workerPool.events = (s₁, none))
    (hdispatched : s₁.dispatch = (s₂, none)) :
    s.step = (s₂, .ok s.workerPool.events.length) := by
  have hpolled : s.workerPool.pollEvents.2 = s.workerPool.events := rfl
  simp only [step, hpolled, hhandled, hdispatched]

theorem stepBlocking_eq_of_ok {event : DpWorkerEvent} {workerPool : DpWorkerPool}
    {s₁ s₂ : DpScheduler} (hwait : s.workerPool.waitForEvent = (workerPool, some (.ok event)))
    (hhandled : { s with workerPool }.handleEvents [event] = (s₁, none))
    (hdispatched : s₁.dispatch = (s₂, none)) : s.stepBlocking = (s₂, some (.ok ())) := by
  have hevent : { s with workerPool }.handleEvent event = (s₁, none) := by
    unfold handleEvents at hhandled
    cases hresult : { s with workerPool }.handleEvent event with
    | mk s' error =>
      rw [hresult] at hhandled
      cases error with
      | some error => simp at hhandled
      | none => exact hhandled
  simp only [stepBlocking, hwait, hevent, hdispatched]

/-- **A step does not fail.** -/
theorem InOrder.step (h : InOrder s) : InOrder s.step.1 ∧ ∃ count, s.step.2 = .ok count := by
  have hregular : Regular s.step.1 := h.toRegular.apply .step
  obtain ⟨-, -, hshut, hlen⟩ :=
    DpWorkerPool.foldl_markIdle_fields s.workerPool.events s.workerPool
  obtain ⟨hhandled, hdispatched, hopen, hsucceeds⟩ := tick_open h.pooled.polled h.configured hlen
    h.nonempty (hshut.trans h.isShutdown) (by simpa [DpWorkerPool.pollEvents] using h.succeeds)
  have hstep := step_eq_of_ok (Prod.ext rfl hhandled) (Prod.ext rfl hdispatched)
  rw [hstep] at hregular ⊢
  exact ⟨⟨hregular, hopen, hsucceeds⟩, _, rfl⟩

/-- A blocking step does not fail either. It may block. -/
theorem InOrder.stepBlocking (h : InOrder s) : InOrder s.stepBlocking.1 ∧
    ((s.workerPool.events = [] ∧ s.stepBlocking = (s, none)) ∨
      s.stepBlocking.2 = some (.ok ())) := by
  cases hevents : s.workerPool.events with
  | nil =>
    have hstep : s.stepBlocking = (s, none) := by
      simp [DpScheduler.stepBlocking, DpWorkerPool.waitForEvent, hevents, h.isShutdown]
    exact ⟨hstep ▸ h, .inl ⟨rfl, hstep⟩⟩
  | cons event events =>
    have hregular : Regular s.stepBlocking.1 := h.toRegular.apply .stepBlocking
    have hwait : s.workerPool.waitForEvent =
        ({ s.workerPool.markIdle event with events }, some (.ok event)) := by
      simp [DpWorkerPool.waitForEvent, hevents]
    have hfirst : s.workerPool.events = [event] ++ events := hevents
    obtain ⟨hhandled, hdispatched, hopen, hsucceeds⟩ := tick_open (h.pooled.receive hfirst)
      h.configured (by simp [DpWorkerPool.markIdle]) h.nonempty h.isShutdown
      (hfirst ▸ h.succeeds)
    have hstep := stepBlocking_eq_of_ok hwait (Prod.ext rfl hhandled) (Prod.ext rfl hdispatched)
    rw [hstep] at hregular ⊢
    exact ⟨⟨hregular, hopen, hsucceeds⟩, .inr rfl⟩

theorem InOrder.contained_stepBlocking (h : InOrder s) : s.Contained .stepBlocking := by
  cases hevents : s.workerPool.events with
  | nil => simp [Contained, hevents]
  | cons event events =>
    simp only [Contained, hevents, Delivers]
    refine ⟨fun e he => h.succeeds e ?_, fun hclosed => ?_⟩
    · rw [hevents, List.mem_singleton.mp he]
      exact List.mem_cons_self
    · have hwait : s.workerPool.waitForEvent.1 = { s.workerPool.markIdle event with events } := by
        simp [DpWorkerPool.waitForEvent, hevents]
      rw [workerPool_handleEvents, hwait] at hclosed
      exact absurd (hclosed.symm.trans h.isShutdown) (by simp)

/-- The thread of the rank answers its batch with a token for every request. -/
def Answers (s : DpScheduler) (rank : ℕ)
    (result : Except WorkerExecutionError BatchGeneratedTokens) : Prop :=
  ∀ handle sequence commands, s.workerPool.ranks[rank]? = some handle →
    handle.commands = sequence :: commands → s.Succeeds (.batchCompleted sequence rank result)

theorem Answers.of_running {rank sequence : ℕ} {handle : DpRankHandle} {commands : List ℕ}
    {running : RunningBatch} {generated : BatchGeneratedTokens}
    (hhandle : s.workerPool.ranks[rank]? = some handle)
    (hcommands : handle.commands = sequence :: commands)
    (hrun : s.runningBatch sequence = some running)
    (hlen : running.batch.requests.length ≤ generated.tokens.length) :
    s.Answers rank (.ok generated) := by
  intro handle' sequence' commands' hhandle' hcommands' running' hrun'
  obtain rfl := Option.some.inj (hhandle.symm.trans hhandle')
  obtain ⟨rfl, -⟩ := List.cons.inj (hcommands.symm.trans hcommands')
  obtain rfl := Option.some.inj (hrun.symm.trans hrun')
  exact hlen

/-- The batches of other events are not touched by changes elsewhere. -/
theorem Succeeds.congr {event : DpWorkerEvent} (h : s.Succeeds event)
    (hrunning : s'.runningBatches = s.runningBatches) : s'.Succeeds event := by
  cases event with
  | weightsUpdated rank result => trivial
  | fatalError rank error => exact h
  | batchCompleted sequence rank result =>
    intro running hrun
    exact h running (by rw [runningBatch, ← hrunning]; exact hrun)

namespace InOrder

theorem enqueue (h : InOrder s) (requestId : RequestId) (inputIds : List UInt32)
    (sampling : SamplingParams) (disaggregatedParams : Option DisaggregatedParams)
    (dataParallelRank : ℤ) :
    InOrder (s.apply (.enqueue requestId inputIds sampling disaggregatedParams dataParallelRank)) :=
  ⟨h.toRegular.apply _, h.isShutdown, fun event hmem => (h.succeeds event hmem).congr rfl⟩

theorem drainFinishedOutputs (h : InOrder s) : InOrder (s.apply .drainFinishedOutputs) :=
  ⟨h.toRegular.apply _, h.isShutdown, fun event hmem => (h.succeeds event hmem).congr rfl⟩

theorem drainStepOutputs (h : InOrder s) : InOrder (s.apply .drainStepOutputs) :=
  ⟨h.toRegular.apply _, h.isShutdown, fun event hmem => (h.succeeds event hmem).congr rfl⟩

theorem complete (h : InOrder s) {rank : ℕ}
    {result : Except WorkerExecutionError BatchGeneratedTokens} (hanswers : s.Answers rank result) :
    InOrder (s.apply (.complete rank result)) := by
  refine ⟨h.toRegular.apply _, ?_, fun event hmem => ?_⟩
  · change (s.workerPool.complete rank result).isShutdown = false
    unfold DpWorkerPool.complete
    split
    · exact h.isShutdown
    · split <;> exact h.isShutdown
  · suffices s.Succeeds event from this.congr rfl
    change event ∈ (s.workerPool.complete rank result).events at hmem
    unfold DpWorkerPool.complete at hmem
    split at hmem
    · exact h.succeeds event hmem
    next handle hhandle =>
      split at hmem
      · exact h.succeeds event hmem
      next sequence commands hcommands =>
        rcases List.mem_append.mp hmem with hmem | hmem
        · exact h.succeeds event hmem
        · rw [List.mem_singleton.mp hmem]
          exact hanswers handle sequence commands hhandle hcommands

end InOrder

theorem inOrder_new (hnew : s.IsNew) : InOrder s := by
  have hregular := regular_new hnew
  obtain ⟨_, _, _, _, _, _, hlaunch, -, hs⟩ := hnew
  unfold DpWorkerPool.launch at hlaunch
  split_ifs at hlaunch
  obtain rfl := Except.ok.inj hlaunch
  unfold new at hs
  split_ifs at hs
  obtain rfl := Except.ok.inj hs
  exact ⟨hregular, rfl, by simp⟩

end DpScheduler

end SglangRs
