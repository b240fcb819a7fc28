import SglangRs.Distributed.DpMoves

/-!
# The batches that are running

The scheduler and the worker pool keep account of the same batches: the scheduler has a map from
sequence numbers to batches, the pool a flag for every rank, and between them are the commands that
a thread has not executed and the events that the scheduler has not handled. This file relates them.

## Main definitions

* `DpScheduler.Pooled`: every command and every event is about a running batch of its rank, no
  sequence number is in two places, and a rank that is not idle has a running batch.

## Main results

* `DpScheduler.Pooled.apply`: every call keeps this.
* `DpScheduler.pooled_run`: it holds in every run.
-/

namespace SglangRs

/-- The sequence number of the batch that an event is about. -/
def DpWorkerEvent.completed : DpWorkerEvent → Option ℕ
  | .batchCompleted sequence _ _ => some sequence
  | _ => none

namespace DpScheduler

/-- The account of the batches, with some events taken from the channel and not handled yet. -/
structure Pooled (pool : DpWorkerPool) (running : List RunningBatch) (events : List DpWorkerEvent) :
    Prop where
  completed : ∀ event ∈ events ++ pool.events, ∃ sequence, event.completed = some sequence
  command_running : ∀ (rank : ℕ) handle, pool.ranks[rank]? = some handle →
    ∀ sequence ∈ handle.commands, ∃ b ∈ running, b.sequence = sequence ∧ b.rank = rank
  event_running : ∀ event ∈ events ++ pool.events, ∀ sequence, event.completed = some sequence →
    ∃ b ∈ running, b.sequence = sequence ∧ b.rank = event.rank
  command_nodup : ∀ (rank : ℕ) handle, pool.ranks[rank]? = some handle → handle.commands.Nodup
  event_nodup : ((events ++ pool.events).filterMap DpWorkerEvent.completed).Nodup
  command_pending : ∀ (rank : ℕ) handle, pool.ranks[rank]? = some handle →
    ∀ sequence ∈ handle.commands, sequence ∉ (events ++ pool.events).filterMap DpWorkerEvent.completed
  nodup : (running.map (·.sequence)).Nodup
  fresh : ∀ b ∈ running, b.sequence < pool.nextSequence
  busy : ∀ (rank : ℕ) handle, pool.ranks[rank]? = some handle → handle.isIdle = false →
    ∃ b ∈ running, b.rank = rank
  idle : ∀ event ∈ events, ∀ handle, pool.ranks[event.rank]? = some handle → handle.isIdle = true

namespace Pooled

variable {pool : DpWorkerPool} {running : List RunningBatch} {event : DpWorkerEvent}
  {events events' : List DpWorkerEvent}

theorem eq_of_sequence_eq (h : Pooled pool running events) {b b' : RunningBatch}
    (hb : b ∈ running) (hb' : b' ∈ running) (heq : b.sequence = b'.sequence) : b = b' :=
  List.inj_on_of_nodup_map h.nodup hb hb' heq

theorem agrees {s : DpScheduler} (h : Pooled pool s.runningBatches events) :
    s.Agrees (events ++ pool.events) := by
  intro sequence rank result hmem b hb heq
  obtain ⟨b', hb', hseq, hrank⟩ := h.event_running _ hmem sequence rfl
  rw [h.eq_of_sequence_eq hb hb' (heq.trans hseq.symm)]
  exact hrank

/-- Events may be forgotten. -/
theorem forget (h : Pooled pool running (events ++ events')) : Pooled pool running events where
  completed := fun event hmem => h.completed event (by grind)
  command_running := h.command_running
  event_running := fun event hmem => h.event_running event (by grind)
  command_nodup := h.command_nodup
  event_nodup := h.event_nodup.sublist (by
    rw [List.append_assoc]
    exact ((List.Sublist.refl events).append (List.sublist_append_right _ _)).filterMap _)
  command_pending := fun rank handle hrank sequence hmem hevent =>
    h.command_pending rank handle hrank sequence hmem (by
      refine List.Sublist.subset ?_ hevent
      rw [List.append_assoc]
      exact ((List.Sublist.refl events).append (List.sublist_append_right _ _)).filterMap _)
  nodup := h.nodup
  fresh := h.fresh
  busy := h.busy
  idle := fun event hmem => h.idle event (by grind)

/-- Handling an event takes its batch off the running ones. -/
theorem handle (h : Pooled pool running (event :: events)) {sequence : ℕ}
    (heq : event.completed = some sequence) :
    Pooled pool (running.eraseP (·.sequence = sequence)) events := by
  have hevent : event ∈ (event :: events) ++ pool.events := by simp
  obtain ⟨b, hb, hseq, hrank⟩ := h.event_running event hevent sequence heq
  have hkeep {b' : RunningBatch} (hb' : b' ∈ running) (hne : b'.sequence ≠ sequence) :
      b' ∈ running.eraseP (·.sequence = sequence) :=
    (List.mem_eraseP_of_neg (by simpa using hne)).mpr hb'
  have hnodup := h.event_nodup
  rw [List.cons_append, List.filterMap_cons_some heq, List.nodup_cons] at hnodup
  refine ⟨fun e he => h.completed e (by simp_all), fun rank handle hlookup seq hmem => ?_,
    fun e he seq hseq' => ?_, h.command_nodup, hnodup.2, fun rank handle hlookup seq hmem hev => ?_,
    h.nodup.sublist ((List.eraseP_sublist).map _),
    fun b' hb' => h.fresh b' (List.mem_of_mem_eraseP hb'), fun rank handle hlookup hbusy => ?_,
    fun e he => h.idle e (List.mem_cons_of_mem _ he)⟩
  · obtain ⟨b', hb', hseq', hrank'⟩ := h.command_running rank handle hlookup seq hmem
    refine ⟨b', hkeep hb' ?_, hseq', hrank'⟩
    rintro rfl
    refine h.command_pending rank handle hlookup seq hmem ?_
    rw [List.cons_append, List.filterMap_cons_some heq, hseq']
    exact List.mem_cons_self
  · obtain ⟨b', hb', hseq'', hrank'⟩ := h.event_running e (by simp_all) seq hseq'
    refine ⟨b', hkeep hb' ?_, hseq'', hrank'⟩
    rintro rfl
    refine hnodup.1 (List.mem_filterMap.mpr ⟨e, he, ?_⟩)
    rw [hseq', hseq'']
  · refine h.command_pending rank handle hlookup seq hmem ?_
    rw [List.cons_append, List.filterMap_cons_some heq]
    exact List.mem_cons_of_mem _ hev
  · obtain ⟨b', hb', hrank'⟩ := h.busy rank handle hlookup hbusy
    refine ⟨b', hkeep hb' ?_, hrank'⟩
    -- the rank of the event is idle, so its batch is not the one of this rank
    intro hseq'
    have hsame := h.eq_of_sequence_eq hb' hb (hseq'.trans hseq.symm)
    have hidle := h.idle event List.mem_cons_self handle
      (by rw [← hrank, ← hsame, hrank']; exact hlookup)
    simp [hidle] at hbusy

end Pooled

/-! ### The pool -/

/-- Marking ranks idle changes nothing else. -/
theorem ranks_foldl_markIdle (events : List DpWorkerEvent) (pool : DpWorkerPool) (rank : ℕ)
    {handle : DpRankHandle} (h : (events.foldl DpWorkerPool.markIdle pool).ranks[rank]? =
      some handle) :
    ∃ old, pool.ranks[rank]? = some old ∧ handle.commands = old.commands ∧
      (handle.isIdle = false → old.isIdle = false ∧ ∀ event ∈ events, event.rank ≠ rank) := by
  induction events generalizing pool with
  | nil => exact ⟨handle, h, rfl, fun hidle => ⟨hidle, by simp⟩⟩
  | cons event events ih =>
    obtain ⟨old, hold, hcommands, hidle⟩ := ih (pool.markIdle event) h
    simp only [DpWorkerPool.markIdle, List.getElem?_modify] at hold
    by_cases hrank : event.rank = rank
    · cases hp : pool.ranks[rank]? with
      | none => simp [hp] at hold
      | some old' =>
        simp only [hp, hrank, if_true] at hold
        obtain rfl := Option.some.inj hold
        exact ⟨old', rfl, hcommands, fun hfalse => absurd (hidle hfalse).1 (by simp)⟩
    · simp only [hrank, if_false] at hold
      refine ⟨old, by simpa using hold, hcommands, fun hfalse => ⟨(hidle hfalse).1, ?_⟩⟩
      simpa [hrank] using (hidle hfalse).2

namespace Pooled

variable {pool : DpWorkerPool} {running : List RunningBatch} {event : DpWorkerEvent}
  {events events' : List DpWorkerEvent}

/-- Taking the first events from the channel marks their ranks idle. -/
theorem receive (h : Pooled pool running []) (hevents : pool.events = events ++ events') :
    Pooled { events.foldl DpWorkerPool.markIdle pool with events := events' } running events := by
  obtain ⟨-, hnext, -, -⟩ := DpWorkerPool.foldl_markIdle_fields events pool
  have hall : [] ++ pool.events = events ++ events' := hevents
  have hold {rank : ℕ} {handle : DpRankHandle}
      (hlookup : (events.foldl DpWorkerPool.markIdle pool).ranks[rank]? = some handle) :=
    ranks_foldl_markIdle events pool rank hlookup
  refine ⟨fun e he => h.completed e (hall ▸ he), fun rank handle hlookup seq hmem => ?_,
    fun e he => h.event_running e (hall ▸ he), fun rank handle hlookup => ?_, hall ▸ h.event_nodup,
    fun rank handle hlookup seq hmem => ?_, h.nodup, fun b hb => hnext ▸ h.fresh b hb,
    fun rank handle hlookup hbusy => ?_, fun e he handle hlookup => ?_⟩
  · obtain ⟨old, hlookup', hcommands, -⟩ := hold hlookup
    exact h.command_running rank old hlookup' seq (hcommands ▸ hmem)
  · obtain ⟨old, hlookup', hcommands, -⟩ := hold hlookup
    exact hcommands ▸ h.command_nodup rank old hlookup'
  · obtain ⟨old, hlookup', hcommands, -⟩ := hold hlookup
    exact hall ▸ h.command_pending rank old hlookup' seq (hcommands ▸ hmem)
  · obtain ⟨old, hlookup', -, hidle⟩ := hold hlookup
    exact h.busy rank old hlookup' (hidle hbusy).1
  · obtain ⟨old, -, -, hidle⟩ := hold hlookup
    by_contra hbusy
    exact (hidle (by simpa using hbusy)).2 e he rfl

/-- Submitting a batch. -/
theorem submit (h : Pooled pool running []) {rank sequence : ℕ} {pool' : DpWorkerPool}
    (batch : DpBatch) (hsubmit : pool.submitBatch rank = .ok (pool', sequence)) :
    Pooled pool' (running ++ [⟨sequence, rank, batch⟩]) [] := by
  unfold DpWorkerPool.submitBatch at hsubmit
  split_ifs at hsubmit with hshut
  cases hrank : pool.ranks[rank]? with
  | none => simp [hrank] at hsubmit
  | some handle =>
    simp only [hrank] at hsubmit
    split_ifs at hsubmit with hidle
    obtain ⟨rfl, rfl⟩ := Prod.mk.inj (Except.ok.inj hsubmit)
    have hlt : rank < pool.ranks.length := (List.getElem?_eq_some_iff.mp hrank).1
    have hset (r : ℕ) : (pool.ranks.set rank ⟨handle.commands ++ [pool.nextSequence], false⟩)[r]? =
        if rank = r then some ⟨handle.commands ++ [pool.nextSequence], false⟩
        else pool.ranks[r]? := by
      rw [List.getElem?_set]
      split_ifs with heq
      · rfl
      · rfl
    have hnew : pool.nextSequence ∉ running.map (·.sequence) := by
      rw [List.mem_map]
      rintro ⟨b, hb, heq⟩
      exact absurd (h.fresh b hb) (by omega)
    have hnotcommand : ∀ (r : ℕ) handle, pool.ranks[r]? = some handle →
        pool.nextSequence ∉ handle.commands := fun r handle' hlookup hmem => by
      obtain ⟨b, hb, hseq, -⟩ := h.command_running r handle' hlookup _ hmem
      exact hnew (List.mem_map.mpr ⟨b, hb, hseq⟩)
    have hnotevent :
        pool.nextSequence ∉ ([] ++ pool.events).filterMap DpWorkerEvent.completed := fun hmem => by
      obtain ⟨e, he, heq⟩ := List.mem_filterMap.mp hmem
      obtain ⟨b, hb, hseq, -⟩ := h.event_running e he _ heq
      exact hnew (List.mem_map.mpr ⟨b, hb, hseq⟩)
    refine ⟨h.completed, fun r handle' hlookup seq hmem => ?_, fun e he seq hseq => ?_,
      fun r handle' hlookup => ?_, h.event_nodup, fun r handle' hlookup seq hmem => ?_, ?_,
      fun b hb => ?_, fun r handle' hlookup hbusy => ?_, by simp⟩
    · rw [hset] at hlookup
      split_ifs at hlookup with heq
      · obtain rfl := Option.some.inj hlookup
        rcases List.mem_append.mp hmem with hmem | hmem
        · obtain ⟨b, hb, hseq, hr⟩ := h.command_running rank handle hrank seq hmem
          exact ⟨b, List.mem_append_left _ hb, hseq, hr.trans heq⟩
        · exact ⟨_, List.mem_append_right _ List.mem_cons_self, (List.mem_singleton.mp hmem).symm, heq⟩
      · obtain ⟨b, hb, hb'⟩ := h.command_running r handle' hlookup seq hmem
        exact ⟨b, List.mem_append_left _ hb, hb'⟩
    · obtain ⟨b, hb, hb'⟩ := h.event_running e he seq hseq
      exact ⟨b, List.mem_append_left _ hb, hb'⟩
    · rw [hset] at hlookup
      split_ifs at hlookup with heq
      · obtain rfl := Option.some.inj hlookup
        rw [List.nodup_append]
        refine ⟨h.command_nodup rank handle hrank, by simp, ?_⟩
        rintro a ha b hb rfl
        exact hnotcommand rank handle hrank (List.mem_singleton.mp hb ▸ ha)
      · exact h.command_nodup r handle' hlookup
    · rw [hset] at hlookup
      split_ifs at hlookup with heq
      · obtain rfl := Option.some.inj hlookup
        rcases List.mem_append.mp hmem with hmem | hmem
        · exact h.command_pending rank handle hrank seq hmem
        · rw [List.mem_singleton.mp hmem]
          exact hnotevent
      · exact h.command_pending r handle' hlookup seq hmem
    · rw [List.map_append, List.nodup_append]
      refine ⟨h.nodup, by simp, ?_⟩
      rintro a ha b hb rfl
      simp only [List.map_cons, List.map_nil, List.mem_singleton] at hb
      exact hnew (hb ▸ ha)
    · rcases List.mem_append.mp hb with hb | hb
      · exact (h.fresh b hb).trans (Nat.lt_succ_self _)
      · rw [List.mem_singleton.mp hb]
        exact Nat.lt_succ_self _
    · rw [hset] at hlookup
      split_ifs at hlookup with heq
      · exact ⟨_, List.mem_append_right _ List.mem_cons_self, heq⟩
      · obtain ⟨b, hb, hr⟩ := h.busy r handle' hlookup hbusy
        exact ⟨b, List.mem_append_left _ hb, hr⟩

/-- A thread turns a command into an event. -/
theorem complete (h : Pooled pool running []) (rank : ℕ)
    (result : Except WorkerExecutionError BatchGeneratedTokens) :
    Pooled (pool.complete rank result) running [] := by
  unfold DpWorkerPool.complete
  cases hrank : pool.ranks[rank]? with
  | none => exact h
  | some handle =>
    dsimp only
    split
    case h_1 => exact h
    case h_2 sequence commands hcommands =>
      have hmem : sequence ∈ handle.commands := by simp [hcommands]
      have hnodup := h.command_nodup rank handle hrank
      rw [hcommands, List.nodup_cons] at hnodup
      have hpending := h.command_pending rank handle hrank sequence hmem
      have hset (r : ℕ) (handle' : DpRankHandle)
          (hlookup : (pool.ranks.set rank { handle with commands })[r]? = some handle') :
          ∃ old, pool.ranks[r]? = some old ∧ handle'.isIdle = old.isIdle ∧
            (∀ seq ∈ handle'.commands, seq ∈ old.commands) ∧ handle'.commands.Nodup ∧
            sequence ∉ handle'.commands := by
        rw [List.getElem?_set] at hlookup
        split_ifs at hlookup with heq hlt
        · obtain rfl := Option.some.inj hlookup
          refine ⟨handle, heq ▸ hrank, rfl, fun seq hseq => ?_, hnodup.2, hnodup.1⟩
          rw [hcommands]
          exact List.mem_cons_of_mem _ hseq
        · refine ⟨handle', hlookup, rfl, fun seq hseq => hseq, h.command_nodup r handle' hlookup,
            fun hseq => ?_⟩
          obtain ⟨b, hb, hbseq, hbrank⟩ := h.command_running r handle' hlookup _ hseq
          obtain ⟨b', hb', hbseq', hbrank'⟩ := h.command_running rank handle hrank _ hmem
          have hsame := h.eq_of_sequence_eq hb hb' (hbseq.trans hbseq'.symm)
          exact heq (by rw [← hbrank', ← hsame, hbrank])
      have hnew : ([] ++ (pool.events ++
            [DpWorkerEvent.batchCompleted sequence rank result])).filterMap DpWorkerEvent.completed =
          ([] ++ pool.events).filterMap DpWorkerEvent.completed ++ [sequence] := by
        simp [DpWorkerEvent.completed]
      refine ⟨fun e he => ?_, fun r handle' hlookup seq hseq => ?_, fun e he seq hseq => ?_,
        fun r handle' hlookup => ?_, ?_, fun r handle' hlookup seq hseq => ?_, h.nodup, h.fresh,
        fun r handle' hlookup hbusy => ?_, by simp⟩
      · rcases List.mem_append.mp he with he | he
        · simp at he
        · rcases List.mem_append.mp he with he | he
          · exact h.completed e (by simpa using he)
          · exact ⟨sequence, by rw [List.mem_singleton.mp he]; rfl⟩
      · obtain ⟨old, hlookup', -, hsub, -⟩ := hset r handle' hlookup
        exact h.command_running r old hlookup' seq (hsub seq hseq)
      · rcases List.mem_append.mp he with he | he
        · simp at he
        · rcases List.mem_append.mp he with he | he
          · exact h.event_running e (by simpa using he) seq hseq
          · obtain rfl := List.mem_singleton.mp he
            obtain rfl : sequence = seq := Option.some.inj hseq
            exact h.command_running rank handle hrank sequence hmem
      · obtain ⟨-, -, -, -, hnodup', -⟩ := hset r handle' hlookup
        exact hnodup'
      · rw [hnew, List.nodup_append]
        refine ⟨h.event_nodup, by simp, ?_⟩
        rintro a ha b hb rfl
        exact hpending (List.mem_singleton.mp hb ▸ ha)
      · obtain ⟨old, hlookup', -, hsub, -, hne⟩ := hset r handle' hlookup
        rw [hnew, List.mem_append, not_or]
        refine ⟨h.command_pending r old hlookup' seq (hsub seq hseq), fun heq => ?_⟩
        exact hne (List.mem_singleton.mp heq ▸ hseq)
      · obtain ⟨old, hlookup', hidle, -⟩ := hset r handle' hlookup
        exact h.busy r old hlookup' (hidle ▸ hbusy)

end Pooled

/-! ### The scheduler -/

variable {s : DpScheduler} {events : List DpWorkerEvent}

theorem formBatchForRank_frame {rank : ℕ} {s' : DpScheduler} {batch : Option DpBatch}
    (h : s.formBatchForRank rank = .ok (s', batch)) :
    s'.workerPool = s.workerPool ∧ s'.runningBatches = s.runningBatches := by
  unfold formBatchForRank at h
  cases ha : s.allocators[rank]? with
  | none => simp [ha] at h
  | some allocator =>
    simp only [ha, Except.ok.injEq, Prod.mk.injEq] at h
    rw [← h.1]
    exact ⟨rfl, rfl⟩

theorem foldl_frame (f : DpScheduler → DpRequest → DpScheduler)
    (hf : ∀ s q, (f s q).workerPool = s.workerPool ∧ (f s q).runningBatches = s.runningBatches)
    (queue : List DpRequest) (s : DpScheduler) :
    (queue.foldl f s).workerPool = s.workerPool ∧
      (queue.foldl f s).runningBatches = s.runningBatches := by
  induction queue generalizing s with
  | nil => exact ⟨rfl, rfl⟩
  | cons q queue ih => exact ⟨(ih (f s q)).1.trans (hf s q).1, (ih (f s q)).2.trans (hf s q).2⟩

theorem releaseDecode_frame (s : DpScheduler) (q : DpRequest) :
    (s.releaseDecode q).workerPool = s.workerPool ∧
      (s.releaseDecode q).runningBatches = s.runningBatches := by
  unfold releaseDecode releaseFrom
  split_ifs
  · simp
  · exact ⟨rfl, rfl⟩

theorem releaseWaiting_frame (s : DpScheduler) (q : DpRequest) :
    (s.releaseWaiting q).workerPool = s.workerPool ∧
      (s.releaseWaiting q).runningBatches = s.runningBatches := by
  unfold releaseWaiting
  split_ifs
  · simp
  · exact ⟨rfl, rfl⟩

theorem abortRequest_frame (s : DpScheduler) (requestId : RequestId) :
    (s.abortRequest requestId).1.workerPool = s.workerPool ∧
      (s.abortRequest requestId).1.runningBatches = s.runningBatches :=
  foldl_frame releaseDecode releaseDecode_frame _ _

theorem abortAllRequests_frame (s : DpScheduler) :
    s.abortAllRequests.1.workerPool = s.workerPool ∧
      s.abortAllRequests.1.runningBatches = s.runningBatches := by
  obtain ⟨hpool, hrunning⟩ := foldl_frame releaseWaiting releaseWaiting_frame s.waitingQueue
    { s with waitingQueue := [], decodeQueue := [] }
  obtain ⟨hpool', hrunning'⟩ := foldl_frame releaseDecode releaseDecode_frame s.decodeQueue
    (s.waitingQueue.foldl releaseWaiting { s with waitingQueue := [], decodeQueue := [] })
  exact ⟨hpool'.trans hpool, hrunning'.trans hrunning⟩

/-- The running batch with a number is the only one that is removed. -/
theorem exists_removeBatch {sequence : ℕ} {running : RunningBatch}
    (hrun : s.runningBatch sequence = some running) :
    ∃ before after, s.runningBatches = before ++ running :: after ∧
      (s.removeBatch sequence).runningBatches = before ++ after := by
  have hp : decide (running.sequence = sequence) = true := by
    simpa using List.find?_some hrun
  obtain ⟨b, before, after, hbefore, hb, heq, herase⟩ :=
    List.exists_of_eraseP (p := fun b : RunningBatch => decide (b.sequence = sequence))
      (List.mem_of_find?_eq_some hrun) hp
  have hfind : s.runningBatch sequence = some b := by
    rw [runningBatch, heq, List.find?_append, List.find?_eq_none.mpr hbefore]
    simp [hb]
  obtain rfl := Option.some.inj (hfind.symm.trans hrun)
  exact ⟨before, after, heq, herase⟩

namespace Pooled

theorem handleEvent {event : DpWorkerEvent}
    (h : Pooled s.workerPool s.runningBatches (event :: events)) :
    Pooled (s.handleEvent event).1.workerPool (s.handleEvent event).1.runningBatches events := by
  obtain ⟨hrunning, hpool⟩ := handleEvent_frame s event
  obtain ⟨sequence, heq⟩ := h.completed event (by simp)
  rw [hpool, hrunning]
  cases event with
  | weightsUpdated rank result => simp [DpWorkerEvent.completed] at heq
  | fatalError rank error => simp [DpWorkerEvent.completed] at heq
  | batchCompleted sequence' rank result => exact h.handle rfl

theorem handleEvents (h : Pooled s.workerPool s.runningBatches events) :
    Pooled (s.handleEvents events).1.workerPool (s.handleEvents events).1.runningBatches [] := by
  induction events generalizing s with
  | nil => exact h
  | cons event events ih =>
    have hnext := h.handleEvent
    unfold DpScheduler.handleEvents
    cases hresult : s.handleEvent event with
    | mk s' error =>
      rw [hresult] at hnext
      cases error with
      | none => exact ih hnext
      | some error =>
        have hnext' : Pooled s'.workerPool s'.runningBatches ([] ++ events) := hnext
        exact hnext'.forget

theorem dispatchRank (h : Pooled s.workerPool s.runningBatches []) (rank : ℕ) :
    Pooled (s.dispatchRank rank).1.workerPool (s.dispatchRank rank).1.runningBatches [] := by
  unfold DpScheduler.dispatchRank
  cases hform : s.formBatchForRank rank with
  | error error => exact h
  | ok result =>
    obtain ⟨s', batch⟩ := result
    obtain ⟨hpool, hrunning⟩ := formBatchForRank_frame hform
    have h' : Pooled s'.workerPool s'.runningBatches [] := by rwa [hpool, hrunning]
    cases batch with
    | none => exact h'
    | some batch =>
      dsimp only
      cases hsubmit : s'.workerPool.submitBatch rank with
      | error error => exact h'
      | ok result =>
        obtain ⟨workerPool, sequence⟩ := result
        exact h'.submit batch hsubmit

theorem dispatchRanks (h : Pooled s.workerPool s.runningBatches []) (ranks : List ℕ) :
    Pooled (s.dispatchRanks ranks).1.workerPool (s.dispatchRanks ranks).1.runningBatches [] := by
  induction ranks generalizing s with
  | nil => exact h
  | cons rank ranks ih =>
    have hrank := h.dispatchRank rank
    unfold DpScheduler.dispatchRanks
    cases hresult : s.dispatchRank rank with
    | mk s' error =>
      rw [hresult] at hrank
      cases error with
      | none => exact ih hrank
      | some error => exact hrank

theorem polled (h : Pooled s.workerPool s.runningBatches []) :
    Pooled s.workerPool.pollEvents.1 s.runningBatches s.workerPool.events := by
  have hevents : s.workerPool.events = s.workerPool.events ++ [] := (List.append_nil _).symm
  exact h.receive hevents

theorem step (h : Pooled s.workerPool s.runningBatches []) :
    Pooled s.step.1.workerPool s.step.1.runningBatches [] := by
  have hhandled := handleEvents (s := { s with workerPool := s.workerPool.pollEvents.1 }) h.polled
  unfold DpScheduler.step
  cases hresult : { s with workerPool := s.workerPool.pollEvents.1 }.handleEvents
      s.workerPool.pollEvents.2 with
  | mk s' error =>
    rw [show s.workerPool.events = s.workerPool.pollEvents.2 from rfl, hresult] at hhandled
    cases error with
    | some error => simpa [hresult] using hhandled
    | none =>
      have hdispatched := hhandled.dispatchRanks s'.workerPool.idleRanks
      simp only [hresult, dispatch]
      cases hdispatch : s'.dispatchRanks s'.workerPool.idleRanks with
      | mk s'' error =>
        rw [hdispatch] at hdispatched
        cases error with
        | none => exact hdispatched
        | some error => exact hdispatched

theorem stepBlocking (h : Pooled s.workerPool s.runningBatches []) :
    Pooled s.stepBlocking.1.workerPool s.stepBlocking.1.runningBatches [] := by
  unfold DpScheduler.stepBlocking DpWorkerPool.waitForEvent
  cases hevents : s.workerPool.events with
  | nil =>
    dsimp only
    split_ifs
    · exact h
    · exact h
  | cons event events =>
    dsimp only
    have hfirst : s.workerPool.events = [event] ++ events := hevents
    have hreceive : Pooled { s.workerPool.markIdle event with events } s.runningBatches [event] :=
      h.receive hfirst
    have hhandled := handleEvents
      (s := { s with workerPool := { s.workerPool.markIdle event with events } }) hreceive
    unfold DpScheduler.handleEvents at hhandled
    cases hresult : { s with workerPool := { s.workerPool.markIdle event with events } }.handleEvent
        event with
    | mk s' error =>
      rw [hresult] at hhandled
      cases error with
      | some error => exact hhandled
      | none =>
        have hhandled' : Pooled s'.workerPool s'.runningBatches [] := hhandled
        have hdispatched := hhandled'.dispatchRanks s'.workerPool.idleRanks
        simp only [dispatch]
        cases hdispatch : s'.dispatchRanks s'.workerPool.idleRanks with
        | mk s'' error =>
          rw [hdispatch] at hdispatched
          cases error with
          | none => exact hdispatched
          | some error => exact hdispatched

/-- **Every call keeps the account.** -/
theorem apply (h : Pooled s.workerPool s.runningBatches []) (op : DpOperation) :
    Pooled (s.apply op).workerPool (s.apply op).runningBatches [] := by
  cases op with
  | enqueue requestId inputIds sampling disaggregatedParams dataParallelRank => exact h
  | step => exact h.step
  | stepBlocking => exact h.stepBlocking
  | abortRequest requestId =>
    obtain ⟨hpool, hrunning⟩ := abortRequest_frame s requestId
    simp only [DpScheduler.apply]
    rw [hpool, hrunning]
    exact h
  | abortAllRequests =>
    obtain ⟨hpool, hrunning⟩ := abortAllRequests_frame s
    simp only [DpScheduler.apply]
    rw [hpool, hrunning]
    exact h
  | flushCache => exact h
  | drainFinishedOutputs => exact h
  | drainStepOutputs => exact h
  | shutdown =>
    simp only [DpScheduler.apply, DpWorkerPool.shutdown]
    split_ifs
    · exact ⟨h.completed, h.command_running, h.event_running, h.command_nodup, h.event_nodup,
        h.command_pending, h.nodup, h.fresh, h.busy, h.idle⟩
    · exact h
  | complete rank result => exact h.complete rank result

end Pooled

/-- A new scheduler has no running batch. -/
theorem pooled_new (hnew : s.IsNew) : Pooled s.workerPool s.runningBatches [] := by
  obtain ⟨dpSize, pool, allocators, maxBatchSize, pageSize, chunkedPrefillSize, hlaunch, -, hs⟩ :=
    hnew
  unfold DpWorkerPool.launch at hlaunch
  split_ifs at hlaunch
  obtain rfl := Except.ok.inj hlaunch
  unfold new at hs
  split_ifs at hs
  obtain rfl := Except.ok.inj hs
  have hhandle {rank : ℕ} {handle : DpRankHandle}
      (h : (List.replicate dpSize (DpRankHandle.mk [] true))[rank]? = some handle) :
      handle = ⟨[], true⟩ := by
    rw [List.getElem?_replicate] at h
    split_ifs at h
    exact (Option.some.inj h).symm
  refine ⟨by simp, fun rank handle h => ?_, by simp, fun rank handle h => ?_, by simp,
    fun rank handle h => ?_, by simp, by simp, fun rank handle h hbusy => ?_, by simp⟩
  · simp [hhandle h]
  · simp [hhandle h]
  · simp [hhandle h]
  · simp [hhandle h] at hbusy

/-- The account holds in every run. -/
theorem pooled_run (hnew : s.IsNew) (ops : List DpOperation) :
    Pooled (s.run ops).workerPool (s.run ops).runningBatches [] := by
  refine Transition.foldl_invariant (P := fun _ _ => True)
    (I := fun s => Pooled s.workerPool s.runningBatches []) (fun s op _ h => h.apply op)
    (Transition.along_of_forall (fun _ _ => trivial) s ops) (pooled_new hnew)

end DpScheduler

end SglangRs
