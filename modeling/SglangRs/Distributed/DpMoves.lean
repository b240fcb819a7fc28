import SglangRs.Distributed.DpScheduler

/-!
# Invariants of the data-parallel scheduler

A step of the scheduler handles completions and forms batches request by request. In between, some
requests are in none of the queues and in no running batch: they are in the hand of the step. This
file provides the rule by which a property of the state and the hand is kept by a step if every
single move keeps it.

The properties we are after hold only if certain moves meet certain conditions. A `DpGuard` collects
these: a condition on a request that is completed, one on a waiting request that a rank takes, and
one on requests that are dropped because of an error.

## Main definitions

* `DpGuard`: conditions on the moves.
* `DpScheduler.StepAlong`: all moves of a call meet the conditions.
* `DpScheduler.KeptBy`: a property is kept by every move that meets the conditions.

## Main results

* `DpScheduler.KeptBy.step`, `DpScheduler.KeptBy.stepBlocking`: the rule.
-/

namespace SglangRs

/-- Conditions on the moves of a step. -/
structure DpGuard where
  /-- The rank, the mode of the batch, the state, the requests of the batch that are still to be
  completed, and the request that is completed with a token. -/
  complete : ℕ → ForwardMode → DpScheduler → List DpRequest → DpRequest → GeneratedToken → Prop
  /-- The rank and the waiting request that it takes. -/
  resume : ℕ → DpRequest → Prop
  /-- The requests that are dropped. -/
  drop : List DpRequest → Prop

namespace DpWorkerPool

variable {pool pool' : DpWorkerPool}

theorem foldl_markIdle_fields (events : List DpWorkerEvent) (pool : DpWorkerPool) :
    (events.foldl markIdle pool).events = pool.events ∧
      (events.foldl markIdle pool).nextSequence = pool.nextSequence ∧
      (events.foldl markIdle pool).isShutdown = pool.isShutdown ∧
      (events.foldl markIdle pool).ranks.length = pool.ranks.length := by
  induction events generalizing pool with
  | nil => exact ⟨rfl, rfl, rfl, rfl⟩
  | cons event events ih =>
    obtain ⟨h₁, h₂, h₃, h₄⟩ := ih (pool.markIdle event)
    exact ⟨h₁, h₂, h₃, h₄.trans (by simp [markIdle])⟩

theorem mem_events_of_waitForEvent {event : DpWorkerEvent}
    (h : pool.waitForEvent = (pool', some (.ok event))) : event ∈ pool.events := by
  unfold waitForEvent at h
  split at h
  case h_1 =>
    split_ifs at h
    all_goals simp at h
  case h_2 hevents =>
    simp only [Prod.mk.injEq, Option.some.injEq, Except.ok.injEq] at h
    rw [hevents, h.2]
    exact List.mem_cons_self

theorem length_ranks_pollEvents (pool : DpWorkerPool) :
    pool.pollEvents.1.ranks.length = pool.ranks.length :=
  (foldl_markIdle_fields pool.events pool).2.2.2

theorem length_ranks_waitForEvent {result : Except DpWorkerPoolError DpWorkerEvent}
    (h : pool.waitForEvent = (pool', some result)) : pool'.ranks.length = pool.ranks.length := by
  unfold waitForEvent at h
  split at h
  case h_1 => rw [← (Prod.mk.inj h).1]
  case h_2 =>
    rw [← (Prod.mk.inj h).1]
    simp [markIdle]

theorem length_ranks_submitBatch {rank sequence : ℕ}
    (h : pool.submitBatch rank = .ok (pool', sequence)) :
    pool'.ranks.length = pool.ranks.length := by
  unfold submitBatch at h
  split_ifs at h with hshut
  cases hrank : pool.ranks[rank]? with
  | none => simp [hrank] at h
  | some handle =>
    simp only [hrank] at h
    split_ifs at h
    rw [← (Prod.mk.inj (Except.ok.inj h)).1]
    simp

end DpWorkerPool

namespace DpScheduler

variable (G : DpGuard)

/-! ### The moves of a call -/

/-- Requests for which there is no token are dropped. -/
def CompletesAlong (rank : ℕ) (forwardMode : ForwardMode) :
    DpScheduler → List DpRequest → List GeneratedToken → Prop
  | s, q :: requests, token :: tokens =>
      G.complete rank forwardMode s requests q token ∧
        CompletesAlong rank forwardMode (s.completeRequest rank forwardMode q token) requests tokens
  | _, requests, _ => G.drop requests

def EventAlong (s : DpScheduler) : DpWorkerEvent → Prop
  | .batchCompleted sequence rank result =>
      ∀ running, s.runningBatch sequence = some running →
        match result with
        | .error _ => G.drop running.batch.requests
        | .ok generated =>
            CompletesAlong G rank running.batch.forwardMode (s.removeBatch sequence)
              running.batch.requests generated.tokens
  | _ => True

def EventsAlong : DpScheduler → List DpWorkerEvent → Prop
  | _, [] => True
  | s, event :: events =>
      EventAlong G s event ∧
        ((s.handleEvent event).2 = none → EventsAlong (s.handleEvent event).1 events)

def PrefillAlong (s : DpScheduler) (rank : ℕ) :
    List DpRequest → CachePageAllocator → List DpRequest → Prop
  | [], _, _ => True
  | q :: queue, allocator, batch =>
      batch.length < s.maxBatchSize → s.chunkLen q ≠ 0 →
        let matched := q.matched s.prefixCache s.cacheOrigins s.pageSize
        ∀ allocator' slots,
          allocator.allocateForSequence matched.request.sequenceCachePages (s.chunkLen q) =
            .ok (allocator', slots) →
          G.resume rank q ∧ PrefillAlong s rank queue allocator'
            (batch ++ [matched.forwardPrefill rank slots (s.chunkLen q)])

def RankAlong (s : DpScheduler) (rank : ℕ) : Prop :=
  (∀ allocator, s.allocators[rank]? = some allocator →
    let (_, allocator, batch) := takeDecode rank s.maxBatchSize s.decodeQueue allocator []
    PrefillAlong G s rank s.waitingQueue allocator batch) ∧
  ∀ s' batch error, s.formBatchForRank rank = .ok (s', some batch) →
    s'.workerPool.submitBatch rank = .error error → G.drop batch.requests

def RanksAlong : DpScheduler → List ℕ → Prop
  | _, [] => True
  | s, rank :: ranks =>
      RankAlong G s rank ∧ ((s.dispatchRank rank).2 = none → RanksAlong (s.dispatchRank rank).1 ranks)

/-- All moves of a call meet the conditions. -/
def StepAlong (s : DpScheduler) : DpOperation → Prop
  | .step =>
      let polled := { s with workerPool := s.workerPool.pollEvents.1 }
      let handled := polled.handleEvents s.workerPool.pollEvents.2
      EventsAlong G polled s.workerPool.pollEvents.2 ∧
        (handled.2 = none → RanksAlong G handled.1 handled.1.workerPool.idleRanks)
  | .stepBlocking =>
      ∀ workerPool event, s.workerPool.waitForEvent = (workerPool, some (.ok event)) →
        let handled := { s with workerPool }.handleEvent event
        EventAlong G { s with workerPool } event ∧
          (handled.2 = none → RanksAlong G handled.1 handled.1.workerPool.idleRanks)
  | _ => True

/-! ### The rule -/

variable {G} {s : DpScheduler} {hand : List DpRequest}

/-- A property of the state, and of the hand with the rank that it belongs to, is kept by every move
that meets the conditions. -/
structure KeptBy (G : DpGuard) (I : DpScheduler → ℕ → List DpRequest → Prop) : Prop where
  rank : ∀ s rank rank', I s rank [] → I s rank' []
  workerPool : ∀ (s : DpScheduler) rank hand (workerPool : DpWorkerPool),
    workerPool.ranks.length = s.workerPool.ranks.length → I s rank hand →
    I { s with workerPool } rank hand
  take : ∀ (s : DpScheduler) sequence running, I s running.rank [] →
    s.runningBatch sequence = some running →
    I (s.removeBatch sequence) running.rank running.batch.requests
  complete : ∀ (s : DpScheduler) rank forwardMode hand q token,
    G.complete rank forwardMode s hand q token → I s rank (q :: hand) →
    I (s.completeRequest rank forwardMode q token) rank hand
  drop : ∀ s rank hand, G.drop hand → I s rank hand → I s rank []
  decode : ∀ (s : DpScheduler) hand (rank : ℕ) kept q queue allocator allocator' slots,
    I s rank hand → s.decodeQueue = kept ++ q :: queue → q.request.dataParallelRank = (rank : ℤ) →
    s.allocators[rank]? = some allocator →
    allocator.allocateForSequence q.request.sequenceCachePages 1 = .ok (allocator', slots) →
    I { s with decodeQueue := kept ++ queue, allocators := s.allocators.set rank allocator' } rank
      (hand ++ [q.forwardDecode rank slots])
  matched : ∀ (s : DpScheduler) rank hand q queue, I s rank hand → s.waitingQueue = q :: queue →
    I { s with waitingQueue := q.matched s.prefixCache s.cacheOrigins s.pageSize :: queue } rank hand
  prefill : ∀ (s : DpScheduler) hand rank q queue allocator allocator' slots,
    G.resume rank q → I s rank hand →
    s.waitingQueue = q :: queue → s.allocators[rank]? = some allocator → s.chunkLen q ≠ 0 →
    allocator.allocateForSequence
        (q.matched s.prefixCache s.cacheOrigins s.pageSize).request.sequenceCachePages
        (s.chunkLen q) = .ok (allocator', slots) →
    I { s with waitingQueue := queue, allocators := s.allocators.set rank allocator' } rank
      (hand ++ [(q.matched s.prefixCache s.cacheOrigins s.pageSize).forwardPrefill rank slots
        (s.chunkLen q)])
  submit : ∀ (s : DpScheduler) hand sequence rank, I s rank hand → hand ≠ [] →
    I { s with runningBatches := s.runningBatches ++ [⟨sequence, rank, batchOf hand⟩] } rank []

/-! ### What the moves leave alone -/

@[simp] theorem runningBatches_release (s : DpScheduler) (rank : ℕ) (slots origins : List ℕ) :
    (s.release rank slots origins).runningBatches = s.runningBatches := by
  unfold release
  split <;> rfl

@[simp] theorem workerPool_release (s : DpScheduler) (rank : ℕ) (slots origins : List ℕ) :
    (s.release rank slots origins).workerPool = s.workerPool := by
  unfold release
  split <;> rfl

theorem completeRequest_frame (s : DpScheduler) (rank : ℕ) (forwardMode : ForwardMode)
    (q : DpRequest) (token : GeneratedToken) :
    (s.completeRequest rank forwardMode q token).runningBatches = s.runningBatches ∧
      (s.completeRequest rank forwardMode q token).workerPool = s.workerPool := by
  have hpublish (q : DpRequest) : (s.publish q).runningBatches = s.runningBatches ∧
      (s.publish q).workerPool = s.workerPool := by
    unfold publish
    dsimp only
    split <;> exact ⟨rfl, rfl⟩
  have hdeliver (s : DpScheduler) (q : DpRequest) :
      (s.deliver rank q token).runningBatches = s.runningBatches ∧
        (s.deliver rank q token).workerPool = s.workerPool := by
    unfold deliver releaseFrom
    dsimp only
    split
    · simp
    · exact ⟨rfl, rfl⟩
  unfold completeRequest
  dsimp only
  split_ifs with hprefill hcomplete
  · rw [(hdeliver _ _).1, (hdeliver _ _).2]
    exact hpublish _
  · exact hpublish _
  · exact hdeliver s q

theorem completeRequests_frame (rank : ℕ) (forwardMode : ForwardMode) (s : DpScheduler)
    (requests : List DpRequest) (tokens : List GeneratedToken) :
    (completeRequests rank forwardMode s requests tokens).runningBatches = s.runningBatches ∧
      (completeRequests rank forwardMode s requests tokens).workerPool = s.workerPool := by
  induction requests generalizing s tokens with
  | nil => cases tokens <;> exact ⟨rfl, rfl⟩
  | cons q requests ih =>
    cases tokens with
    | nil => exact ⟨rfl, rfl⟩
    | cons token tokens =>
      obtain ⟨hrunning, hpool⟩ := completeRequest_frame s rank forwardMode q token
      obtain ⟨hrunning', hpool'⟩ := ih (s.completeRequest rank forwardMode q token) tokens
      exact ⟨hrunning'.trans hrunning, hpool'.trans hpool⟩

/-- An event takes its batch off the running ones and leaves the pool alone. -/
theorem handleEvent_frame (s : DpScheduler) (event : DpWorkerEvent) :
    (s.handleEvent event).1.runningBatches =
        (match event with
        | .batchCompleted sequence _ _ => s.runningBatches.eraseP (·.sequence = sequence)
        | _ => s.runningBatches) ∧
      (s.handleEvent event).1.workerPool = s.workerPool := by
  cases event with
  | weightsUpdated rank result => exact ⟨rfl, rfl⟩
  | fatalError rank error => exact ⟨rfl, rfl⟩
  | batchCompleted sequence rank result =>
    rw [handleEvent]
    cases hrun : s.runningBatch sequence with
    | none => exact ⟨(List.eraseP_of_forall_not (List.find?_eq_none.mp hrun)).symm, rfl⟩
    | some running =>
      cases result with
      | error error => exact ⟨rfl, rfl⟩
      | ok generated =>
        exact completeRequests_frame rank _ (s.removeBatch sequence) _ generated.tokens

/-- The running batches are on the ranks that the events about them come from. -/
def Agrees (s : DpScheduler) (events : List DpWorkerEvent) : Prop :=
  ∀ sequence rank result, .batchCompleted sequence rank result ∈ events →
    ∀ running ∈ s.runningBatches, running.sequence = sequence → running.rank = rank

theorem Agrees.mono {events events' : List DpWorkerEvent} (h : s.Agrees events)
    (hsub : events' ⊆ events) : s.Agrees events' :=
  fun sequence rank result hmem => h sequence rank result (hsub hmem)

theorem Agrees.handleEvent {event : DpWorkerEvent} {events : List DpWorkerEvent}
    (h : s.Agrees (event :: events)) : (s.handleEvent event).1.Agrees events := by
  intro sequence rank result hmem running hrunning
  refine h sequence rank result (List.mem_cons_of_mem _ hmem) running ?_
  rw [(handleEvent_frame s event).1] at hrunning
  split at hrunning
  · exact List.mem_of_mem_eraseP hrunning
  · exact hrunning

/-! ### The loops -/

theorem set_getElem?_self {α : Type} {l : List α} {i : ℕ} {a : α} (h : l[i]? = some a) :
    l.set i a = l := by
  obtain ⟨hi, rfl⟩ := List.getElem?_eq_some_iff.mp h
  exact List.set_getElem_self hi

/-- The loop over the decode queue takes requests pinned to the rank off the queue. -/
theorem takeDecode_rule {P : List DpRequest → CachePageAllocator → List DpRequest → Prop}
    (rank m : ℕ)
    (hstep : ∀ kept q queue allocator batch allocator' slots,
      q.request.dataParallelRank = (rank : ℤ) →
      allocator.allocateForSequence q.request.sequenceCachePages 1 = .ok (allocator', slots) →
      P (kept ++ q :: queue) allocator batch →
      P (kept ++ queue) allocator' (batch ++ [q.forwardDecode rank slots]))
    (kept queue : List DpRequest) (allocator : CachePageAllocator) (batch : List DpRequest)
    (h : P (kept ++ queue) allocator batch) :
    P (kept ++ (takeDecode rank m queue allocator batch).1)
      (takeDecode rank m queue allocator batch).2.1
      (takeDecode rank m queue allocator batch).2.2 := by
  induction queue generalizing kept allocator batch with
  | nil => exact h
  | cons q queue ih =>
    rw [takeDecode]
    split_ifs with hfull hrank
    · cases halloc : allocator.allocateForSequence q.request.sequenceCachePages 1 with
      | error error => exact h
      | ok result =>
        obtain ⟨allocator', slots⟩ := result
        exact ih kept allocator' _ (hstep kept q queue _ batch _ slots hrank halloc h)
    · have hrest := ih (kept ++ [q]) allocator batch (by simpa using h)
      simpa using hrest
    · exact h

/-- The loop over the waiting queue takes requests off its front. -/
theorem takePrefill_rule {P : List DpRequest → CachePageAllocator → List DpRequest → Prop}
    {rank : ℕ}
    (hmatched : ∀ q queue allocator batch, P (q :: queue) allocator batch →
      P (q.matched s.prefixCache s.cacheOrigins s.pageSize :: queue) allocator batch)
    (hstep : ∀ q queue allocator batch allocator' slots, G.resume rank q → s.chunkLen q ≠ 0 →
      allocator.allocateForSequence
          (q.matched s.prefixCache s.cacheOrigins s.pageSize).request.sequenceCachePages
          (s.chunkLen q) = .ok (allocator', slots) →
      P (q :: queue) allocator batch →
      P queue allocator' (batch ++ [(q.matched s.prefixCache s.cacheOrigins s.pageSize).forwardPrefill
        rank slots (s.chunkLen q)]))
    (queue : List DpRequest) (allocator : CachePageAllocator) (batch : List DpRequest)
    (hG : PrefillAlong G s rank queue allocator batch) (h : P queue allocator batch) :
    P (s.takePrefill rank queue allocator batch).1 (s.takePrefill rank queue allocator batch).2.1
      (s.takePrefill rank queue allocator batch).2.2 := by
  induction queue generalizing allocator batch with
  | nil => exact h
  | cons q queue ih =>
    rw [takePrefill]
    dsimp only
    split_ifs with hfull hlen
    · exact hmatched q queue allocator batch h
    · cases halloc : allocator.allocateForSequence
          (q.matched s.prefixCache s.cacheOrigins s.pageSize).request.sequenceCachePages
          (s.chunkLen q) with
      | error error => exact hmatched q queue allocator batch h
      | ok result =>
        obtain ⟨allocator', slots⟩ := result
        obtain ⟨hresume, hrest⟩ := hG hfull hlen allocator' slots halloc
        exact ih allocator' _ hrest (hstep q queue allocator batch _ slots hresume hlen halloc h)
    · exact h

/-! ### Conditions that always hold -/

/-- The only condition is that on the requests that a rank takes. -/
structure OnlyResumes (G : DpGuard) : Prop where
  complete : ∀ rank forwardMode s hand q token, G.complete rank forwardMode s hand q token
  drop : ∀ hand, G.drop hand

namespace OnlyResumes

variable (h : OnlyResumes G)
include h

theorem completesAlong (s : DpScheduler) (rank : ℕ) (forwardMode : ForwardMode)
    (requests : List DpRequest) (tokens : List GeneratedToken) :
    CompletesAlong G rank forwardMode s requests tokens := by
  induction requests generalizing s tokens with
  | nil => cases tokens <;> exact h.drop _
  | cons q requests ih =>
    cases tokens with
    | nil => exact h.drop _
    | cons token tokens => exact ⟨h.complete _ _ _ _ _ _, ih _ _⟩

theorem eventAlong (s : DpScheduler) (event : DpWorkerEvent) : EventAlong G s event := by
  cases event with
  | weightsUpdated rank result => trivial
  | fatalError rank error => trivial
  | batchCompleted sequence rank result =>
    intro running _
    cases result with
    | error error => exact h.drop _
    | ok generated => exact h.completesAlong _ _ _ _ _

theorem eventsAlong (s : DpScheduler) (events : List DpWorkerEvent) : EventsAlong G s events := by
  induction events generalizing s with
  | nil => trivial
  | cons event events ih => exact ⟨h.eventAlong s event, fun _ => ih _⟩

omit h in
theorem prefillAlong {rank : ℕ} {queue : List DpRequest} (hqueue : ∀ q ∈ queue, G.resume rank q)
    (s : DpScheduler) (allocator : CachePageAllocator) (batch : List DpRequest) :
    PrefillAlong G s rank queue allocator batch := by
  induction queue generalizing allocator batch with
  | nil => trivial
  | cons q queue ih =>
    obtain ⟨hq, hqueue⟩ := List.forall_mem_cons.mp hqueue
    exact fun _ _ _ _ _ => ⟨hq, ih hqueue _ _⟩

theorem rankAlong {s : DpScheduler} {rank : ℕ} (hqueue : ∀ q ∈ s.waitingQueue, G.resume rank q) :
    RankAlong G s rank :=
  ⟨fun _ _ => prefillAlong hqueue _ _ _, fun _ _ _ _ _ => h.drop _⟩

end OnlyResumes

/-- No condition. -/
def anyMove : DpGuard where
  complete := fun _ _ _ _ _ _ => True
  resume := fun _ _ => True
  drop := fun _ => True

theorem onlyResumes_anyMove : OnlyResumes anyMove := ⟨fun _ _ _ _ _ _ => trivial, fun _ => trivial⟩

theorem eventsAlong_anyMove (s : DpScheduler) (events : List DpWorkerEvent) :
    EventsAlong anyMove s events :=
  onlyResumes_anyMove.eventsAlong s events

theorem ranksAlong_anyMove (s : DpScheduler) (ranks : List ℕ) : RanksAlong anyMove s ranks := by
  induction ranks generalizing s with
  | nil => trivial
  | cons rank ranks ih =>
    exact ⟨onlyResumes_anyMove.rankAlong fun _ _ => trivial, fun _ => ih _⟩

theorem stepAlong_anyMove (s : DpScheduler) (op : DpOperation) : StepAlong anyMove s op := by
  cases op with
  | step => exact ⟨eventsAlong_anyMove _ _, fun _ => ranksAlong_anyMove _ _⟩
  | stepBlocking =>
    exact fun _ event _ =>
      ⟨onlyResumes_anyMove.eventAlong _ event, fun _ => ranksAlong_anyMove _ _⟩
  | _ => trivial

namespace KeptBy

variable {I : DpScheduler → ℕ → List DpRequest → Prop} {rank : ℕ}

/-- Stronger conditions. -/
theorem mono (h : KeptBy G I) {G' : DpGuard}
    (hcomplete : ∀ rank forwardMode s hand q token,
      G'.complete rank forwardMode s hand q token → G.complete rank forwardMode s hand q token)
    (hresume : ∀ rank q, G'.resume rank q → G.resume rank q)
    (hdrop : ∀ hand, G'.drop hand → G.drop hand) : KeptBy G' I where
  rank := h.rank
  workerPool := h.workerPool
  take := h.take
  complete := fun s rank forwardMode hand q token hG =>
    h.complete s rank forwardMode hand q token (hcomplete _ _ _ _ _ _ hG)
  drop := fun s rank hand hG => h.drop s rank hand (hdrop _ hG)
  decode := h.decode
  matched := h.matched
  prefill := fun s hand rank q queue allocator allocator' slots hG =>
    h.prefill s hand rank q queue allocator allocator' slots (hresume _ _ hG)
  submit := h.submit

theorem completeRequests (h : KeptBy G I) {forwardMode : ForwardMode}
    {tokens : List GeneratedToken} (hG : CompletesAlong G rank forwardMode s hand tokens)
    (hI : I s rank hand) : I (completeRequests rank forwardMode s hand tokens) rank [] := by
  induction hand generalizing s tokens with
  | nil =>
    cases tokens with
    | nil => exact hI
    | cons token tokens => exact hI
  | cons q requests ih =>
    cases tokens with
    | nil => exact h.drop s rank (q :: requests) hG hI
    | cons token tokens => exact ih hG.2 (h.complete s rank forwardMode requests q token hG.1 hI)

theorem handleEvent (h : KeptBy G I) {event : DpWorkerEvent} (hagrees : s.Agrees [event])
    (hG : EventAlong G s event) (hI : I s rank []) : I (s.handleEvent event).1 rank [] := by
  cases event with
  | weightsUpdated r result => exact hI
  | fatalError r error => exact hI
  | batchCompleted sequence r result =>
    rw [DpScheduler.handleEvent]
    cases hrun : s.runningBatch sequence with
    | none => exact hI
    | some running =>
      obtain rfl : running.rank = r := hagrees sequence r result List.mem_cons_self running
        (List.mem_of_find?_eq_some hrun) (by simpa using List.find?_some hrun)
      have htake := h.take s sequence running (h.rank s rank _ hI) hrun
      have hG' := hG running hrun
      cases result with
      | error error => exact h.rank _ _ _ (h.drop _ _ _ hG' htake)
      | ok generated => exact h.rank _ _ _ (h.completeRequests hG' htake)

theorem handleEvents (h : KeptBy G I) {events : List DpWorkerEvent} (hagrees : s.Agrees events)
    (hG : EventsAlong G s events) (hI : I s rank []) : I (s.handleEvents events).1 rank [] := by
  induction events generalizing s with
  | nil => exact hI
  | cons event events ih =>
    have hevent := h.handleEvent (hagrees.mono (by simp)) hG.1 hI
    have hrest : (s.handleEvent event).2 = none → EventsAlong G (s.handleEvent event).1 events :=
      hG.2
    have hagrees' := hagrees.handleEvent
    unfold DpScheduler.handleEvents
    cases hresult : s.handleEvent event with
    | mk s' error =>
      rw [hresult] at hevent hrest hagrees'
      cases error with
      | none => exact ih hagrees' (hrest rfl) hevent
      | some error => exact hevent

theorem formBatchForRank (h : KeptBy G I) {s' : DpScheduler} {batch : Option DpBatch}
    (hG : RankAlong G s rank) (hform : s.formBatchForRank rank = .ok (s', batch))
    (hI : I s rank []) :
    ∃ hand, I s' rank hand ∧ batch = if hand = [] then none else some (batchOf hand) := by
  unfold DpScheduler.formBatchForRank at hform
  cases ha : s.allocators[rank]? with
  | none => simp [ha] at hform
  | some allocator =>
    have hlt : rank < s.allocators.length := (List.getElem?_eq_some_iff.mp ha).1
    have hsame : { s with allocators := s.allocators.set rank allocator } = s := by
      rw [set_getElem?_self ha]
    simp only [ha, Except.ok.injEq, Prod.mk.injEq] at hform
    obtain ⟨rfl, rfl⟩ := hform
    refine ⟨_, ?_, rfl⟩
    have hdecode := takeDecode_rule
      (P := fun queue allocator batch =>
        I { s with decodeQueue := queue, allocators := s.allocators.set rank allocator } rank batch)
      rank s.maxBatchSize
      (fun kept q queue allocator batch allocator' slots hrank halloc hP => by
        simpa using h.decode _ batch rank kept q queue allocator allocator' slots hP rfl hrank
          (by simp [hlt]) halloc) [] s.decodeQueue allocator [] (by simpa [hsame] using hI)
    have hG' := hG.1 allocator ha
    revert hdecode hG'
    generalize takeDecode rank s.maxBatchSize s.decodeQueue allocator [] = result
    obtain ⟨decodeQueue, allocator, batch⟩ := result
    intro hdecode hG'
    exact takePrefill_rule (G := G)
      (P := fun queue allocator batch =>
        I { s with
            waitingQueue := queue
            decodeQueue
            allocators := s.allocators.set rank allocator } rank batch)
      (fun q queue allocator batch hP => h.matched _ rank batch q queue hP rfl)
      (fun q queue allocator batch allocator' slots hresume hlen halloc hP => by
        have hnext := h.prefill _ batch rank q queue allocator allocator' slots hresume hP rfl
          (by simp [hlt]) hlen halloc
        simp only [List.set_set] at hnext
        exact hnext) s.waitingQueue allocator batch hG' hdecode

theorem dispatchRank (h : KeptBy G I) (hG : RankAlong G s rank) (hI : I s rank []) :
    I (s.dispatchRank rank).1 rank [] := by
  unfold DpScheduler.dispatchRank
  cases hform : s.formBatchForRank rank with
  | error error => exact hI
  | ok result =>
    obtain ⟨s', batch⟩ := result
    obtain ⟨hand, hI', hbatch⟩ := h.formBatchForRank hG hform hI
    by_cases hempty : hand = []
    · rw [if_pos hempty] at hbatch
      subst hbatch hempty
      exact hI'
    · rw [if_neg hempty] at hbatch
      subst hbatch
      dsimp only
      cases hsubmit : s'.workerPool.submitBatch rank with
      | error error => exact h.drop s' rank hand (hG.2 s' _ error hform hsubmit) hI'
      | ok result =>
        obtain ⟨workerPool, sequence⟩ := result
        have hsubmitted := h.submit s' hand sequence rank hI' hempty
        exact h.workerPool { s' with
            runningBatches := s'.runningBatches ++ [⟨sequence, rank, batchOf hand⟩] } rank []
          workerPool (DpWorkerPool.length_ranks_submitBatch hsubmit) hsubmitted

theorem dispatchRanks (h : KeptBy G I) {ranks : List ℕ} (hG : RanksAlong G s ranks)
    (hI : I s rank []) : I (s.dispatchRanks ranks).1 rank [] := by
  induction ranks generalizing s with
  | nil => exact hI
  | cons r ranks ih =>
    have hrank := h.rank _ r rank (h.dispatchRank hG.1 (h.rank s rank r hI))
    have hrest : (s.dispatchRank r).2 = none → RanksAlong G (s.dispatchRank r).1 ranks := hG.2
    unfold DpScheduler.dispatchRanks
    cases hresult : s.dispatchRank r with
    | mk s' error =>
      rw [hresult] at hrank hrest
      cases error with
      | none => exact ih (hrest rfl) hrank
      | some error => exact hrank

/-- **The rule for `step`.** -/
theorem step (h : KeptBy G I) (rank : ℕ) (hagrees : s.Agrees s.workerPool.events)
    (hG : StepAlong G s .step) (hI : I s rank []) : I s.step.1 rank [] := by
  obtain ⟨hevents, hranks⟩ := hG
  have hpolled : { s with workerPool := s.workerPool.pollEvents.1 }.Agrees
      s.workerPool.pollEvents.2 := hagrees
  have hhandled := h.handleEvents hpolled hevents
    (h.workerPool s rank [] s.workerPool.pollEvents.1 (DpWorkerPool.length_ranks_pollEvents _) hI)
  unfold DpScheduler.step
  cases hresult : { s with workerPool := s.workerPool.pollEvents.1 }.handleEvents
      s.workerPool.pollEvents.2 with
  | mk s' error =>
    rw [hresult] at hhandled hranks
    cases error with
    | some error => simpa [hresult] using hhandled
    | none =>
      have hdispatched := h.dispatchRanks (hranks rfl) hhandled
      simp only [hresult, dispatch]
      cases hdispatch : s'.dispatchRanks s'.workerPool.idleRanks with
      | mk s'' error =>
        rw [hdispatch] at hdispatched
        cases error with
        | none => exact hdispatched
        | some error => exact hdispatched

/-- **The rule for `step_blocking`.** -/
theorem stepBlocking (h : KeptBy G I) (rank : ℕ) (hagrees : s.Agrees s.workerPool.events)
    (hG : StepAlong G s .stepBlocking) (hI : I s rank []) : I s.stepBlocking.1 rank [] := by
  unfold DpScheduler.stepBlocking
  cases hwait : s.workerPool.waitForEvent with
  | mk workerPool result =>
    cases result with
    | none => exact hI
    | some result =>
      cases result with
      | error error =>
        exact h.workerPool s rank [] workerPool (DpWorkerPool.length_ranks_waitForEvent hwait) hI
      | ok event =>
        obtain ⟨hevent, hranks⟩ := hG workerPool event hwait
        have hmem := DpWorkerPool.mem_events_of_waitForEvent hwait
        have hpolled : { s with workerPool }.Agrees [event] := hagrees.mono (by simpa using hmem)
        have hhandled := h.handleEvent hpolled hevent
          (h.workerPool s rank [] workerPool (DpWorkerPool.length_ranks_waitForEvent hwait) hI)
        dsimp only
        cases hresult : { s with workerPool }.handleEvent event with
        | mk s' error =>
          rw [hresult] at hhandled hranks
          cases error with
          | some error => exact hhandled
          | none =>
            have hdispatched := h.dispatchRanks (hranks rfl) hhandled
            simp only [dispatch]
            cases hdispatch : s'.dispatchRanks s'.workerPool.idleRanks with
            | mk s'' error =>
              rw [hdispatch] at hdispatched
              cases error with
              | none => exact hdispatched
              | some error => exact hdispatched

end KeptBy

end DpScheduler

end SglangRs
