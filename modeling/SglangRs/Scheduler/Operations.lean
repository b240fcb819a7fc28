import SglangRs.Scheduler.Completion

/-!
# Runs of the scheduler

The operations a caller performs on a scheduler, as the steps of a deterministic system over the
scheduler's state, the worker included. Since the theorems quantify over the worker, a run of this
system stands for any behaviour of the worker; `Operation.updateWorker` covers what happens to it
between the calls of the scheduler (`worker_mut`).

## Main definitions

* `NewRequest`: a request as a caller submits it.
* `Former`, `Former.form`: the four batch formers.
* `Operation`, `Scheduler.step`: the operations and their effect.
* `Scheduler.outputs`: the tokens an operation hands back.
* `ScriptedWorker`: a worker that gives its answers from lists, for concrete runs.
-/

namespace SglangRs

/-- What a caller submits. -/
structure NewRequest where
  requestId : RequestId
  inputIds : List UInt32
  sampling : SamplingParams
  disaggregatedParams : Option DisaggregatedParams
  dataParallelRank : ℤ

def NewRequest.toScheduled (n : NewRequest) : ScheduledRequest :=
  ScheduledRequest.new n.requestId n.inputIds n.sampling n.disaggregatedParams n.dataParallelRank

/-- The batch formers with their arguments. -/
inductive Former where
  | prefill (maxBatchSize maxUncachedTokens : ℕ)
  | decode (maxBatchSize : ℕ)
  | decodeWhenReady (maxBatchSize : ℕ) (isReady : ℕ → ScheduledRequest → Bool)
  | mixed (maxBatchSize tokenBudget : ℕ)

/-- The operations on a scheduler. -/
inductive Operation (W : Type) where
  | enqueue (request : NewRequest)
  | dispatch (former : Former)
  | abortRequest (requestId : RequestId)
  | abortAllRequests
  | pollTransfers
  | flushCache
  | updateWorker (worker : W)

variable {W : Type} [WorkerExecutor W]

/-- Form a batch. -/
def Former.form (s : Scheduler W) : Former → Scheduler W × Except SchedulerError ScheduleBatch
  | .prefill maxBatchSize maxUncachedTokens =>
      s.nextPrefillBatchWithTokenBudget maxBatchSize maxUncachedTokens
  | .decode maxBatchSize => s.nextDecodeBatchWithWorkerReadyCheck maxBatchSize
  | .decodeWhenReady maxBatchSize isReady => s.nextDecodeBatchWithReadyCheck maxBatchSize isReady
  | .mixed maxBatchSize tokenBudget => s.nextMixedBatch maxBatchSize tokenBudget

namespace Scheduler

/-- A scheduler as its constructors return it. -/
structure New (s : Scheduler W) : Prop where
  waiting_eq : s.waitingQueue = []
  decode_eq : s.decodeQueue = []
  pending_eq : s.pendingPrefixCacheInserts = []
  allocator : ∀ a, s.cachePageAllocator = some a →
    ∃ slotCapacity pageSize, CachePageAllocator.withPageSize slotCapacity pageSize = .ok a

/-- Form a batch and dispatch it. -/
def dispatch (s : Scheduler W) (former : Former) :
    Scheduler W × Except SchedulerError (List ScheduledOutput) :=
  dispatchFormed (former.form s)

/-- The state after an operation. -/
def step (s : Scheduler W) : Operation W → Scheduler W
  | .enqueue request => s.enqueue request.toScheduled
  | .dispatch former => (s.dispatch former).1
  | .abortRequest requestId => (s.abortRequest requestId).1
  | .abortAllRequests => s.abortAllRequests.1
  | .pollTransfers => s.pollTransfers.1
  | .flushCache => s.flushCache.1
  | .updateWorker worker => { s with worker }

/-- The outputs an operation returns: those of a successful dispatch. -/
def outputs (s : Scheduler W) : Operation W → List ScheduledOutput
  | .dispatch former =>
      match (s.dispatch former).2 with
      | .ok outputs => outputs
      | .error _ => []
  | _ => []

end Scheduler

/-- A worker that gives the answers listed in its state and, once a list is used up, executes every
batch with one unfinished token for each request, is ready and cleans up without errors. -/
structure ScriptedWorker where
  executions : List (Except WorkerExecutionError BatchGeneratedTokens) := []
  states : List (Except WorkerExecutionError DecodeRequestState) := []
  cleanups : List (Except WorkerExecutionError Unit) := []

instance : WorkerExecutor ScriptedWorker where
  executeBatch w batch :=
    match w.executions with
    | [] => (w, .ok ⟨batch.requests.map fun _ => ⟨[7], false⟩⟩)
    | answer :: executions => ({ w with executions }, answer)
  decodeRequestState w _ :=
    match w.states with
    | [] => (w, .ok .ready)
    | answer :: states => ({ w with states }, answer)
  pollTransfers w := (w, .ok {})
  completeRequest w _ := w
  finishRequest w _ :=
    match w.cleanups with
    | [] => (w, .ok ())
    | answer :: cleanups => ({ w with cleanups }, answer)
  failRequest w _ := w
  shutdown w := (w, .ok ())

/-- A scheduler over a scripted worker, with `pages` free pages. -/
def Scheduler.scripted (worker : ScriptedWorker) (pageSize pages : ℕ)
    (policy : PrefixCachePolicy := .enabled) (chunk : Option ℕ := none) :
    Scheduler ScriptedWorker :=
  Scheduler.withCacheResourcesAndPolicy worker ⟨pages * pageSize, pageSize, List.range pages, ∅⟩
    policy chunk none

/-- The submission of a plain request. -/
def Operation.submit (requestId : String) (inputIds : List UInt32) (maxNewTokens : ℕ) :
    Operation W :=
  .enqueue ⟨⟨requestId⟩, inputIds, ⟨maxNewTokens⟩, none, 0⟩

end SglangRs
