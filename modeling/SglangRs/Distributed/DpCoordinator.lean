import SglangRs.Distributed.DpScheduler
import SglangRs.Engine.StreamResponses

/-!
# The data-parallel coordinator

The coordinator puts text requests and token requests to a data-parallel scheduler
(`sglang-srt/src/distributed/dp_coordinator.rs`). A request is enqueued and its result is collected
by a later call of `step` or `step_tokens`, or a call submits it and runs the scheduler until its
result is there. The first calls and `generate` take the finished outputs of the scheduler, the
other calls its step outputs; nobody takes both.

A call is a loop whose passes consist of a step, of the handling of the outputs that it drains, and
of a step that may block. The threads of the workers execute their batches in between. The tokenizer
is a parameter. The identifiers of the requests that were submitted and of those that finished, and
the responses of all calls, are kept as auxiliary fields that no call reads.

## Main definitions

* `DpCoordinator.CallLoop`: a call in progress.
* `DpCoordinator.drain`: what a call does with the outputs that it drains.
* `DpCoordinator`, `DpCoordinator.apply`, `DpCoordinator.run`: the coordinator and its runs.
* `DpCoordinator.DeliversOnce`: every completion reaches the caller that it is for, once.
-/

namespace SglangRs

structure GenerateRequest where
  requestId : RequestId
  prompt : String
  sampling : SamplingParams

structure GenerateOutput where
  requestId : RequestId
  text : String
  finished : Bool
deriving DecidableEq, Repr

/-- A request for tokens. What it says about disaggregation is not read by the coordinator. -/
structure TokenGenerateRequest where
  requestId : RequestId
  inputIds : List UInt32
  sampling : SamplingParams
  dataParallelRank : ℤ

/-- A tokenizer with errors of type `ε`. -/
structure Tokenizer (ε : Type) where
  encode : String → List UInt32
  decode : List UInt32 → Except ε String

inductive DpCoordinatorError (ε : Type) where
  | scheduler (error : DpSchedulerError)
  | tokenizer (error : ε)
  | invalidState (message : String)

namespace DpCoordinator

variable {ε : Type}

/-! ### Calls -/

inductive Call where
  | enqueueRequest (request : GenerateRequest)
  | enqueueTokenRequest (request : TokenGenerateRequest)
  | step
  | stepTokens
  | generate (request : GenerateRequest)
  | generateTokens (request : TokenGenerateRequest)
  | generateTokenStream (request : TokenGenerateRequest)

/-- What a call returns. -/
inductive Response (ε : Type) where
  | step (result : Except (DpCoordinatorError ε) (List GenerateOutput))
  | stepTokens (result : Except (DpCoordinatorError ε) (List TokenGenerateOutput))
  | generate (target : RequestId) (result : Except (DpCoordinatorError ε) GenerateOutput)
  | generateTokens (target : RequestId) (result : Except (DpCoordinatorError ε) TokenGenerateOutput)
  | generateTokenStream (target : RequestId)
      (result : Except (DpCoordinatorError ε) (List TokenGenerateOutput))

/-- A loop in progress, with the outputs that have been passed to the sink. The sink answers whether
the call goes on, given all outputs so far. -/
inductive CallLoop (ε : Type) where
  | step
  | stepTokens
  | generate (target : RequestId)
  | stream (target : RequestId) (sink : List TokenGenerateOutput → Bool)
      (respond : Except (DpCoordinatorError ε) (List TokenGenerateOutput) → Response ε)
      (outputs : List TokenGenerateOutput)

/-- The next thing that a loop does. -/
inductive LoopPoint where
  | polls
  | drains
  | waits
deriving DecidableEq, Repr

/-- Who the completion of a request is for: the calls that step the coordinator, or the call that
has submitted the request. -/
inductive Recipient where
  | steps
  | call (target : RequestId)
deriving DecidableEq, Repr

/-- What the closure of `generate_tokens` has collected.

Source: `dp_coordinator.rs`, lines 236–253. -/
def collectTokens (target : RequestId) (outputs : List TokenGenerateOutput) :
    TokenGenerateOutput where
  requestId := target
  outputIds := outputs.flatMap (·.outputIds)
  cachedTokens := (outputs.getLast?.map (·.cachedTokens)).getD 0
  finished := (outputs.getLast?.map (·.finished)).getD false

/-- The response of a call that ends with an error. -/
def CallLoop.fail (error : DpCoordinatorError ε) : CallLoop ε → Response ε
  | .step => .step (.error error)
  | .stepTokens => .stepTokens (.error error)
  | .generate target => .generate target (.error error)
  | .stream _ _ respond _ => respond (.error error)

/-! ### Outputs -/

def toTokenOutput (item : ScheduledOutput) : TokenGenerateOutput where
  requestId := item.requestId
  outputIds := item.tokenIds
  cachedTokens := item.cachedTokens
  finished := item.finished

/-- Source: `dp_coordinator.rs`, lines 168–175. -/
def toTextOutput (tokenizer : Tokenizer ε) (item : ScheduledOutput) :
    Except (DpCoordinatorError ε) GenerateOutput :=
  match tokenizer.decode item.tokenIds with
  | .error error => .error (.tokenizer error)
  | .ok text => .ok ⟨item.requestId, text, item.finished⟩

/-- How a pass over the step outputs ends: with all of them read, with the last output of the
target, or with a sink that stops the call. -/
inductive PassEnd where
  | exhausted
  | finished
  | stopped
deriving DecidableEq, Repr

/-- Pass the step outputs of a request to the sink.

Source: `dp_coordinator.rs`, lines 271–288. -/
def passOutputs (target : RequestId) (sink : List TokenGenerateOutput → Bool) :
    List TokenGenerateOutput → List ScheduledOutput → List TokenGenerateOutput × PassEnd
  | outputs, [] => (outputs, .exhausted)
  | outputs, item :: items =>
      if item.requestId = target then
        let outputs := outputs ++ [toTokenOutput item]
        if sink outputs = false then (outputs, .stopped)
        else if item.finished then (outputs, .finished)
        else passOutputs target sink outputs items
      else passOutputs target sink outputs items

/-- The text of the error of a call whose request is nowhere any more. -/
def disappeared (target : RequestId) : DpCoordinatorError ε :=
  .invalidState ("request " ++ target.asStr ++ " disappeared before generating completion")

end DpCoordinator

/-! ### The coordinator -/

/-- The coordinator, with the call in progress. -/
structure DpCoordinator (ε : Type) where
  scheduler : DpScheduler
  current : Option (DpCoordinator.CallLoop ε × DpCoordinator.LoopPoint)
  submissions : List (RequestId × DpCoordinator.Recipient)
  finished : List RequestId
  responses : List (DpCoordinator.Response ε)

namespace DpCoordinator

variable {ε : Type} (tokenizer : Tokenizer ε) (c : DpCoordinator ε)

/-- A coordinator that has not been called. -/
def new (scheduler : DpScheduler) : DpCoordinator ε where
  scheduler := scheduler
  current := none
  submissions := []
  finished := []
  responses := []

/-- The call returns. -/
def respond (response : Response ε) : DpCoordinator ε :=
  { c with current := none, responses := c.responses ++ [response] }

/-- The scheduler has made a step. -/
def stepped (scheduler : DpScheduler) : DpCoordinator ε :=
  { c with
    scheduler
    finished := c.finished ++
      (scheduler.finishedOutputs.drop c.scheduler.finishedOutputs.length).map (·.requestId) }

def submit (recipient : Recipient) (requestId : RequestId) (inputIds : List UInt32)
    (sampling : SamplingParams) (dataParallelRank : ℤ) : DpCoordinator ε :=
  { c with
    scheduler := c.scheduler.apply (.enqueue requestId inputIds sampling none dataParallelRank)
    submissions := c.submissions ++ [(requestId, recipient)] }

/-- Source: `dp_coordinator.rs`, lines 142–149. -/
def enqueueRequest (recipient : Recipient) (request : GenerateRequest) : DpCoordinator ε :=
  c.submit recipient request.requestId (tokenizer.encode request.prompt) request.sampling 0

/-- Source: `dp_coordinator.rs`, lines 151–159. -/
def enqueueTokenRequest (recipient : Recipient) (request : TokenGenerateRequest) :
    DpCoordinator ε :=
  c.submit recipient request.requestId request.inputIds request.sampling request.dataParallelRank

/-- The beginning of `generate_token_stream_with_sink`.

Source: `dp_coordinator.rs`, lines 257–266. -/
def beginStream (request : TokenGenerateRequest) (sink : List TokenGenerateOutput → Bool)
    (respond : Except (DpCoordinatorError ε) (List TokenGenerateOutput) → Response ε) :
    DpCoordinator ε :=
  { c.enqueueTokenRequest (.call request.requestId) request with
    current := some (.stream request.requestId sink respond [], .polls) }

/-- A call is made.

Source: `dp_coordinator.rs`, lines 142–311. -/
def begin : Call → DpCoordinator ε
  | .enqueueRequest request => c.enqueueRequest tokenizer .steps request
  | .enqueueTokenRequest request => c.enqueueTokenRequest .steps request
  | .step => { c with current := some (.step, .polls) }
  | .stepTokens => { c with current := some (.stepTokens, .polls) }
  | .generate request =>
      { c.enqueueRequest tokenizer (.call request.requestId) request with
        current := some (.generate request.requestId, .polls) }
  | .generateTokens request =>
      c.beginStream request (fun _ => true) fun result =>
        .generateTokens request.requestId (result.map (collectTokens request.requestId))
  | .generateTokenStream request =>
      c.beginStream request (fun _ => true) (.generateTokenStream request.requestId)

/-- The step of a loop that does not block. -/
def poll (loop : CallLoop ε) : DpCoordinator ε :=
  let (scheduler, result) := c.scheduler.step
  match result with
  | .error error => (c.stepped scheduler).respond (loop.fail (.scheduler error))
  | .ok _ => { c.stepped scheduler with current := some (loop, .drains) }

/-- A call that has not got its output goes on unless there is nothing left to do. -/
def goOn (loop : CallLoop ε) (target : RequestId) : DpCoordinator ε :=
  if c.scheduler.isIdle then c.respond (loop.fail (disappeared target))
  else { c with current := some (loop, .waits) }

/-- The handling of the outputs that a call drains.

Source: `dp_coordinator.rs`, lines 165–177, 182–195, 209–227 and 270–296. -/
def drain : CallLoop ε → DpCoordinator ε
  | .step =>
      let items := c.scheduler.finishedOutputs
      { c with scheduler := c.scheduler.apply .drainFinishedOutputs }.respond
        (.step (items.mapM (toTextOutput tokenizer)))
  | .stepTokens =>
      let items := c.scheduler.finishedOutputs
      { c with scheduler := c.scheduler.apply .drainFinishedOutputs }.respond
        (.stepTokens (.ok (items.map toTokenOutput)))
  | .generate target =>
      let items := c.scheduler.finishedOutputs
      let c := { c with scheduler := c.scheduler.apply .drainFinishedOutputs }
      match items.find? (·.requestId = target) with
      | some item => c.respond (.generate target (toTextOutput tokenizer item))
      | none => c.goOn (.generate target) target
  | .stream target sink respond outputs =>
      let items := c.scheduler.stepOutputs
      let c := { c with scheduler := c.scheduler.apply .drainStepOutputs }
      match passOutputs target sink outputs items with
      | (outputs, .stopped) =>
          { c with scheduler := c.scheduler.apply (.abortRequest target) }.respond
            (respond (.ok outputs))
      | (outputs, .finished) => c.respond (respond (.ok outputs))
      | (outputs, .exhausted) => c.goOn (.stream target sink respond outputs) target

/-- The step of a loop that may block. -/
def wait (loop : CallLoop ε) : DpCoordinator ε :=
  let (scheduler, result) := c.scheduler.stepBlocking
  match result with
  | none => c
  | some (.error error) => (c.stepped scheduler).respond (loop.fail (.scheduler error))
  | some (.ok ()) => { c.stepped scheduler with current := some (loop, .polls) }

/-! ### Runs -/

/-- The caller makes a call, the loop of the call goes on, or a thread executes its batch. -/
inductive Action where
  | call (call : Call)
  | proceed
  | complete (rank : ℕ) (result : Except WorkerExecutionError BatchGeneratedTokens)

/-- There is one call at a time. -/
def apply : Action → DpCoordinator ε
  | .call call =>
      match c.current with
      | none => c.begin tokenizer call
      | some _ => c
  | .proceed =>
      match c.current with
      | none => c
      | some (loop, .polls) => c.poll loop
      | some (loop, .drains) => c.drain tokenizer loop
      | some (loop, .waits) => c.wait loop
  | .complete rank result => { c with scheduler := c.scheduler.apply (.complete rank result) }

def run (actions : List Action) : DpCoordinator ε := actions.foldl (apply tokenizer) c

/-! ### Deliveries -/

/-- The requests that a response reports as finished. -/
def Response.completions : Response ε → List RequestId
  | .step (.ok outputs) => (outputs.filter (·.finished)).map (·.requestId)
  | .stepTokens (.ok outputs) => (outputs.filter (·.finished)).map (·.requestId)
  | .generate _ (.ok output) => if output.finished then [output.requestId] else []
  | .generateTokens _ (.ok output) => if output.finished then [output.requestId] else []
  | .generateTokenStream _ (.ok outputs) => (outputs.filter (·.finished)).map (·.requestId)
  | _ => []

def Response.recipient : Response ε → Recipient
  | .step _ | .stepTokens _ => .steps
  | .generate target _ | .generateTokens target _ | .generateTokenStream target _ => .call target

/-- The completions that have been returned, and to whom. -/
def returned : List (RequestId × Recipient) :=
  c.responses.flatMap fun response => response.completions.map fun id => (id, response.recipient)

/-- The completion is in the hands of a call in progress, or waits for the next step. -/
def Pending (id : RequestId) : Prop :=
  ((id, Recipient.steps) ∈ c.submissions ∧ id ∈ c.scheduler.finishedOutputs.map (·.requestId)) ∨
    match c.current with
    | some (.generate target, _) =>
        target = id ∧ id ∈ c.scheduler.finishedOutputs.map (·.requestId)
    | some (.stream target _ _ _, _) =>
        target = id ∧ ∃ item ∈ c.scheduler.stepOutputs, item.requestId = id ∧ item.finished = true
    | _ => False

/-- Every completion is returned at most once and to whom it is for, and none is lost: it has been
returned, or still waits for its recipient. -/
structure DeliversOnce : Prop where
  once : (c.returned.map Prod.fst).Nodup
  recipient : ∀ delivery ∈ c.returned, delivery ∈ c.submissions
  kept : ∀ id ∈ c.finished, id ∈ c.returned.map Prod.fst ∨ c.Pending id

end DpCoordinator

end SglangRs
