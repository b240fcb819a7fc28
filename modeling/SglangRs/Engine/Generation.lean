import SglangRs.Scheduler.Operations

/-!
# Generating with the engine

The engine of `sglang-srt` drives one scheduler for the duration of a call: it submits the requests
of the call, dispatches until they are finished and hands the outputs to a sink or returns them in
groups, one for each request (`engine.rs`, lines 275–359 and 475–611). The tokenizer, which the
engine holds as well, takes no part in this, so the functions are written over the scheduler.

There are two variants of each call. One returns as soon as the worker is not ready for a decode
step, the other polls the transfers and tries again, a bounded number of times. They differ in the
function that dispatches a decode batch, which is a parameter here.

The loops of the source that need not end take a number of iterations; a call that has not returned
by then has no result.

## Main definitions

* `Scheduler.dispatchNext`: prefill until there is an output.
* `Engine.generateScheduledStreamWithSink`, `Engine.generateScheduledStreamWithTransferPollingSink`.
* `Engine.generateScheduledBatchStream`, `Engine.generateScheduledBatchStreamWithTransferPolling`.
* `Engine.recordBatchOutputs`: the attribution of the outputs of a batch by position.
-/

namespace SglangRs

variable {W : Type} [WorkerExecutor W]

/-- The errors of the calls modelled here. -/
inductive RuntimeError where
  | scheduler (error : SchedulerError)
  | transfer (error : KvCacheTransferError)
deriving DecidableEq, Repr

def RuntimeError.isDecodeNotReady : RuntimeError → Bool
  | .scheduler (.decodeNotReady _) => true
  | _ => false

/-- Dispatch prefill batches of one request until there is an output.

Source: `scheduler.rs`, lines 1210–1220. -/
def Scheduler.dispatchNext : ℕ → Scheduler W →
    Scheduler W × Option (Except SchedulerError ScheduledOutput)
  | 0, s => (s, none)
  | fuel + 1, s =>
      match s.dispatchPrefillBatch 1 with
      | (s, .error error) => (s, some (.error error))
      | (s, .ok outputs) =>
          match outputs.getLast? with
          | some output => (s, some (.ok output))
          | none =>
              if s.waitingQueue.isEmpty ∧ s.decodeQueue.isEmpty then
                (s, some (.error .emptyQueue))
              else dispatchNext fuel s

namespace Engine

/-! ### Decode steps -/

/-- The state after a decode step, the polls that remain and the outputs of the step. -/
abbrev Decoded (W : Type) : Type :=
  Scheduler W × ℕ × Except RuntimeError (List ScheduledOutput)

/-- A decode batch of at most `size` requests, without polling. -/
def decodeBatch (remainingTransferPolls : ℕ) (s : Scheduler W) (size : ℕ) : Decoded W :=
  match s.dispatchDecodeBatch size with
  | (s, .ok outputs) => (s, remainingTransferPolls, .ok outputs)
  | (s, .error error) => (s, remainingTransferPolls, .error (.scheduler error))

/-- The loop that polls the transfers as long as the worker is not ready.

Source: `engine.rs`, lines 554–565 and 570–586. -/
def decodeBatchWithTransferPolling : (remainingTransferPolls : ℕ) → Scheduler W → ℕ → Decoded W
  | polls, s, size =>
      match s.dispatchDecodeBatch size with
      | (s, .ok outputs) => (s, polls, .ok outputs)
      | (s, .error (.decodeNotReady requestId)) =>
          match polls with
          | 0 => (s, 0, .error (.scheduler (.decodeNotReady requestId)))
          | polls + 1 =>
              match s.pollTransfers with
              | (s, .error error) => (s, polls, .error (.transfer error))
              | (s, .ok _) => decodeBatchWithTransferPolling polls s size
      | (s, .error error) => (s, polls, .error (.scheduler error))

/-- The output of a decode step of one request. -/
def nextOutput (decode : ℕ → Scheduler W → ℕ → Decoded W) (polls : ℕ) (s : Scheduler W) :
    Scheduler W × ℕ × Except RuntimeError ScheduledOutput :=
  match decode polls s 1 with
  | (s, polls, .error error) => (s, polls, .error error)
  | (s, polls, .ok outputs) =>
      match outputs.getLast? with
      | some output => (s, polls, .ok output)
      | none => (s, polls, .error (.scheduler .emptyQueue))

/-- Source: `engine.rs`, lines 354–359. -/
def nextDecodeOutput (polls : ℕ) (s : Scheduler W) :
    Scheduler W × ℕ × Except RuntimeError ScheduledOutput :=
  nextOutput decodeBatch polls s

/-- Source: `engine.rs`, lines 570–586. -/
def nextDecodeOutputWithTransferPolling (polls : ℕ) (s : Scheduler W) :
    Scheduler W × ℕ × Except RuntimeError ScheduledOutput :=
  nextOutput decodeBatchWithTransferPolling polls s

/-! ### One request -/

/-- A call that hands outputs to a sink: the state it leaves, what it handed to the sink and its
result, `none` if it has not returned. -/
structure Stream (W : Type) where
  scheduler : Scheduler W
  delivered : List ScheduledOutput
  result : Option (Except RuntimeError Unit)

/-- The loop of a streaming call, with the output to hand over next. The sink, a closure with a
state of its own, may depend on what it was handed before. -/
def streamLoop (next : ℕ → Scheduler W → Scheduler W × ℕ × Except RuntimeError ScheduledOutput)
    (sink : List ScheduledOutput → ScheduledOutput → Bool) (requestId : RequestId) :
    (fuel : ℕ) → Scheduler W → (polls : ℕ) → ScheduledOutput → (delivered : List ScheduledOutput) →
      Stream W
  | 0, s, _, _, delivered => ⟨s, delivered, none⟩
  | fuel + 1, s, polls, output, delivered =>
      if ¬sink delivered output then
        ⟨(s.abortRequest requestId).1, delivered ++ [output], some (.ok ())⟩
      else if output.finished then ⟨s, delivered ++ [output], some (.ok ())⟩
      else
        match next polls s with
        | (s, polls, .ok output') =>
            streamLoop next sink requestId fuel s polls output' (delivered ++ [output])
        | (s, _, .error error) =>
            if error.isDecodeNotReady then ⟨s, delivered ++ [output], some (.error error)⟩
            else ⟨(s.abortRequest requestId).1, delivered ++ [output], some (.error error)⟩

/-- Submit a request and hand its outputs to the sink. -/
def streamWith (next : ℕ → Scheduler W → Scheduler W × ℕ × Except RuntimeError ScheduledOutput)
    (fuel : ℕ) (s : Scheduler W) (request : NewRequest) (polls : ℕ)
    (sink : List ScheduledOutput → ScheduledOutput → Bool) : Stream W :=
  match (s.enqueue request.toScheduled).dispatchNext fuel with
  | (s, none) => ⟨s, [], none⟩
  | (s, some (.error error)) =>
      ⟨(s.abortRequest request.requestId).1, [], some (.error (.scheduler error))⟩
  | (s, some (.ok output)) => streamLoop next sink request.requestId fuel s polls output []

/-- Source: `engine.rs`, lines 275–314. -/
def generateScheduledStreamWithSink (fuel : ℕ) (s : Scheduler W) (request : NewRequest)
    (sink : List ScheduledOutput → ScheduledOutput → Bool) : Stream W :=
  streamWith nextDecodeOutput fuel s request 0 sink

/-- Source: `engine.rs`, lines 475–519. -/
def generateScheduledStreamWithTransferPollingSink (fuel : ℕ) (s : Scheduler W)
    (request : NewRequest) (maxTransferPolls : ℕ)
    (sink : List ScheduledOutput → ScheduledOutput → Bool) : Stream W :=
  streamWith nextDecodeOutputWithTransferPolling fuel s request maxTransferPolls sink

/-! ### Batches -/

/-- Attribute the outputs of a batch to the requests by position. Returns the groups and the
positions that remain active, those not dispatched first.

Source: `engine.rs`, lines 589–611. -/
def recordBatchOutputs (grouped : List (List ScheduledOutput)) (activeIndices : List ℕ)
    (outputs : List ScheduledOutput) : List (List ScheduledOutput) × List ℕ :=
  let dispatched := activeIndices.zip outputs
  (dispatched.foldl (fun grouped (index, output) => grouped.modify index (· ++ [output])) grouped,
    activeIndices.drop outputs.length ++
      (dispatched.filter fun (_, output) => ¬output.finished).map Prod.fst)

/-- A call that returns groups of outputs: the state it leaves, the outputs of its dispatches in
order, which the source does not keep, and its result, `none` if it has not returned. -/
structure Batch (W : Type) where
  scheduler : Scheduler W
  outputs : List ScheduledOutput
  result : Option (Except RuntimeError (List (List ScheduledOutput)))

/-- The loop of a batch call: decode the active requests until none is left. -/
def batchLoop (decode : ℕ → Scheduler W → ℕ → Decoded W) : (fuel : ℕ) → Scheduler W →
    (polls : ℕ) → (outputs : List ScheduledOutput) → (grouped : List (List ScheduledOutput)) →
      (active : List ℕ) → Batch W
  | 0, s, _, outputs, _, _ => ⟨s, outputs, none⟩
  | fuel + 1, s, polls, outputs, grouped, active =>
      if active.isEmpty then ⟨s, outputs, some (.ok grouped)⟩
      else
        match decode polls s active.length with
        | (s, _, .error error) => ⟨s, outputs, some (.error error)⟩
        | (s, polls, .ok decodeOutputs) =>
            let (grouped, active) := recordBatchOutputs grouped active decodeOutputs
            batchLoop decode fuel s polls (outputs ++ decodeOutputs) grouped active

/-- Submit requests, prefill them in one batch and decode until all are finished. -/
def batchWith (decode : ℕ → Scheduler W → ℕ → Decoded W) (fuel : ℕ) (s : Scheduler W)
    (requests : List NewRequest) (polls : ℕ) : Batch W :=
  let batchSize := requests.length
  if batchSize = 0 then ⟨s, [], some (.ok [])⟩
  else
    let s := requests.foldl (fun s request => s.enqueue request.toScheduled) s
    match s.dispatchPrefillBatch batchSize with
    | (s, .error error) =>
        ⟨(requests.map NewRequest.requestId).foldl (fun s id => (s.abortRequest id).1) s, [],
          some (.error (.scheduler error))⟩
    | (s, .ok prefillOutputs) =>
        let (grouped, active) := recordBatchOutputs (List.replicate batchSize [])
          (List.range batchSize) prefillOutputs
        batchLoop decode fuel s polls prefillOutputs grouped active

/-- Source: `engine.rs`, lines 316–352. -/
def generateScheduledBatchStream (fuel : ℕ) (s : Scheduler W) (requests : List NewRequest) :
    Batch W :=
  batchWith decodeBatch fuel s requests 0

/-- Source: `engine.rs`, lines 521–568. -/
def generateScheduledBatchStreamWithTransferPolling (fuel : ℕ) (s : Scheduler W)
    (requests : List NewRequest) (maxTransferPolls : ℕ) : Batch W :=
  batchWith decodeBatchWithTransferPolling fuel s requests maxTransferPolls

end Engine

end SglangRs
