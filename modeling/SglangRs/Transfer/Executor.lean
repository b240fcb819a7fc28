import Mathlib.Logic.Function.Basic
import SglangRs.Transfer.Spans

/-!
# The transfer executor

`KvCacheTransferExecutor` hands spans to a transport and keeps, in two parallel vectors, the batches
that the transport has accepted and not yet released (`sglang-srt/src/transfer/mod.rs`, lines
2320–2532 and 2732–2907). A poll asks for the status of every task of every batch; a batch none of
whose tasks is waiting or pending is released, and a completion event is queued for it. A
cancellation waits until the tasks of the batches of one room have ended and releases them without
an event. Every call of the transport may fail and ends the operation there.

The transport is a state machine `S` that answers as it likes: the classes `KvTransferSubmitter`,
`KvTransferStatusReader` and `KvBatchReleaser` are its three traits, with their errors given by
their texts. So is the resolver of targets. The registration of memory rests on a descriptor of the
crate NexusKV, hence the answer of the registrar is an argument of `register`. A cancellation polls
without bound; `fuel` is the number of polls it gets, and `none` says that it is still waiting.

## Main definitions

* `KvTransferStatusCode`, `pollKvSubmittedBatch`: the status of a batch.
* `KvCacheTransferExecutor` with `submit`, `pollSubmittedTransfers`,
  `cancelSubmittedTransfersForRoom`, `shutdown`.
-/

namespace SglangRs

/-! ### The transport -/

structure KvTransferStatus where
  status : ℤ
  transferredBytes : ℕ
deriving DecidableEq, Repr

class KvTransferSubmitter (S : Type) where
  submitTransfer : S → List KvTransferRequest → S × Except String KvBatchId

class KvTransferStatusReader (S : Type) where
  transferStatus : S → KvBatchId → ℕ → S × Except String KvTransferStatus

class KvBatchReleaser (S : Type) where
  freeBatch : S → KvBatchId → S × Except String Unit

class KvTransferTargetResolver (R : Type) where
  resolveTarget : R → KvCacheTransferSpan → R × Except KvCacheTransferError KvTransferTarget
  resolveSessionTarget :
    R → KvCacheTransferSpan → String → R × Except KvCacheTransferError KvTransferTarget

class KvMemoryRegistrationLease (L : Type) where
  unregister : L → L × Except String Unit

export KvTransferSubmitter (submitTransfer)
export KvTransferStatusReader (transferStatus)
export KvBatchReleaser (freeBatch)
export KvTransferTargetResolver (resolveTarget resolveSessionTarget)
export KvMemoryRegistrationLease (unregister)

/-! ### Batches and their status -/

inductive KvTransferStatusCode where
  | waiting
  | pending
  | invalid
  | canceled
  | completed
  | timeout
  | failed
deriving DecidableEq, Repr

namespace KvTransferStatusCode

def tryFrom : ℤ → Except KvCacheTransferError KvTransferStatusCode
  | 0 => .ok .waiting
  | 1 => .ok .pending
  | 2 => .ok .invalid
  | 3 => .ok .canceled
  | 4 => .ok .completed
  | 5 => .ok .timeout
  | 6 => .ok .failed
  | other => .error (.runtime s!"unknown KV transfer status: {other}")

/-- The task has not ended. -/
def isActive (code : KvTransferStatusCode) : Bool := code = .waiting ∨ code = .pending

/-- The task has ended without transferring its data. -/
def isFailure (code : KvTransferStatusCode) : Bool := ¬ code.isActive ∧ code ≠ .completed

end KvTransferStatusCode

/-- A batch that the transport has accepted. -/
structure KvSubmittedBatch where
  bootstrapRoom : BootstrapRoom
  batchId : KvBatchId
  taskCount : ℕ
  descriptorChecksum : String
deriving DecidableEq, Repr

def KvSubmittedBatch.fromSpan [Sha256] (span : KvCacheTransferSpan) (batchId : KvBatchId)
    (taskCount : ℕ) : KvSubmittedBatch :=
  ⟨span.bootstrapRoom, batchId, taskCount, span.descriptorChecksum⟩

inductive KvTransferEventStatus where
  | completed
  | failed (message : String)
  | canceled
deriving DecidableEq, Repr

structure KvTransferCompletionEvent where
  bootstrapRoom : BootstrapRoom
  descriptorChecksum : String
  status : KvTransferEventStatus
deriving DecidableEq, Repr

structure KvTransferPoll where
  events : List KvTransferCompletionEvent
  pendingTransfers : ℕ
deriving DecidableEq, Repr

inductive KvPolledBatchState where
  | completed
  | pending
  | failed (message : String)
deriving DecidableEq, Repr

/-- What a sweep over the tasks of a batch has found so far. -/
structure TaskSweep where
  completedTasks : ℕ := 0
  failure : Option String := none
  pending : Bool := false
deriving DecidableEq, Repr

namespace TaskSweep

/-- One more task has been looked at. -/
def record (sweep : TaskSweep) (batchId : KvBatchId) (taskId : ℕ) (status : ℤ) :
    KvTransferStatusCode → TaskSweep
  | .completed => { sweep with completedTasks := sweep.completedTasks + 1 }
  | .waiting | .pending => { sweep with pending := true }
  | .invalid | .canceled | .timeout | .failed =>
      { sweep with
        failure := sweep.failure <|>
          some s!"KV transfer batch {batchId} task {taskId} failed with status {status}" }

/-- The state of a batch all of whose tasks have been looked at. -/
def state (sweep : TaskSweep) (taskCount : ℕ) : KvPolledBatchState :=
  if sweep.pending then .pending
  else
    match sweep.failure with
    | some message => .failed message
    | none => if sweep.completedTasks = taskCount then .completed else .pending

end TaskSweep

section Poll

variable {S : Type} [KvTransferStatusReader S]

/-- The loop over the tasks of a batch. -/
def sweepTasks (batchId : KvBatchId) :
    List ℕ → TaskSweep → S → S × Except KvCacheTransferError TaskSweep
  | [], sweep, reader => (reader, .ok sweep)
  | taskId :: tasks, sweep, reader =>
      match transferStatus reader batchId taskId with
      | (reader, .error error) => (reader, .error (.runtime error))
      | (reader, .ok status) =>
          match KvTransferStatusCode.tryFrom status.status with
          | .error error => (reader, .error error)
          | .ok code =>
              sweepTasks batchId tasks (sweep.record batchId taskId status.status code) reader

/-- Source: `transfer/mod.rs`, lines 2488–2532. -/
def pollKvSubmittedBatch (reader : S) (batch : KvSubmittedBatch) :
    S × Except KvCacheTransferError KvPolledBatchState :=
  match sweepTasks batch.batchId (List.range batch.taskCount) {} reader with
  | (reader, .error error) => (reader, .error error)
  | (reader, .ok sweep) => (reader, .ok (sweep.state batch.taskCount))

/-- Poll a batch until it is no longer pending. -/
def awaitBatch (batch : KvSubmittedBatch) :
    ℕ → S → S × Option (Except KvCacheTransferError Unit)
  | 0, reader => (reader, none)
  | fuel + 1, reader =>
      match pollKvSubmittedBatch reader batch with
      | (reader, .error error) => (reader, some (.error error))
      | (reader, .ok .pending) => awaitBatch batch fuel reader
      | (reader, .ok .completed) => (reader, some (.ok ()))
      | (reader, .ok (.failed _)) => (reader, some (.ok ()))

end Poll

/-! ### The executor -/

/-- The layouts announced for a room, ordered by session. -/
abbrev SessionLayouts := List (String × KvRemoteLayout)

/-- Insert into or replace in a map ordered by its keys. -/
def SessionLayouts.insert (sessionId : String) (layout : KvRemoteLayout) :
    SessionLayouts → SessionLayouts
  | [] => [(sessionId, layout)]
  | (other, old) :: rest =>
      if sessionId = other then (sessionId, layout) :: rest
      else if sessionId < other then (sessionId, layout) :: (other, old) :: rest
      else (other, old) :: SessionLayouts.insert sessionId layout rest

structure KvCacheTransferExecutor (S R L : Type) where
  localMemoryRegistration : Option L
  submitter : S
  layout : KvTransferLayout
  targetResolver : R
  remoteKvLayoutsByRoom : BootstrapRoom → Option SessionLayouts
  submittedBatches : List KvBatchId
  submittedTransfers : List KvSubmittedBatch
  completionEvents : List KvTransferCompletionEvent

namespace KvCacheTransferExecutor

variable {S R L : Type}

/-- An executor without transfers. -/
def new (submitter : S) (layout : KvTransferLayout) (targetResolver : R) :
    KvCacheTransferExecutor S R L where
  localMemoryRegistration := none
  submitter := submitter
  layout := layout
  targetResolver := targetResolver
  remoteKvLayoutsByRoom := fun _ => none
  submittedBatches := []
  submittedTransfers := []
  completionEvents := []

variable (x : KvCacheTransferExecutor S R L)

/-- Source: `transfer/mod.rs`, lines 2717–2729. -/
def insertRemoteKvSessionLayout (bootstrapRoom : BootstrapRoom) (sessionId : String)
    (layout : KvRemoteLayout) : KvCacheTransferExecutor S R L :=
  { x with
    remoteKvLayoutsByRoom := Function.update x.remoteKvLayoutsByRoom bootstrapRoom
      (some (((x.remoteKvLayoutsByRoom bootstrapRoom).getD []).insert sessionId layout)) }

/-- Source: `transfer/mod.rs`, lines 2810–2834. -/
def register (registration : Except KvCacheTransferError L) :
    KvCacheTransferExecutor S R L × Except KvCacheTransferError Unit :=
  if x.localMemoryRegistration.isSome then
    (x, .error (.runtime "KV memory is already registered"))
  else
    match registration with
    | .error error => (x, .error error)
    | .ok lease => ({ x with localMemoryRegistration := some lease }, .ok ())

/-- Remove the batch at the given position from both vectors. -/
def removeAt (index : ℕ) : KvCacheTransferExecutor S R L :=
  { x with
    submittedTransfers := x.submittedTransfers.eraseIdx index
    submittedBatches := x.submittedBatches.eraseIdx index }

section Submit

variable [KvTransferTargetResolver R]

/-- The requests for the sessions of a room. -/
def sessionRequests (span : KvCacheTransferSpan) (layout : KvTransferLayout) :
    SessionLayouts → R → R × Except KvCacheTransferError (List KvTransferRequest)
  | [], resolver => (resolver, .ok [])
  | (sessionId, remoteLayout) :: sessions, resolver =>
      match resolveSessionTarget resolver span sessionId with
      | (resolver, .error error) => (resolver, .error error)
      | (resolver, .ok target) =>
          match buildRemoteKvTransferRequests span layout target remoteLayout with
          | .error error => (resolver, .error (.runtime error.display))
          | .ok requests =>
              match sessionRequests span layout sessions resolver with
              | (resolver, .error error) => (resolver, .error error)
              | (resolver, .ok more) => (resolver, .ok (requests ++ more))

/-- The requests for a span. -/
def spanRequests (span : KvCacheTransferSpan) :
    R × Except KvCacheTransferError (List KvTransferRequest) :=
  match x.remoteKvLayoutsByRoom span.bootstrapRoom with
  | some remoteLayouts => sessionRequests span x.layout remoteLayouts x.targetResolver
  | none =>
      match resolveTarget x.targetResolver span with
      | (resolver, .error error) => (resolver, .error error)
      | (resolver, .ok target) =>
          match buildKvTransferRequests span x.layout target with
          | .error error => (resolver, .error (.runtime error.display))
          | .ok requests => (resolver, .ok requests)

variable [Sha256] [KvTransferSubmitter S]

/-- Source: `transfer/mod.rs`, lines 2836–2880. -/
def submit (span : KvCacheTransferSpan) :
    KvCacheTransferExecutor S R L × Except KvCacheTransferError Unit :=
  if x.localMemoryRegistration.isNone then
    (x, .error (.runtime
      "KV backend must register ModelRunner-owned NexusKV memory before submit"))
  else
    match x.spanRequests span with
    | (resolver, .error error) => ({ x with targetResolver := resolver }, .error error)
    | (resolver, .ok []) =>
        ({ x with
            targetResolver := resolver
            completionEvents := x.completionEvents ++
              [⟨span.bootstrapRoom, span.descriptorChecksum, .completed⟩] }, .ok ())
    | (resolver, .ok requests) =>
        match submitTransfer x.submitter requests with
        | (submitter, .error error) =>
            ({ x with targetResolver := resolver, submitter := submitter },
              .error (.runtime error))
        | (submitter, .ok batchId) =>
            ({ x with
                targetResolver := resolver
                submitter := submitter
                submittedBatches := x.submittedBatches ++ [batchId]
                submittedTransfers := x.submittedTransfers ++
                  [.fromSpan span batchId requests.length] }, .ok ())

end Submit

variable [KvTransferStatusReader S] [KvBatchReleaser S]

/-- Release the batch of a transfer that has ended, and queue an event for it. -/
def settleAt (index : ℕ) (transfer : KvSubmittedBatch) (status : KvTransferEventStatus) :
    KvCacheTransferExecutor S R L × Except KvCacheTransferError Unit :=
  match freeBatch x.submitter transfer.batchId with
  | (submitter, .error error) => ({ x with submitter }, .error (.runtime error))
  | (submitter, .ok ()) =>
      (({ x with
          submitter
          completionEvents := x.completionEvents ++
            [⟨transfer.bootstrapRoom, transfer.descriptorChecksum, status⟩] } :
          KvCacheTransferExecutor S R L).removeAt index, .ok ())

/-- The loop over the transfers from the given position on. Every iteration either passes a transfer
or removes it. -/
def pollFrom : ℕ → ℕ → KvCacheTransferExecutor S R L →
    KvCacheTransferExecutor S R L × Except KvCacheTransferError Unit
  | 0, _, x => (x, .ok ())
  | n + 1, index, x =>
      match x.submittedTransfers[index]? with
      | none => (x, .ok ())
      | some transfer =>
          match pollKvSubmittedBatch x.submitter transfer with
          | (submitter, .error error) => ({ x with submitter }, .error error)
          | (submitter, .ok .pending) => pollFrom n (index + 1) { x with submitter }
          | (submitter, .ok .completed) =>
              match settleAt { x with submitter } index transfer .completed with
              | (x, .error error) => (x, .error error)
              | (x, .ok ()) => pollFrom n index x
          | (submitter, .ok (.failed message)) =>
              match settleAt { x with submitter } index transfer (.failed message) with
              | (x, .error error) => (x, .error error)
              | (x, .ok ()) => pollFrom n index x

/-- Source: `transfer/mod.rs`, lines 2764–2803. -/
def pollSubmittedTransfers :
    KvCacheTransferExecutor S R L × Except KvCacheTransferError KvTransferPoll :=
  match pollFrom x.submittedTransfers.length 0 x with
  | (x, .error error) => (x, .error error)
  | (x, .ok ()) =>
      ({ x with completionEvents := [] }, .ok ⟨x.completionEvents, x.submittedTransfers.length⟩)

/-- The loop that drains the transfers of a room. Every iteration removes one. -/
def drainRoom (fuel : ℕ) (bootstrapRoom : BootstrapRoom) :
    ℕ → KvCacheTransferExecutor S R L →
      KvCacheTransferExecutor S R L × Option (Except KvCacheTransferError Unit)
  | 0, x => (x, some (.ok ()))
  | n + 1, x =>
      match x.submittedTransfers.findIdx? (fun transfer => transfer.bootstrapRoom = bootstrapRoom)
      with
      | none => (x, some (.ok ()))
      | some index =>
          match x.submittedTransfers[index]? with
          | none => (x, some (.ok ()))
          | some transfer =>
              match awaitBatch transfer fuel x.submitter with
              | (submitter, none) => ({ x with submitter }, none)
              | (submitter, some (.error error)) => ({ x with submitter }, some (.error error))
              | (submitter, some (.ok ())) =>
                  match freeBatch submitter transfer.batchId with
                  | (submitter, .error error) =>
                      ({ x with submitter }, some (.error (.runtime error)))
                  | (submitter, .ok ()) =>
                      drainRoom fuel bootstrapRoom n
                        (({ x with submitter } : KvCacheTransferExecutor S R L).removeAt index)

/-- Source: `transfer/mod.rs`, lines 2736–2762. -/
def cancelSubmittedTransfersForRoom (fuel : ℕ) (bootstrapRoom : BootstrapRoom) :
    KvCacheTransferExecutor S R L × Option (Except KvCacheTransferError Unit) :=
  match drainRoom fuel bootstrapRoom x.submittedTransfers.length x with
  | (x, some (.ok ())) =>
      ({ x with
          completionEvents :=
            x.completionEvents.filter fun event => event.bootstrapRoom ≠ bootstrapRoom
          remoteKvLayoutsByRoom := Function.update x.remoteKvLayoutsByRoom bootstrapRoom none },
        some (.ok ()))
  | (x, result) => (x, result)

/-- The cancellations of a shutdown. -/
def cancelRooms (fuel : ℕ) : List BootstrapRoom → KvCacheTransferExecutor S R L →
    KvCacheTransferExecutor S R L × Option (Except KvCacheTransferError Unit)
  | [], x => (x, some (.ok ()))
  | room :: rooms, x =>
      match x.cancelSubmittedTransfersForRoom fuel room with
      | (x, some (.ok ())) => cancelRooms fuel rooms x
      | (x, result) => (x, result)

/-- Source: `transfer/mod.rs`, lines 2890–2906. -/
def shutdown [KvMemoryRegistrationLease L] (fuel : ℕ) :
    KvCacheTransferExecutor S R L × Option (Except KvCacheTransferError Unit) :=
  match cancelRooms fuel (x.submittedTransfers.map (·.bootstrapRoom)) x with
  | (x, some (.ok ())) =>
      match x.localMemoryRegistration with
      | none => (x, some (.ok ()))
      | some registration =>
          match unregister registration with
          | (registration, .error error) =>
              ({ x with localMemoryRegistration := some registration },
                some (.error (.runtime error)))
          | (_, .ok ()) => ({ x with localMemoryRegistration := none }, some (.ok ()))
  | (x, result) => (x, result)

end KvCacheTransferExecutor

end SglangRs
