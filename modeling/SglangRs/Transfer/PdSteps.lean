import SglangRs.Transfer.PdExecutor

/-!
# The executor of a prefill worker, one critical section at a time

The operations of `PdBootstrapKvCacheTransferExecutor` share the state of the bootstrap service with
the thread that receives messages. They lock it several times
(`sglang-srt/src/transfer/pd_bootstrap.rs`, lines 101–123, 143–234, 236–308), and between two
critical sections messages may arrive. This file cuts the operations into instructions, each of
which has at most one critical section, one message to send or one call of the inner executor. What
is left to do of an operation is a list of instructions, and an operation that fails drops what is
left.

A submission looks for its layouts again and again until a deadline; whether the deadline has passed
is an argument of `execute`. A cancellation that is still waiting goes on with the same instruction.

## Main definitions

* `PdInstruction`, `PdBootstrapKvCacheTransferExecutor.execute`: one instruction.
* `PdOperation.instructions`: the instructions of an operation.
-/

namespace SglangRs

/-- What the executor does next. -/
inductive PdInstruction where
  | lookup (span : KvCacheTransferSpan) (recurrentState : Option Bytes)
  | markActive (span : KvCacheTransferSpan) (recurrentState : Option Bytes)
      (layouts : SessionLayouts)
  | hand (span : KvCacheTransferSpan) (recurrentState : Option Bytes) (layouts : SessionLayouts)
  | drain (room : BootstrapRoom)
  | notice (room : BootstrapRoom) (error : Option String)
  | send (room : BootstrapRoom) (endpoint : String) (messages : Except String (List Frames))
  | clear (room : BootstrapRoom)
  | readAborted
  | pollInner
  | shutdownInner

/-- An operation of the executor. -/
inductive PdOperation where
  | submit (span : KvCacheTransferSpan) (recurrentState : Option Bytes)
  | poll
  | cancel (room : BootstrapRoom)
  | shutdown

namespace PdBootstrapKvCacheTransferExecutor

open KvInnerExecutor

variable {E N : Type} [KvInnerExecutor E] [ControlSender N]
  (x : PdBootstrapKvCacheTransferExecutor E N)

/-! ### Instructions -/

/-- The messages of a notification, in order. -/
def notices (room : BootstrapRoom) (error : Option String) : List PdInstruction :=
  (match x.pendingTokens.get room with
    | none => []
    | some token => (targets x.bootstrapService room).map fun (endpoint, auxIndex) =>
        .send room endpoint (completionFrames room (if error.isNone then some token else none)
          (x.pendingStates.get room) error auxIndex)) ++
    ((x.bootstrapService.abortTargets room).getD []).map fun endpoint =>
      .send room endpoint (.ok [abortAckFrames room])

/-- Cancel the transfers of a room and notify it. -/
def dismissal (room : BootstrapRoom) (reason : String) : List PdInstruction :=
  [.drain room, .notice room (some reason)]

/-- The critical section in which a room becomes active. -/
def setActive (room : BootstrapRoom) : PdBootstrapKvCacheTransferExecutor E N :=
  { x with
    bootstrapService :=
      { x.bootstrapService with activeRooms := insert room x.bootstrapService.activeRooms } }

/-- Make the layouts of a room known to the inner executor. -/
def insertLayouts (room : BootstrapRoom) (layouts : SessionLayouts) :
    PdBootstrapKvCacheTransferExecutor E N :=
  { x with
    inner := layouts.foldl (fun inner entry =>
      insertRemoteKvSessionLayout inner room entry.1 entry.2) x.inner }

/-- The executor and what is left to do after an instruction. -/
def execute (fuel : ℕ) (expired : Bool) :
    PdInstruction → List PdInstruction →
      PdBootstrapKvCacheTransferExecutor E N × List PdInstruction
  | .lookup span recurrentState, rest =>
      match x.remoteKvLayoutsForRoom span.bootstrapRoom with
      | .ok layouts => (x, .markActive span recurrentState layouts :: rest)
      | .error _ => (x, if expired then [] else .lookup span recurrentState :: rest)
  | .markActive span recurrentState layouts, rest =>
      if span.bootstrapRoom ∈ x.bootstrapService.abortedRooms then (x, [])
      else (x.setActive span.bootstrapRoom, .hand span recurrentState layouts :: rest)
  | .hand span recurrentState layouts, rest =>
      let x := x.insertLayouts span.bootstrapRoom layouts
      match KvInnerExecutor.submit x.inner span with
      | (inner, .ok ()) =>
          (({ x with inner } : PdBootstrapKvCacheTransferExecutor E N).remember span recurrentState,
            rest)
      | (inner, .error error) =>
          (({ x with inner } : PdBootstrapKvCacheTransferExecutor E N).remember span recurrentState,
            dismissal span.bootstrapRoom error.display)
  | .drain room, rest =>
      match KvInnerExecutor.cancel x.inner fuel room with
      | (inner, none) => ({ x with inner }, .drain room :: rest)
      | (inner, some (.error _)) => ({ x with inner }, [])
      | (inner, some (.ok ())) => ({ x with inner }, rest)
  | .notice room error, rest => (x, x.notices room error ++ .clear room :: rest)
  | .send _ _ (.error _), _ => (x, [])
  | .send _ endpoint (.ok messages), rest =>
      match sendFrames x.network endpoint messages with
      | (network, .error _) => ({ x with network }, [])
      | (network, .ok ()) => ({ x with network }, rest)
  | .clear room, rest => (x.clearRoom room, rest)
  | .readAborted, rest =>
      (x, x.abortedActive.flatMap (dismissal · "decode aborted the transfer") ++ .pollInner :: rest)
  | .pollInner, rest =>
      match KvInnerExecutor.poll x.inner with
      | (inner, .error _) => ({ x with inner }, [])
      | (inner, .ok poll) =>
          ({ x with inner },
            poll.events.map (fun event => .notice event.bootstrapRoom (eventError event.status)) ++
              rest)
  | .shutdownInner, rest =>
      match KvInnerExecutor.shutdown x.inner fuel with
      | (inner, none) => ({ x with inner }, .shutdownInner :: rest)
      | (inner, some _) => ({ x with inner }, [])

end PdBootstrapKvCacheTransferExecutor

open PdBootstrapKvCacheTransferExecutor

namespace PdOperation

variable {E N : Type} (x : PdBootstrapKvCacheTransferExecutor E N)

/-- The instructions of an operation that starts now. -/
def instructions : PdOperation → List PdInstruction
  | submit span recurrentState => [.lookup span recurrentState]
  | poll => [.readAborted]
  | cancel room => dismissal room "prefill request canceled"
  | shutdown => x.pendingTokens.keys.flatMap (dismissal · "prefill request canceled") ++
      [.shutdownInner]

end PdOperation

end SglangRs
