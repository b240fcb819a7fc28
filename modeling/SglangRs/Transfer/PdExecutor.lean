import Mathlib.Data.Finset.Sort
import SglangRs.Transfer.Accounting
import SglangRs.Transfer.BootstrapState

/-!
# The executor of a prefill worker

`PdBootstrapKvCacheTransferExecutor` wraps the transfer executor of a prefill worker
(`sglang-srt/src/transfer/pd_bootstrap.rs`, lines 57–308). A submission looks up what the decode
workers have announced for the room, refuses a room that was aborted, marks the room as active and
hands the span to the inner executor. When a transfer ends, or is cancelled, the decode workers of
the room and those who have aborted it are told over control sockets, and the room is forgotten. A
poll first drains the active rooms that were aborted, then polls the inner executor and notifies the
rooms of all events that it was handed. Every failure ends the operation there.

The inner executor is a state machine `E` with the operations that are used of it, and the sockets
are a state machine `N` that answers as it likes. The loop that waits for the announcements of the
decode workers is represented by its last look at the state of the service. The recurrent state that
goes with a span is an argument of the submission. An operation that waits without end has result
`none`.

## Main definitions

* `KvInnerExecutor`, `ControlSender`: the inner executor and the sockets.
* `PdBootstrapKvCacheTransferExecutor` with `notifyRoom`, `submit`, `poll`, `cancel`, `shutdown`.

## Main results

* `PdBootstrapKvCacheTransferExecutor.notifyRoom_cases`,
  `PdBootstrapKvCacheTransferExecutor.dismiss_cases`: a room is forgotten if and only if everyone
  could be notified.
-/

namespace SglangRs

/-- The operations of the inner executor. -/
class KvInnerExecutor (E : Type) where
  insertRemoteKvSessionLayout : E → BootstrapRoom → String → KvRemoteLayout → E
  submit : E → KvCacheTransferSpan → E × Except KvCacheTransferError Unit
  poll : E → E × Except KvCacheTransferError KvTransferPoll
  cancel : E → ℕ → BootstrapRoom → E × Option (Except KvCacheTransferError Unit)
  shutdown : E → ℕ → E × Option (Except KvCacheTransferError Unit)

/-- The sockets on which control messages are sent to an endpoint. -/
class ControlSender (N : Type) where
  sendFrames : N → String → List Frames → N × Except String Unit

export ControlSender (sendFrames)

instance {S R L : Type} [Sha256] [KvTransferTargetResolver R] [KvTransferSubmitter S]
    [KvTransferStatusReader S] [KvBatchReleaser S] [KvMemoryRegistrationLease L] :
    KvInnerExecutor (KvCacheTransferExecutor S R L) where
  insertRemoteKvSessionLayout x room sessionId layout :=
    x.insertRemoteKvSessionLayout room sessionId layout
  submit x span := x.submit span
  poll x := x.pollSubmittedTransfers
  cancel x fuel room := x.cancelSubmittedTransfersForRoom fuel room
  shutdown x fuel := x.shutdown fuel

def DecodeBootstrapRegistryError.display : DecodeBootstrapRegistryError → String
  | duplicateBootstrapRoom room => "duplicate decode bootstrap room: " ++ toString room
  | missingBootstrapRoom room => "missing decode bootstrap room: " ++ toString room

def KvCacheTransferError.display : KvCacheTransferError → String
  | registry error => "decode bootstrap registry error: " ++ error.display
  | runtime message => "KV cache transfer runtime error: " ++ message

structure PdBootstrapKvCacheTransferExecutor (E N : Type) where
  bootstrapService : PrefillBootstrapState := {}
  inner : E
  network : N
  pendingTokens : SortedMap BootstrapRoom UInt32 := .empty
  pendingStates : SortedMap BootstrapRoom Bytes := .empty

namespace PdBootstrapKvCacheTransferExecutor

variable {E N : Type} [ControlSender N]

/-! ### Notifying a room -/

/-- The endpoints of the decode workers of a room, with their auxiliary indices. -/
def targets (state : PrefillBootstrapState) (room : BootstrapRoom) : List (String × Int32) :=
  match state.transferRooms room with
  | none => []
  | some roomState => roomState.transfers.values.map fun transfer =>
      (tcpEndpoint transfer.endpoint transfer.dstPort, transfer.dstAuxIndex.getD 0)

/-- Send the messages of a completion to every decode worker. -/
def sendCompletions (room : BootstrapRoom) (token : UInt32) (recurrentState : Option Bytes)
    (error : Option String) :
    List (String × Int32) → N → N × Except KvCacheTransferError Unit
  | [], network => (network, .ok ())
  | (endpoint, auxIndex) :: targets, network =>
      match completionFrames room (if error.isNone then some token else none) recurrentState error
        auxIndex with
      | .error message => (network, .error (.runtime message))
      | .ok frames =>
          match sendFrames network endpoint frames with
          | (network, .error message) => (network, .error (.runtime message))
          | (network, .ok ()) => sendCompletions room token recurrentState error targets network

/-- Acknowledge the abort of a room to everyone who asked for it. -/
def sendAborts (room : BootstrapRoom) : List String → N → N × Except KvCacheTransferError Unit
  | [], network => (network, .ok ())
  | endpoint :: endpoints, network =>
      match sendFrames network endpoint [abortAckFrames room] with
      | (network, .error message) => (network, .error (.runtime message))
      | (network, .ok ()) => sendAborts room endpoints network

variable (x : PdBootstrapKvCacheTransferExecutor E N)

/-- Forget a room. -/
def clearRoom (room : BootstrapRoom) : PdBootstrapKvCacheTransferExecutor E N :=
  { x with
    bootstrapService :=
      { x.bootstrapService with
        activeRooms := x.bootstrapService.activeRooms.erase room
        abortTargets := Function.update x.bootstrapService.abortTargets room none
        transferRooms := Function.update x.bootstrapService.transferRooms room none }
    pendingTokens := x.pendingTokens.erase room
    pendingStates := x.pendingStates.erase room }

/-- The sends for a room. Completions are sent only if a token is pending. -/
def sendNotices (room : BootstrapRoom) (error : Option String) :
    N × Except KvCacheTransferError Unit :=
  let completions : N × Except KvCacheTransferError Unit := match x.pendingTokens.get room with
    | none => (x.network, .ok ())
    | some token =>
        sendCompletions room token (x.pendingStates.get room) error
          (targets x.bootstrapService room) x.network
  match completions with
  | (network, .error failure) => (network, .error failure)
  | (network, .ok ()) =>
      sendAborts room ((x.bootstrapService.abortTargets room).getD []) network

/-- Source: `transfer/pd_bootstrap.rs`, lines 236–308. -/
def notifyRoom (room : BootstrapRoom) (error : Option String) :
    PdBootstrapKvCacheTransferExecutor E N × Except KvCacheTransferError Unit :=
  match x.sendNotices room error with
  | (network, .error failure) => ({ x with network }, .error failure)
  | (network, .ok ()) => (({ x with network } : PdBootstrapKvCacheTransferExecutor E N).clearRoom room,
      .ok ())

/-! ### Operations -/

variable [KvInnerExecutor E]

open KvInnerExecutor

/-- Cancel the transfers of a room and notify it. -/
def dismiss (fuel : ℕ) (room : BootstrapRoom) (reason : String) :
    PdBootstrapKvCacheTransferExecutor E N × Option (Except KvCacheTransferError Unit) :=
  match KvInnerExecutor.cancel x.inner fuel room with
  | (inner, none) => ({ x with inner }, none)
  | (inner, some (.error error)) => ({ x with inner }, some (.error error))
  | (inner, some (.ok ())) =>
      match notifyRoom { x with inner } room (some reason) with
      | (x, result) => (x, some result)

/-- Source: `transfer/pd_bootstrap.rs`, lines 219–222. -/
def cancel (fuel : ℕ) (room : BootstrapRoom) :
    PdBootstrapKvCacheTransferExecutor E N × Option (Except KvCacheTransferError Unit) :=
  x.dismiss fuel room "prefill request canceled"

/-- The layouts that a submission finds, once it has stopped waiting for them. -/
def remoteKvLayoutsForRoom (room : BootstrapRoom) :
    Except KvCacheTransferError SessionLayouts :=
  match x.bootstrapService.remoteKvLayoutsForRoom room with
  | .ok layouts => .ok layouts
  | .error error => .error (.runtime error.display)

/-- The state in which a span is handed to the inner executor: the room is active and its layouts
are known there. -/
def admitted (span : KvCacheTransferSpan) (layouts : SessionLayouts) :
    PdBootstrapKvCacheTransferExecutor E N :=
  { x with
    bootstrapService :=
      { x.bootstrapService with
        activeRooms := insert span.bootstrapRoom x.bootstrapService.activeRooms }
    inner := layouts.foldl (fun inner entry =>
      insertRemoteKvSessionLayout inner span.bootstrapRoom entry.1 entry.2) x.inner }

/-- Remember what the completion of a span is to announce. -/
def remember (span : KvCacheTransferSpan) (recurrentState : Option Bytes) :
    PdBootstrapKvCacheTransferExecutor E N :=
  { x with
    pendingTokens := match span.firstToken with
      | none => x.pendingTokens
      | some token => x.pendingTokens.insert span.bootstrapRoom token
    pendingStates := match recurrentState with
      | none => x.pendingStates
      | some state => x.pendingStates.insert span.bootstrapRoom state }

/-- Source: `transfer/pd_bootstrap.rs`, lines 143–179. -/
def submit (fuel : ℕ) (span : KvCacheTransferSpan) (recurrentState : Option Bytes) :
    PdBootstrapKvCacheTransferExecutor E N × Option (Except KvCacheTransferError Unit) :=
  match x.remoteKvLayoutsForRoom span.bootstrapRoom with
  | .error error => (x, some (.error error))
  | .ok layouts =>
      if span.bootstrapRoom ∈ x.bootstrapService.abortedRooms then
        (x, some (.error (.runtime "decode aborted this transfer room before submission")))
      else
        let x := x.admitted span layouts
        match KvInnerExecutor.submit x.inner span with
        | (inner, .ok ()) =>
            (({ x with inner } : PdBootstrapKvCacheTransferExecutor E N).remember span recurrentState,
              some (.ok ()))
        | (inner, .error error) =>
            let x := ({ x with inner } : PdBootstrapKvCacheTransferExecutor E N).remember span
              recurrentState
            match x.dismiss fuel span.bootstrapRoom error.display with
            | (x, some (.ok ())) => (x, some (.error error))
            | (x, result) => (x, result)

/-- The active rooms that were aborted, in order. -/
def abortedActive : List BootstrapRoom :=
  (x.bootstrapService.activeRooms ∩ x.bootstrapService.abortedRooms).sort (· ≤ ·)

/-- The event for a room that was aborted. -/
def canceledEvent (room : BootstrapRoom) : KvTransferCompletionEvent := ⟨room, "", .canceled⟩

/-- Drain the rooms that were aborted; `canceled` are the events so far. -/
def drainAborted (fuel : ℕ) : List BootstrapRoom → List KvTransferCompletionEvent →
    PdBootstrapKvCacheTransferExecutor E N →
      PdBootstrapKvCacheTransferExecutor E N × List KvTransferCompletionEvent ×
        Option (Except KvCacheTransferError Unit)
  | [], canceled, x => (x, canceled, some (.ok ()))
  | room :: rooms, canceled, x =>
      match x.dismiss fuel room "decode aborted the transfer" with
      | (x, some (.ok ())) => drainAborted fuel rooms (canceled ++ [canceledEvent room]) x
      | (x, result) => (x, canceled, result)

/-- The error that the decode workers are told for an event. -/
def eventError : KvTransferEventStatus → Option String
  | .completed => none
  | .failed message => some message
  | .canceled => some "prefill transfer canceled"

/-- Notify the rooms of the events. -/
def notifyEvents : List KvTransferCompletionEvent → PdBootstrapKvCacheTransferExecutor E N →
    PdBootstrapKvCacheTransferExecutor E N × Except KvCacheTransferError Unit
  | [], x => (x, .ok ())
  | event :: events, x =>
      match x.notifyRoom event.bootstrapRoom (eventError event.status) with
      | (x, .error error) => (x, .error error)
      | (x, .ok ()) => notifyEvents events x

/-- The poll of the inner executor and the notices for what it returns. -/
def pollInner (canceled : List KvTransferCompletionEvent) :
    PdBootstrapKvCacheTransferExecutor E N × Except KvCacheTransferError KvTransferPoll :=
  match KvInnerExecutor.poll x.inner with
  | (inner, .error error) => ({ x with inner }, .error error)
  | (inner, .ok poll) =>
      match notifyEvents poll.events { x with inner } with
      | (x, .error error) => (x, .error error)
      | (x, .ok ()) => (x, .ok ⟨poll.events ++ canceled, poll.pendingTransfers⟩)

/-- Source: `transfer/pd_bootstrap.rs`, lines 181–222. -/
def poll (fuel : ℕ) :
    PdBootstrapKvCacheTransferExecutor E N × Option (Except KvCacheTransferError KvTransferPoll) :=
  match drainAborted fuel x.abortedActive [] x with
  | (x, _, none) => (x, none)
  | (x, _, some (.error error)) => (x, some (.error error))
  | (x, canceled, some (.ok ())) =>
      match x.pollInner canceled with
      | (x, result) => (x, some result)

/-- The cancellations of a shutdown. -/
def cancelAll (fuel : ℕ) : List BootstrapRoom → PdBootstrapKvCacheTransferExecutor E N →
    PdBootstrapKvCacheTransferExecutor E N × Option (Except KvCacheTransferError Unit)
  | [], x => (x, some (.ok ()))
  | room :: rooms, x =>
      match x.cancel fuel room with
      | (x, some (.ok ())) => cancelAll fuel rooms x
      | (x, result) => (x, result)

/-- Source: `transfer/pd_bootstrap.rs`, lines 224–229. -/
def shutdown (fuel : ℕ) :
    PdBootstrapKvCacheTransferExecutor E N × Option (Except KvCacheTransferError Unit) :=
  match cancelAll fuel x.pendingTokens.keys x with
  | (x, some (.ok ())) =>
      match KvInnerExecutor.shutdown x.inner fuel with
      | (inner, result) => ({ x with inner }, result)
  | (x, result) => (x, result)

/-! ### What a notification changes -/

omit [ControlSender N] [KvInnerExecutor E] in
theorem mem_abortedActive {room : BootstrapRoom} : room ∈ x.abortedActive ↔
    room ∈ x.bootstrapService.activeRooms ∧ room ∈ x.bootstrapService.abortedRooms := by
  rw [abortedActive, Finset.mem_sort, Finset.mem_inter]

omit [KvInnerExecutor E] in
/-- A room is forgotten if everyone was notified, and otherwise only messages were sent. -/
theorem notifyRoom_cases (room : BootstrapRoom) (error : Option String) :
    (∃ network failure, x.notifyRoom room error = ({ x with network }, .error failure)) ∨
    ∃ network, x.notifyRoom room error =
      (({ x with network } : PdBootstrapKvCacheTransferExecutor E N).clearRoom room, .ok ()) := by
  rw [notifyRoom]
  rcases hsend : x.sendNotices room error with ⟨network, failure | ⟨⟩⟩
  · exact .inl ⟨network, failure, rfl⟩
  · exact .inr ⟨network, rfl⟩

theorem dismiss_cases (fuel : ℕ) (room : BootstrapRoom) (reason : String) :
    (∃ network result, result ≠ some (.ok ()) ∧ x.dismiss fuel room reason =
      ({ x with inner := (KvInnerExecutor.cancel x.inner fuel room).1, network }, result)) ∨
    ∃ network, x.dismiss fuel room reason =
      (({ x with inner := (KvInnerExecutor.cancel x.inner fuel room).1, network } :
        PdBootstrapKvCacheTransferExecutor E N).clearRoom room, some (.ok ())) := by
  rw [dismiss]
  rcases hcancel : KvInnerExecutor.cancel x.inner fuel room with ⟨inner, _ | error | ⟨⟩⟩
  · exact .inl ⟨x.network, none, by simp, rfl⟩
  · exact .inl ⟨x.network, some (.error error), by simp, rfl⟩
  · obtain ⟨network, failure, hnotify⟩ | ⟨network, hnotify⟩ :=
      notifyRoom_cases { x with inner } room (some reason)
    · exact .inl ⟨network, some (.error failure), by simp, by simp [hnotify]⟩
    · exact .inr ⟨network, by simp [hnotify]⟩

end PdBootstrapKvCacheTransferExecutor

end SglangRs
