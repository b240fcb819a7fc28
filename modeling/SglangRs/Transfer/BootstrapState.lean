import Mathlib.Data.String.Basic
import SglangRs.Collections.SortedMap
import SglangRs.Transfer.BootstrapFrames
import SglangRs.Transfer.Registry

/-!
# The state of the bootstrap service

The prefill worker keeps what the decode workers have announced in `PrefillBootstrapState`
(`sglang-srt/src/transfer/pd_bootstrap.rs`, lines 310–440): the registrations of the sessions, the
transfer metadata of every room ordered by session, and the rooms that are active or aborted. A
service receives the messages one after another (lines 1256–1309). A message that starts with
`ABORT` marks its room as aborted; it is acknowledged at once unless the room is active, in which
case the sender is remembered. Every other message is a bootstrap frame. The service returns at the
first message that it cannot read and at the first acknowledgement that it cannot send.

The routes are modelled on their own; the data-parallel ranks that the same state keeps for the HTTP
interface are left out.

## Main definitions

* `PrefillBootstrapState`, `PrefillBootstrapState.ingestBootstrapFrame`,
  `PrefillBootstrapState.remoteKvLayoutsForRoom`.
* `handleMessage`, `serveBootstrap`: one message, and the loop of the service.
* `PrefillBootstrapState.handled`: the effect of a message alone, nothing if it cannot be read.

## Main results

* `serveBootstrap_survives_iff`: the service has handled all messages and goes on exactly when every
  message could be read and every acknowledgement that was due could be sent.
-/

namespace SglangRs

structure PdTransferRoom where
  requiredDstInfoNum : UInt64
  status : KvPoll
  decodePrefixLen : Option UInt64
  transfers : SortedMap String PdTransferInfo

structure PrefillBootstrapState where
  decodeKvArgsTable : String → Option PdKvArgsRegisterInfo := fun _ => none
  decodeKvArgsRegistrationCount : ℕ := 0
  transferRooms : BootstrapRoom → Option PdTransferRoom := fun _ => none
  activeRooms : Finset BootstrapRoom := ∅
  abortedRooms : Finset BootstrapRoom := ∅
  abortTargets : BootstrapRoom → Option (List String) := fun _ => none

inductive PdRemoteKvLayoutError where
  | missingTransferRoom (room : BootstrapRoom)
  | missingKvArgsRegistration (room : BootstrapRoom) (sessionId : String)
deriving DecidableEq, Repr

def PdRemoteKvLayoutError.display : PdRemoteKvLayoutError → String
  | missingTransferRoom room => "missing transfer room: " ++ toString room
  | missingKvArgsRegistration room sessionId =>
      "missing KVArgs registration for room " ++ toString room ++ " session " ++ sessionId

namespace PrefillBootstrapState

variable (state : PrefillBootstrapState)

/-! ### Bootstrap frames -/

/-- Keep a registration. -/
def registerKvArgs (register : PdKvArgsRegisterInfo) : PrefillBootstrapState :=
  { state with
    decodeKvArgsTable := Function.update state.decodeKvArgsTable register.sessionId (some register)
    decodeKvArgsRegistrationCount := state.decodeKvArgsRegistrationCount + 1 }

/-- The state of a room that has not been heard of. -/
def newRoom (requiredDstInfoNum : UInt64) : PdTransferRoom where
  requiredDstInfoNum := requiredDstInfoNum
  status := .bootstrapping
  decodePrefixLen := none
  transfers := .empty

/-- The state of a room with the metadata of one more session. -/
def roomWith (transfer : PdTransferInfo) : PdTransferRoom :=
  let old := (state.transferRooms transfer.room).getD (newRoom transfer.requiredDstInfoNum)
  let transfers := old.transfers.insert transfer.sessionId transfer
  { requiredDstInfoNum := transfer.requiredDstInfoNum
    decodePrefixLen :=
      if old.decodePrefixLen.isNone && transfer.decodePrefixLen.isSome then transfer.decodePrefixLen
      else old.decodePrefixLen
    transfers
    status :=
      if transfers.length = transfer.requiredDstInfoNum.toNat then
        if transfer.room ∈ state.abortedRooms then .failed else .waitingForInput
      else old.status }

/-- Keep the metadata of a transfer. -/
def addTransfer (transfer : PdTransferInfo) : PrefillBootstrapState :=
  { state with
    transferRooms :=
      Function.update state.transferRooms transfer.room (some (state.roomWith transfer)) }

def ingestBootstrapFrame (frame : Frames) : FrameResult PrefillBootstrapState := do
  let room ← asciiField frame 0 "room"
  if room = "WATERMARK" ∨ room = "STAGING_RSP" then return state
  else if room = "None" then
    let register ← PdKvArgsRegisterInfo.fromFrame frame
    return state.registerKvArgs register
  else
    let transfer ← PdTransferInfo.fromFrame frame
    return state.addTransfer transfer

/-- The layouts of the sessions that are not dummies. -/
def sessionLayouts (room : BootstrapRoom) :
    List PdTransferInfo → Except PdRemoteKvLayoutError SessionLayouts
  | [] => .ok []
  | transfer :: transfers =>
      if transfer.isDummy then sessionLayouts room transfers
      else
        match state.decodeKvArgsTable transfer.sessionId with
        | none => .error (.missingKvArgsRegistration room transfer.sessionId)
        | some kvArgs =>
            match sessionLayouts room transfers with
            | .error error => .error error
            | .ok layouts => .ok ((transfer.sessionId,
                { dstKvPtrs := kvArgs.dstKvPtrs.map UInt64.toNat
                  dstKvIndices := transfer.dstKvIndices.map Int32.toInt
                  dstKvItemLen := kvArgs.dstKvItemLen.toNat }) :: layouts)

def remoteKvLayoutsForRoom (room : BootstrapRoom) :
    Except PdRemoteKvLayoutError SessionLayouts :=
  match state.transferRooms room with
  | none => .error (.missingTransferRoom room)
  | some roomState => state.sessionLayouts room roomState.transfers.values

/-! ### Messages of the service -/

/-- The critical section of an `ABORT`: the new state, and whether the room is quiescent. -/
def abort (room : BootstrapRoom) (endpoint : String) : PrefillBootstrapState × Bool :=
  let aborted := { state with abortedRooms := insert room state.abortedRooms }
  if room ∈ state.activeRooms then
    ({ aborted with
        abortTargets := Function.update state.abortTargets room
          (some ((state.abortTargets room).getD [] ++ [endpoint])) }, false)
  else (aborted, true)

end PrefillBootstrapState

/-- The acknowledgement of an abort. -/
def abortAckFrames (room : BootstrapRoom) : Frames :=
  [utf8 "ABORT_ACK", utf8 (toString room), utf8 "0"]

def tcpEndpoint (host : String) (port : UInt16) : String :=
  "tcp://" ++ host ++ ":" ++ toString port

/-- The room and the sender of an `ABORT`. -/
def readAbort (frames : Frames) : FrameResult (BootstrapRoom × String) := do
  let room ← parseBootstrapRoom frames 1 "room"
  let host ← asciiField frames 2 "decode host"
  let port ← parseU16 frames 3 "decode port"
  return (room, tcpEndpoint host port)

/-- What a message does to the state, and the acknowledgement that is to be sent for it. -/
def handleMessage (state : PrefillBootstrapState) (frames : Frames) :
    FrameResult (PrefillBootstrapState × Option (String × Frames)) :=
  if frames.head? = some (utf8 "ABORT") then do
    let (room, endpoint) ← readAbort frames
    let (state, quiescent) := state.abort room endpoint
    return (state, if quiescent then some (endpoint, abortAckFrames room) else none)
  else do
    let state ← state.ingestBootstrapFrame frames
    return (state, none)

inductive PrefillBootstrapServeError where
  | bootstrapFrame (error : PdBootstrapFrameError)
  | zmq (error : String)
deriving DecidableEq, Repr

/-- A message that the service receives, and what comes of an acknowledgement sent for it. -/
structure Received where
  frames : Frames
  sent : Except String Unit

/-- One round of the service. -/
def serveMessage (state : PrefillBootstrapState) (message : Received) :
    PrefillBootstrapState × RustResult PrefillBootstrapServeError Unit :=
  match handleMessage state message.frames with
  | .panicked => (state, .panicked)
  | .err error => (state, .err (.bootstrapFrame error))
  | .ok (state, none) => (state, .ok ())
  | .ok (state, some _) =>
      match message.sent with
      | .ok () => (state, .ok ())
      | .error error => (state, .err (.zmq error))

/-- The loop of the service. It returns at the first failure. -/
def serveBootstrap (state : PrefillBootstrapState) :
    List Received → PrefillBootstrapState × RustResult PrefillBootstrapServeError Unit
  | [] => (state, .ok ())
  | message :: messages =>
      match serveMessage state message with
      | (state, .ok ()) => serveBootstrap state messages
      | (state, failure) => (state, failure)

/-- The effect of a message alone: nothing if it cannot be read, and the same whether or not its
acknowledgement can be sent. -/
def PrefillBootstrapState.handled (state : PrefillBootstrapState) (message : Received) :
    PrefillBootstrapState :=
  match handleMessage state message.frames with
  | .ok (state, _) => state
  | _ => state

/-! ### Reading does not depend on the state -/

/-- The content of a bootstrap frame. -/
inductive BootstrapFrame where
  | ignored
  | kvArgs (register : PdKvArgsRegisterInfo)
  | transfer (transfer : PdTransferInfo)

def readBootstrapFrame (frame : Frames) : FrameResult BootstrapFrame := do
  let room ← asciiField frame 0 "room"
  if room = "WATERMARK" ∨ room = "STAGING_RSP" then return .ignored
  else if room = "None" then
    let register ← PdKvArgsRegisterInfo.fromFrame frame
    return .kvArgs register
  else
    let transfer ← PdTransferInfo.fromFrame frame
    return .transfer transfer

def PrefillBootstrapState.ingestFrame (state : PrefillBootstrapState) :
    BootstrapFrame → PrefillBootstrapState
  | .ignored => state
  | .kvArgs register => state.registerKvArgs register
  | .transfer transfer => state.addTransfer transfer

theorem ingestBootstrapFrame_eq (state : PrefillBootstrapState) (frame : Frames) :
    state.ingestBootstrapFrame frame =
      readBootstrapFrame frame >>= fun content => .ok (state.ingestFrame content) := by
  simp only [PrefillBootstrapState.ingestBootstrapFrame, readBootstrapFrame]
  cases asciiField frame 0 "room" with
  | err error => rfl
  | panicked => rfl
  | ok room =>
      simp only [RustResult.ok_bind]
      split_ifs
      · rfl
      · cases PdKvArgsRegisterInfo.fromFrame frame <;> rfl
      · cases PdTransferInfo.fromFrame frame <;> rfl

/-- A message that can be read, and whose acknowledgement can be sent if it is due: an abort is
acknowledged by the service unless its room is active. -/
def Served (state : PrefillBootstrapState) (message : Received) : Prop :=
  if message.frames.head? = some (utf8 "ABORT") then
    ∃ room endpoint, readAbort message.frames = .ok (room, endpoint) ∧
      (room ∈ state.activeRooms ∨ message.sent = .ok ())
  else ∃ content, readBootstrapFrame message.frames = .ok content

/-! ### Which services survive -/

theorem PrefillBootstrapState.abort_snd (state : PrefillBootstrapState) (room : BootstrapRoom)
    (endpoint : String) : (state.abort room endpoint).2 = decide (room ∉ state.activeRooms) := by
  by_cases h : room ∈ state.activeRooms <;> simp [PrefillBootstrapState.abort, h]

/-- A message starts no room and forgets no abort. -/
theorem PrefillBootstrapState.handled_spec (state : PrefillBootstrapState) (message : Received) :
    (state.handled message).activeRooms = state.activeRooms ∧
      state.abortedRooms ⊆ (state.handled message).abortedRooms := by
  simp only [PrefillBootstrapState.handled, handleMessage]
  split_ifs
  · cases readAbort message.frames with
    | err error => exact ⟨rfl, subset_rfl⟩
    | panicked => exact ⟨rfl, subset_rfl⟩
    | ok abort =>
        obtain ⟨room, endpoint⟩ := abort
        by_cases hactive : room ∈ state.activeRooms
        · simp [PrefillBootstrapState.abort, hactive]
        · simp [PrefillBootstrapState.abort, hactive]
  · rw [ingestBootstrapFrame_eq]
    cases readBootstrapFrame message.frames with
    | err error => exact ⟨rfl, subset_rfl⟩
    | panicked => exact ⟨rfl, subset_rfl⟩
    | ok content => cases content <;> exact ⟨rfl, subset_rfl⟩

/-- A round of the service has the effect of the message. -/
theorem serveMessage_fst (state : PrefillBootstrapState) (message : Received) :
    (serveMessage state message).1 = state.handled message := by
  simp only [serveMessage, PrefillBootstrapState.handled]
  cases handleMessage state message.frames with
  | err error => rfl
  | panicked => rfl
  | ok result =>
      obtain ⟨state', _ | ack⟩ := result
      · rfl
      · cases message.sent <;> rfl

/-- The service goes on after a message that is served, and after no other. -/
theorem serveMessage_snd_iff (state : PrefillBootstrapState) (message : Received) :
    (serveMessage state message).2 = .ok () ↔ Served state message := by
  simp only [serveMessage, handleMessage, Served]
  split_ifs with habort
  · cases hread : readAbort message.frames with
    | err error => simp
    | panicked => simp
    | ok abort =>
        obtain ⟨room, endpoint⟩ := abort
        by_cases hactive : room ∈ state.activeRooms
        · simp [PrefillBootstrapState.abort_snd, hactive]
        · cases hsent : message.sent <;> simp [PrefillBootstrapState.abort_snd, hactive]
  · rw [ingestBootstrapFrame_eq]
    cases readBootstrapFrame message.frames <;> simp

theorem serveBootstrap_cons_of_served {state : PrefillBootstrapState} {message : Received}
    (h : Served state message) (messages : List Received) :
    serveBootstrap state (message :: messages) =
      serveBootstrap (state.handled message) messages := by
  have hsnd := (serveMessage_snd_iff state message).2 h
  have hfst := serveMessage_fst state message
  rw [serveBootstrap]
  cases hround : serveMessage state message with
  | mk state' result =>
      rw [hround] at hfst hsnd
      obtain rfl : state' = state.handled message := hfst
      obtain rfl : result = .ok () := hsnd
      rfl

theorem serveBootstrap_cons_of_not_served {state : PrefillBootstrapState} {message : Received}
    (h : ¬ Served state message) (messages : List Received) :
    (serveBootstrap state (message :: messages)).1 = state.handled message ∧
      (serveBootstrap state (message :: messages)).2 ≠ .ok () := by
  have hsnd := mt (serveMessage_snd_iff state message).1 h
  have hfst := serveMessage_fst state message
  rw [serveBootstrap]
  cases hround : serveMessage state message with
  | mk state' result =>
      rw [hround] at hfst hsnd
      cases result with
      | ok _ => exact absurd rfl hsnd
      | err error => exact ⟨hfst, by simp⟩
      | panicked => exact ⟨hfst, by simp⟩

theorem serveBootstrap_append {state : PrefillBootstrapState} {before : List Received}
    (h : Transition.Along PrefillBootstrapState.handled Served state before)
    (after : List Received) :
    serveBootstrap state (before ++ after) =
      serveBootstrap (before.foldl PrefillBootstrapState.handled state) after := by
  induction before generalizing state with
  | nil => rfl
  | cons message before ih =>
      rw [List.cons_append, serveBootstrap_cons_of_served h.1, ih h.2, List.foldl_cons]

/-- **Which services survive.** The service has the state that the messages it can read lead to, and
goes on serving, exactly when every message is served. Its state alone is also right when the
messages after the first one that is not served change nothing.

Source: `sglang-srt/src/transfer/pd_bootstrap.rs`, lines 337–381, 1256–1309. -/
theorem serveBootstrap_survives_iff (state : PrefillBootstrapState) (messages : List Received) :
    (serveBootstrap state messages =
        (messages.foldl PrefillBootstrapState.handled state, .ok ()) ↔
      Transition.Along PrefillBootstrapState.handled Served state messages) ∧
    ((serveBootstrap state messages).1 = messages.foldl PrefillBootstrapState.handled state ↔
      ∀ before message after, messages = before ++ message :: after →
        Transition.Along PrefillBootstrapState.handled Served state before →
        ¬ Served (before.foldl PrefillBootstrapState.handled state) message →
          messages.foldl PrefillBootstrapState.handled state =
            (before ++ [message]).foldl PrefillBootstrapState.handled state) := by
  have hserved : Transition.Along PrefillBootstrapState.handled Served state messages →
      serveBootstrap state messages =
        (messages.foldl PrefillBootstrapState.handled state, .ok ()) := by
    intro h
    have happend := serveBootstrap_append h []
    rwa [List.append_nil] at happend
  have hstopped : ∀ before message after, messages = before ++ message :: after →
      Transition.Along PrefillBootstrapState.handled Served state before →
      ¬ Served (before.foldl PrefillBootstrapState.handled state) message →
        (serveBootstrap state messages).1 =
            (before ++ [message]).foldl PrefillBootstrapState.handled state ∧
          (serveBootstrap state messages).2 ≠ .ok () := by
    rintro before message after rfl hbefore hmessage
    rw [serveBootstrap_append hbefore, List.foldl_append]
    exact serveBootstrap_cons_of_not_served hmessage after
  by_cases hall : Transition.Along PrefillBootstrapState.handled Served state messages
  · refine ⟨iff_of_true (hserved hall) hall, iff_of_true (by rw [hserved hall]) ?_⟩
    rintro before message after rfl - hmessage
    exact absurd ((Transition.along_append ..).1 hall).2.1 hmessage
  · obtain ⟨before, message, after, hsplit, hbefore, hmessage⟩ := Transition.exists_first hall
    obtain ⟨hfst, hsnd⟩ := hstopped before message after hsplit hbefore hmessage
    refine ⟨iff_of_false (fun h => hsnd (by rw [h])) hall, ?_, fun h => ?_⟩
    · intro h before' message' after' hsplit' hbefore' hmessage'
      rw [← h]
      exact (hstopped before' message' after' hsplit' hbefore' hmessage').1
    · rw [hfst, ← h before message after hsplit hbefore hmessage]

/-- A frame that is cut short after the room. -/
def cutFrame : Received := ⟨[utf8 "7"], .ok ()⟩

/-- An abort that can be acknowledged. -/
def sampleAbort : Received :=
  ⟨[utf8 "ABORT", utf8 (toString (5 : BootstrapRoom)), utf8 "10.0.0.1", utf8 (toString (9 : UInt16))],
    .ok ()⟩

theorem handleMessage_cutFrame (state : PrefillBootstrapState) :
    handleMessage state cutFrame.frames = .err (.missingField "transfer metadata" 8 1) := by
  simp [handleMessage, cutFrame, PrefillBootstrapState.ingestBootstrapFrame, asciiField, field,
    PdTransferInfo.fromFrame, requireMinFields]

theorem readAbort_sampleAbort :
    readAbort sampleAbort.frames = .ok (5, tcpEndpoint "10.0.0.1" 9) := by
  simp [readAbort, sampleAbort, parseBootstrapRoom, parseU16, parseField, asciiField, field]

/-- After a frame that is cut short an abort is lost. -/
theorem exists_abort_lost :
    5 ∈ ([cutFrame, sampleAbort].foldl PrefillBootstrapState.handled {}).abortedRooms ∧
    5 ∉ (serveBootstrap {} [cutFrame, sampleAbort]).1.abortedRooms := by
  have hcut := handleMessage_cutFrame {}
  have habort : handleMessage {} sampleAbort.frames =
      .ok ((({} : PrefillBootstrapState).abort 5 (tcpEndpoint "10.0.0.1" 9)).1,
        some (tcpEndpoint "10.0.0.1" 9, abortAckFrames 5)) := by
    have hhead : sampleAbort.frames.head? = some (utf8 "ABORT") := rfl
    rw [handleMessage, if_pos hhead, readAbort_sampleAbort]
    simp [PrefillBootstrapState.abort]
  constructor
  · simp [PrefillBootstrapState.handled, hcut, habort, PrefillBootstrapState.abort]
  · simp [serveBootstrap, serveMessage, hcut]

end SglangRs
