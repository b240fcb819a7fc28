import SglangRs.Transfer.Spans
import SglangRs.Transition.Run
import SglangRs.Wire.Text

/-!
# The control messages of a transfer

A prefill worker tells the decode worker over a control socket that the KV cache of a room has
arrived (`sglang-srt/src/transfer/pd_control.rs`). The frames of a completion are built by
`completionFrames` (lines 287–332): one `AUX_DATA` message with the first token, one with the
recurrent state if there is one, and one terminal message. The receiver thread of the decode worker
puts every message it gets into an `Inbox` (lines 69–88, 229–285): `ingest` changes the state of the
room a message names, if that room is registered, and an error of `ingest` is kept in a field that
all rooms share. A reader waits until the state of its room answers it (lines 165–202).

Integers in native byte order are read and written with the least significant byte first. A reader
that is not answered goes on waiting, up to a deadline that is not modelled.

## Main definitions

* `Inbox`, `Inbox.register`, `ingest`, `receive`: the inbox and the loop of the receiver thread.
* `Inbox.answer`: what `wait` returns in a state of the inbox, if it returns.
* `completionFrames`: the messages of a completion.
* `namedRoom`: the room that a message names.

## Main results

* `ingest_spec`: what a message does to the inbox.
* `rooms_receiveAll`: the state of a room depends only on the messages that name it.
-/

namespace SglangRs

/-- A multipart message. -/
abbrev Frames := List Bytes

structure Room where
  token : Option UInt32 := none
  recurrentState : Option Bytes := none
  terminal : Option (Except String Unit) := none
  abortAck : Bool := false

structure Inbox where
  rooms : BootstrapRoom → Option Room := fun _ => none
  failure : Option String := none

/-- A number in the text of a field. -/
def ascii {α : Type} [FromStr α] (frame : Option Bytes) : Except String α :=
  match frame with
  | none => .error "missing PD control field"
  | some bytes =>
      match fromUtf8 bytes with
      | none => .error (utf8ErrorText bytes)
      | some text =>
          match FromStr.parse text with
          | none => .error "invalid PD control field"
          | some value => .ok value

@[simp]
theorem ascii_toString {α : Type} [FromStr α] [ToString α] [LawfulFromStr α] (x : α) :
    ascii (some (utf8 (toString x))) = .ok x := by
  simp [ascii]

/-! ### Ingesting a message -/

/-- Whether the rank of a message is there and zero. -/
def rankZero (frames : Frames) : Except String Bool :=
  if frames.length < 3 then .ok false
  else do
    let rank : UInt32 ← ascii frames[2]?
    return rank = 0

def Room.ingestAck (room : Room) (frames : Frames) : Except String Room := do
  if !(← rankZero frames) then
    throw "single-rank PD requires rank-zero drain acknowledgement"
  return { room with abortAck := true }

def Room.ingestAux (room : Room) (frames : Frames) : Except String Room :=
  match frames with
  | [_, _, bufferField, indexField, lengthField, payload] => do
      let buffer : UInt64 ← ascii (some bufferField)
      let _auxIndex : UInt64 ← ascii (some indexField)
      if lengthField.length ≠ 4 then throw "invalid AUX_DATA length"
      let length := leToNat lengthField.reverse
      if payload.length ≠ length then throw "AUX_DATA payload length mismatch"
      if buffer = 0 then
        if length ≠ 64 then
          throw "first-token auxiliary buffer must contain 16 int32 values"
        let token := UInt32.ofNat (leToNat (payload.take 4))
        -- a token is read as a signed number
        if 2 ^ 31 ≤ token.toNat then throw "negative prefill token"
        return { room with token := some token }
      else if buffer = 1 then
        return { room with recurrentState := some payload }
      else return room
  | _ => .error "invalid AUX_DATA frame count"

def Room.ingestTerminal (room : Room) (frames : Frames) : Except String Room := do
  if !(← rankZero frames) then throw "single-rank PD requires rank-zero completion"
  let status : UInt8 ← ascii frames[1]?
  if status = 4 then return { room with terminal := some (.ok ()) }
  else if status = 0 then
    let error := match frames[3]? with
      | some bytes => fromUtf8Lossy bytes
      | none => "prefill transfer failed"
    return { room with terminal := some (.error error) }
  else throw ("unexpected nonterminal PD control status " ++ toString status)

/-- The room that a message is about. -/
def roomId (frames : Frames) : Except String BootstrapRoom :=
  match frames with
  | [] => .error "empty PD control frame"
  | header :: rest =>
      if header = utf8 "AUX_DATA" ∨ header = utf8 "ABORT_ACK" then ascii rest[0]?
      else ascii (some header)

/-- What a message does to the room it names. -/
def Room.ingest (room : Room) (frames : Frames) : Except String Room :=
  let header := frames.head?
  if header = some (utf8 "ABORT_ACK") then room.ingestAck frames
  else if header = some (utf8 "AUX_DATA") then room.ingestAux frames
  else room.ingestTerminal frames

def ingest (state : Inbox) (frames : Frames) : Except String Inbox :=
  match roomId frames with
  | .error error => .error error
  | .ok room =>
      match state.rooms room with
      | none => .ok state
      | some received =>
          match received.ingest frames with
          | .error error => .error error
          | .ok received =>
              .ok { state with rooms := Function.update state.rooms room (some received) }

namespace Inbox

def register (state : Inbox) (room : BootstrapRoom) : Except String Inbox :=
  if (state.rooms room).isSome then
    .error ("duplicate decode receive room " ++ toString room)
  else .ok { state with rooms := Function.update state.rooms room (some {}) }

def isDrained (state : Inbox) (room : BootstrapRoom) : Bool :=
  match state.rooms room with
  | none => false
  | some received => received.abortAck || received.terminal.isSome

/-- What `wait` returns in a state of the inbox, or `none` if it goes on waiting. -/
def answer (state : Inbox) (room : BootstrapRoom) (cancel : Bool) :
    Option (Except String (Option UInt32 × Option Bytes)) :=
  match state.failure with
  | some error => some (.error error)
  | none =>
      match state.rooms room with
      | none => some (.error ("unregistered decode room " ++ toString room))
      | some received =>
          if cancel && (received.abortAck || received.terminal.isSome) then
            some (.ok (received.token, received.recurrentState))
          else
            match received.terminal with
            | some (.error error) => some (.error error)
            | some (.ok ()) =>
                if received.token.isSome then some (.ok (received.token, received.recurrentState))
                else none
            | none => none

def remove (state : Inbox) (room : BootstrapRoom) : Inbox :=
  { state with rooms := Function.update state.rooms room none }

end Inbox

/-- One round of the receiver thread. -/
def receive (state : Inbox) (frames : Frames) : Inbox :=
  match ingest state frames with
  | .ok state => state
  | .error error => { state with failure := some error }

/-- The receiver thread on a sequence of messages. -/
def receiveAll (state : Inbox) (messages : List Frames) : Inbox := messages.foldl receive state

/-! ### What a message changes -/

/-- The room that a message names, if it names one. -/
def namedRoom (frames : Frames) : Option BootstrapRoom := (roomId frames).toOption

/-- The state of a room after a message that names it. -/
def Room.receive (received : Option Room) (frames : Frames) : Option Room :=
  received.map fun room =>
    match room.ingest frames with
    | .ok room => room
    | .error _ => room

/-- **A message changes the room it names.** A message that is accepted changes nothing but the
state of the room it names. -/
theorem ingest_spec {state state' : Inbox} {frames : Frames}
    (h : ingest state frames = .ok state') :
    ∃ room, namedRoom frames = some room ∧ state'.failure = state.failure ∧
      state'.rooms = Function.update state.rooms room (Room.receive (state.rooms room) frames) := by
  simp only [ingest] at h
  cases hroom : roomId frames with
  | error error => simp [hroom] at h
  | ok room =>
      refine ⟨room, by simp [namedRoom, hroom, Except.toOption], ?_⟩
      cases hold : state.rooms room with
      | none =>
          simp only [hroom, hold, Except.ok.injEq] at h
          subst h
          refine ⟨rfl, ?_⟩
          rw [show Room.receive none frames = none from rfl, ← hold, Function.update_eq_self]
      | some received =>
          cases hnew : received.ingest frames with
          | error error => simp [hroom, hold, hnew] at h
          | ok received' =>
              simp only [hroom, hold, hnew, Except.ok.injEq] at h
              subst h
              simp [Room.receive, hnew]

/-- A message that is refused leaves the room it names alone. -/
theorem receive_of_ingest_error {state : Inbox} {frames : Frames} {room : BootstrapRoom}
    {error : String} (h : ingest state frames = .error error)
    (hroom : namedRoom frames = some room) :
    Room.receive (state.rooms room) frames = state.rooms room := by
  have hid : roomId frames = .ok room := by
    cases hid : roomId frames with
    | error error => simp [namedRoom, hid, Except.toOption] at hroom
    | ok room' =>
        simp only [namedRoom, hid, Except.toOption, Option.some.injEq] at hroom
        rw [hroom]
  cases hold : state.rooms room with
  | none => rfl
  | some received =>
      cases hnew : received.ingest frames with
      | error error => simp [Room.receive, hnew]
      | ok received' => simp [ingest, hid, hold, hnew] at h

theorem rooms_receive (state : Inbox) (frames : Frames) (room : BootstrapRoom) :
    (receive state frames).rooms room =
      if namedRoom frames = some room then Room.receive (state.rooms room) frames
      else state.rooms room := by
  cases h : ingest state frames with
  | ok state' =>
      obtain ⟨named, hnamed, -, hrooms⟩ := ingest_spec h
      simp only [receive, h, hrooms, hnamed, Option.some.injEq]
      by_cases hroom : named = room
      · subst hroom
        simp
      · rw [if_neg hroom, Function.update_of_ne (Ne.symm hroom)]
  | error error =>
      simp only [receive, h]
      by_cases hroom : namedRoom frames = some room
      · rw [if_pos hroom, receive_of_ingest_error h hroom]
      · rw [if_neg hroom]

/-- **The state of a room.** The state of a room after a sequence of messages is given by the
messages that name it. -/
theorem rooms_receiveAll (state : Inbox) (messages : List Frames) (room : BootstrapRoom) :
    (receiveAll state messages).rooms room =
      (messages.filter (namedRoom · = some room)).foldl Room.receive (state.rooms room) := by
  refine Transition.view_foldl (fun state : Inbox => state.rooms room)
    (fun state frames hne => ?_) (fun state frames heq => ?_) state messages
  · rw [rooms_receive, if_neg (by simpa using hne)]
  · rw [rooms_receive, if_pos (by simpa using heq)]

/-! ### The messages of a completion -/

/-- A message that carries auxiliary data of a room. -/
def auxFrames (room : BootstrapRoom) (buffer : String) (auxIndex : Int32) (data : Bytes) : Frames :=
  [utf8 "AUX_DATA", utf8 (toString room), utf8 buffer, utf8 (toString auxIndex),
    (natToLe 4 data.length).reverse, data]

/-- The buffer of sixteen 32-bit numbers of which the first is the token. -/
def tokenBuffer (token : UInt32) : Bytes := natToLe 4 token.toNat ++ List.replicate 60 0

def tokenFrames (room : BootstrapRoom) (token : UInt32) (auxIndex : Int32) : Frames :=
  auxFrames room "0" auxIndex (tokenBuffer token)

def stateFrames (room : BootstrapRoom) (state : Bytes) (auxIndex : Int32) : Frames :=
  auxFrames room "1" auxIndex state

def terminalFrames (room : BootstrapRoom) (error : Option String) : Frames :=
  [utf8 (toString room), utf8 (if error.isSome then "0" else "4"), utf8 "0",
    utf8 (error.getD "")]

def completionFrames (room : BootstrapRoom) (token : Option UInt32) (recurrentState : Option Bytes)
    (error : Option String) (auxIndex : Int32) : Except String (List Frames) := do
  let tokenPart ← match token with
    | none => pure []
    | some token =>
        if 2 ^ 31 ≤ token.toNat then
          throw "prefill token exceeds community int32 auxiliary field"
        else pure [tokenFrames room token auxIndex]
  let statePart ← match recurrentState with
    | none => pure []
    | some state =>
        if 2 ^ 32 ≤ state.length then throw "recurrent state length exceeds u32"
        else pure [stateFrames room state auxIndex]
  return tokenPart ++ statePart ++ [terminalFrames room error]

end SglangRs
