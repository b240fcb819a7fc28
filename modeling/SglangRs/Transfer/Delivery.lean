import SglangRs.Transfer.Control

/-!
# Delivery of control messages

The messages of a completion may reach the inbox in any order, mixed with messages of other rooms.
A reader is answered as soon as the terminal message and the first token of its room are there
(`sglang-srt/src/transfer/pd_control.rs`, lines 165–202). A recurrent state that comes later is
therefore missed. Messages of other rooms do not touch the state of a room, but a message that is
refused ends the wait of every reader with its error.

## Main definitions

* `rejections`: the errors of the messages that are refused, in order.
* `AnsweredRight`: whenever a reader is answered, it is given the token and the state that were
  sent.

## Main results

* `answeredRight_iff`: a reader is given what was sent unless the recurrent state comes last.
* `room_isolated`: the state of a room does not depend on the messages of the other rooms, nor does
  the answer of a reader while no message is refused.
-/

namespace SglangRs

/-! ### Messages of a completion at a room -/

theorem parse_auxData : (FromStr.parse "AUX_DATA" : Option UInt64) = none := by decide

theorem parse_abortAck : (FromStr.parse "ABORT_ACK" : Option UInt64) = none := by decide

@[simp]
theorem namedRoom_auxFrames (room : BootstrapRoom) (buffer : String) (auxIndex : Int32)
    (data : Bytes) : namedRoom (auxFrames room buffer auxIndex data) = some room := by
  simp [namedRoom, roomId, auxFrames, Except.toOption]

@[simp]
theorem namedRoom_terminalFrames (room : BootstrapRoom) (error : Option String) :
    namedRoom (terminalFrames room error) = some room := by
  have haux := toString_ne parse_auxData room
  have hack := toString_ne parse_abortAck room
  simp [namedRoom, roomId, terminalFrames, Except.toOption, haux, hack]

theorem Room.ingest_auxFrames (received : Room) (room : BootstrapRoom) (buffer : String)
    (auxIndex : Int32) (data : Bytes) :
    received.ingest (auxFrames room buffer auxIndex data) =
      received.ingestAux (auxFrames room buffer auxIndex data) := by
  simp [Room.ingest, auxFrames]

/-- An auxiliary index below zero is refused. -/
theorem Room.ingest_auxFrames_of_neg (received : Room) (room : BootstrapRoom) (buffer : UInt64)
    {auxIndex : Int32} (h : auxIndex.toInt < 0) (data : Bytes) :
    received.ingest (auxFrames room (toString buffer) auxIndex data) =
      .error "invalid PD control field" := by
  have hneg : ¬ 0 ≤ auxIndex.toInt := by omega
  rw [Room.ingest_auxFrames]
  simp [Room.ingestAux, auxFrames, ascii, parse_toString_int32, hneg, bind, Except.bind]

theorem Room.ingest_tokenFrames (received : Room) (room : BootstrapRoom) {token : UInt32}
    (htoken : token.toNat < 2 ^ 31) {auxIndex : Int32} (h : 0 ≤ auxIndex.toInt) :
    received.ingest (tokenFrames room token auxIndex) =
      .ok { received with token := some token } := by
  have hzero : (FromStr.parse "0" : Option UInt64) = some 0 := by decide
  have hlength : (tokenBuffer token).length = 64 := by simp [tokenBuffer]
  have htake : (tokenBuffer token).take 4 = natToLe 4 token.toNat := by simp [tokenBuffer]
  have hsigned : token.toNat < 2147483648 := htoken
  rw [tokenFrames, Room.ingest_auxFrames]
  simp [Room.ingestAux, auxFrames, ascii, parse_toString_int32, h, hzero, hlength, htake, hsigned,
    bind, Except.bind, pure, Except.pure]

theorem Room.ingest_stateFrames (received : Room) (room : BootstrapRoom) {state : Bytes}
    (hstate : state.length < 2 ^ 32) {auxIndex : Int32} (h : 0 ≤ auxIndex.toInt) :
    received.ingest (stateFrames room state auxIndex) =
      .ok { received with recurrentState := some state } := by
  have hone : (FromStr.parse "1" : Option UInt64) = some 1 := by decide
  have hmod : state.length % 4294967296 = state.length := Nat.mod_eq_of_lt hstate
  rw [stateFrames, Room.ingest_auxFrames]
  simp [Room.ingestAux, auxFrames, ascii, parse_toString_int32, h, hone, hmod, bind, Except.bind,
    pure, Except.pure]

theorem Room.ingest_terminalFrames (received : Room) (room : BootstrapRoom) :
    received.ingest (terminalFrames room none) =
      .ok { received with terminal := some (.ok ()) } := by
  have haux := toString_ne parse_auxData room
  have hack := toString_ne parse_abortAck room
  have hrank : (FromStr.parse "0" : Option UInt32) = some 0 := by decide
  have hstatus : (FromStr.parse "4" : Option UInt8) = some 4 := by decide
  simp [Room.ingest, Room.ingestTerminal, terminalFrames, rankZero, ascii, haux, hack, hrank,
    hstatus, bind, Except.bind, pure, Except.pure]

/-- The messages of a completion without an error. -/
theorem completionFrames_ok {room : BootstrapRoom} {token : UInt32} {state : Option Bytes}
    {auxIndex : Int32} {frames : List Frames}
    (h : completionFrames room (some token) state none auxIndex = .ok frames) :
    token.toNat < 2 ^ 31 ∧ (∀ bytes, state = some bytes → bytes.length < 2 ^ 32) ∧
      frames = [tokenFrames room token auxIndex] ++
        (state.map (stateFrames room · auxIndex)).toList ++ [terminalFrames room none] := by
  by_cases htoken : 2147483648 ≤ token.toNat
  · simp [completionFrames, htoken, bind, Except.bind, throw, throwThe, MonadExceptOf.throw] at h
  · refine ⟨by omega, ?_⟩
    cases state with
    | none =>
        simp [completionFrames, htoken, bind, Except.bind, pure, Except.pure] at h
        simp [← h]
    | some bytes =>
        by_cases hbytes : 4294967296 ≤ bytes.length
        · simp [completionFrames, htoken, hbytes, bind, Except.bind, pure, Except.pure, throw,
            throwThe, MonadExceptOf.throw] at h
        · simp [completionFrames, htoken, hbytes, bind, Except.bind, pure, Except.pure] at h
          simp [← h, Nat.not_le.1 hbytes]

/-! ### Messages that are accepted -/

/-- A message that names a room and is accepted there. -/
def WellFormed (frames : Frames) : Prop :=
  ∃ room, namedRoom frames = some room ∧
    ∀ received : Room, ∃ received', received.ingest frames = .ok received'

theorem WellFormed.ingest_ok {frames : Frames} (h : WellFormed frames) (state : Inbox) :
    ∃ state', ingest state frames = .ok state' := by
  obtain ⟨room, hroom, haccept⟩ := h
  cases hid : roomId frames with
  | error error => simp [namedRoom, hid, Except.toOption] at hroom
  | ok named =>
      cases hold : state.rooms named with
      | none => exact ⟨state, by simp [ingest, hid, hold]⟩
      | some received =>
          obtain ⟨received', hnew⟩ := haccept received
          refine ⟨{ state with rooms := Function.update state.rooms named (some received') }, ?_⟩
          simp only [ingest, hid, hold, hnew]

theorem failure_receive_of_wellFormed {frames : Frames} (h : WellFormed frames) (state : Inbox) :
    (receive state frames).failure = state.failure := by
  obtain ⟨state', hstate⟩ := h.ingest_ok state
  obtain ⟨-, -, hfailure, -⟩ := ingest_spec hstate
  simp [receive, hstate, hfailure]

/-- Messages that are accepted record no failure. -/
theorem failure_receiveAll_of_wellFormed {messages : List Frames}
    (h : ∀ frames ∈ messages, WellFormed frames) (state : Inbox) :
    (receiveAll state messages).failure = state.failure :=
  Transition.foldl_invariant (I := fun s : Inbox => s.failure = state.failure)
    (P := fun _ frames => WellFormed frames)
    (fun s _ hframes hs => (failure_receive_of_wellFormed hframes s).trans hs)
    (Transition.along_of_forall_mem (fun frames hmem _ => h frames hmem) state) rfl

theorem failure_isSome_receive {state : Inbox} (h : state.failure.isSome) (frames : Frames) :
    (receive state frames).failure.isSome := by
  cases hingest : ingest state frames with
  | ok state' =>
      obtain ⟨-, -, hfailure, -⟩ := ingest_spec hingest
      simpa [receive, hingest, hfailure] using h
  | error error => simp [receive, hingest]

/-- A failure stays. -/
theorem failure_isSome_receiveAll {state : Inbox} (h : state.failure.isSome)
    (messages : List Frames) : (receiveAll state messages).failure.isSome :=
  Transition.foldl_invariant (I := fun s : Inbox => s.failure.isSome = true)
    (fun _ frames _ hs => failure_isSome_receive hs frames)
    (Transition.along_of_forall (fun _ _ => trivial) state messages) h

/-! ### Completions in any order -/

section Completion

variable (room : BootstrapRoom) (token : UInt32) (state : Option Bytes) (auxIndex : Int32)

/-- The state of the room once some of the messages of its completion have arrived. -/
def arrivedRoom (arrived : List Frames) : Room where
  token := if tokenFrames room token auxIndex ∈ arrived then some token else none
  recurrentState := state.filter fun bytes => stateFrames room bytes auxIndex ∈ arrived
  terminal := if terminalFrames room none ∈ arrived then some (.ok ()) else none

theorem tokenFrames_ne_stateFrames (bytes : Bytes) :
    tokenFrames room token auxIndex ≠ stateFrames room bytes auxIndex := by
  simp [tokenFrames, stateFrames, auxFrames]

theorem tokenFrames_ne_terminalFrames :
    tokenFrames room token auxIndex ≠ terminalFrames room none := by
  simp [tokenFrames, auxFrames, terminalFrames]

theorem stateFrames_ne_terminalFrames (bytes : Bytes) :
    stateFrames room bytes auxIndex ≠ terminalFrames room none := by
  simp [stateFrames, auxFrames, terminalFrames]

variable {room token state auxIndex}

theorem Room.receive_of_ok {received received' : Room} {frames : Frames}
    (h : received.ingest frames = .ok received') :
    Room.receive (some received) frames = some received' := by
  simp [Room.receive, h]

/-- The messages of a completion are accepted unless the auxiliary index is negative. -/
theorem wellFormed_of_mem_completionFrames {frames : List Frames}
    (hframes : completionFrames room (some token) state none auxIndex = .ok frames)
    (haux : 0 ≤ auxIndex.toInt) {message : Frames} (hmem : message ∈ frames) :
    WellFormed message := by
  obtain ⟨htoken, hstate, rfl⟩ := completionFrames_ok hframes
  simp only [List.mem_append, List.mem_singleton, Option.mem_toList,
    Option.map_eq_some_iff] at hmem
  obtain (rfl | ⟨bytes, hbytes, rfl⟩) | rfl := hmem
  · exact ⟨room, namedRoom_auxFrames .., fun received =>
      ⟨_, received.ingest_tokenFrames room htoken haux⟩⟩
  · exact ⟨room, namedRoom_auxFrames ..,
      fun received => ⟨_, received.ingest_stateFrames room (hstate bytes hbytes) haux⟩⟩
  · exact ⟨room, namedRoom_terminalFrames .., fun received => ⟨_, received.ingest_terminalFrames room⟩⟩

/-- One more message of the completion. -/
theorem receive_arrivedRoom {frames : List Frames}
    (hframes : completionFrames room (some token) state none auxIndex = .ok frames)
    (haux : 0 ≤ auxIndex.toInt) {message : Frames} (hmem : message ∈ frames)
    (arrived : List Frames) :
    Room.receive (some (arrivedRoom room token state auxIndex arrived)) message =
      some (arrivedRoom room token state auxIndex (arrived ++ [message])) := by
  obtain ⟨htoken, hstate, rfl⟩ := completionFrames_ok hframes
  have hts := tokenFrames_ne_stateFrames room token auxIndex
  have htt := tokenFrames_ne_terminalFrames room token auxIndex
  have hst := stateFrames_ne_terminalFrames room auxIndex
  simp only [List.mem_append, List.mem_singleton, Option.mem_toList, Option.map_eq_some_iff] at hmem
  obtain (rfl | ⟨bytes, rfl, rfl⟩) | rfl := hmem
  · rw [Room.receive_of_ok (Room.ingest_tokenFrames _ room htoken haux)]
    simp [arrivedRoom, (hts _).symm, htt.symm]
  · rw [Room.receive_of_ok (Room.ingest_stateFrames _ room (hstate bytes rfl) haux)]
    simp [arrivedRoom, hts, (hst _).symm, Option.filter_some]
  · rw [Room.receive_of_ok (Room.ingest_terminalFrames _ room)]
    simp [arrivedRoom, htt, hst]

/-- The state of the room is given by the messages of its completion that have arrived. -/
theorem foldl_receive_arrivedRoom {frames : List Frames}
    (hframes : completionFrames room (some token) state none auxIndex = .ok frames)
    (haux : 0 ≤ auxIndex.toInt) {arrived : List Frames}
    (hsub : ∀ message ∈ arrived, message ∈ frames) :
    arrived.foldl Room.receive (some {}) = some (arrivedRoom room token state auxIndex arrived) := by
  induction arrived using List.reverseRecOn with
  | nil => cases state <;> simp [arrivedRoom]
  | append_singleton arrived message ih =>
      have hmessage := hsub message (by simp)
      rw [List.foldl_append, ih fun m hm => hsub m (by simp [hm]), List.foldl_cons, List.foldl_nil]
      exact receive_arrivedRoom hframes haux hmessage arrived

/-- With a negative auxiliary index the token never arrives. -/
theorem token_foldl_receive_of_neg {frames : List Frames}
    (hframes : completionFrames room (some token) state none auxIndex = .ok frames)
    (haux : auxIndex.toInt < 0) {arrived : List Frames}
    (hsub : ∀ message ∈ arrived, message ∈ frames) :
    ∃ received, arrived.foldl Room.receive (some {}) = some received ∧ received.token = none := by
  obtain ⟨-, -, rfl⟩ := completionFrames_ok hframes
  refine Transition.foldl_invariant
    (I := fun s : Option Room => ∃ received, s = some received ∧ received.token = none)
    (P := fun _ message => message ∈ _) ?_
    (Transition.along_of_forall_mem (fun message hmem _ => hsub message hmem) _) ⟨{}, rfl, rfl⟩
  rintro _ message hmem ⟨received, rfl, hnone⟩
  simp only [List.mem_append, List.mem_singleton, Option.mem_toList, Option.map_eq_some_iff] at hmem
  obtain (rfl | ⟨bytes, rfl, rfl⟩) | rfl := hmem
  · have hrefused := received.ingest_auxFrames_of_neg room 0 haux (tokenBuffer token)
    have hzero : "0" = toString (0 : UInt64) := rfl
    exact ⟨received, by simp [Room.receive, tokenFrames, hzero, hrefused], hnone⟩
  · have hrefused := received.ingest_auxFrames_of_neg room 1 haux bytes
    have hone : "1" = toString (1 : UInt64) := rfl
    exact ⟨received, by simp [Room.receive, stateFrames, hone, hrefused], hnone⟩
  · exact ⟨_, Room.receive_of_ok (received.ingest_terminalFrames room), hnone⟩

end Completion

/-! ### What a reader is given -/

theorem Inbox.answer_eq_ok_iff {inbox : Inbox} {room : BootstrapRoom}
    {result : Option UInt32 × Option Bytes} :
    inbox.answer room false = some (.ok result) ↔ inbox.failure = none ∧
      ∃ received, inbox.rooms room = some received ∧ received.terminal = some (.ok ()) ∧
        received.token.isSome ∧ result = (received.token, received.recurrentState) := by
  cases hfailure : inbox.failure with
  | some error => simp [Inbox.answer, hfailure]
  | none =>
      cases hroom : inbox.rooms room with
      | none => simp [Inbox.answer, hfailure, hroom]
      | some received =>
          obtain ⟨token, state, terminal, ack⟩ := received
          rcases terminal with _ | _ | ⟨⟨⟩⟩
          · simp [Inbox.answer, hfailure, hroom]
          · simp [Inbox.answer, hfailure, hroom]
          · cases token with
            | none => simp [Inbox.answer, hfailure, hroom]
            | some token =>
                simp only [Inbox.answer, hfailure, hroom]
                simp [eq_comm (a := result)]

theorem Inbox.rooms_of_register {inbox inbox' : Inbox} {room : BootstrapRoom}
    (h : inbox.register room = .ok inbox') : inbox'.rooms room = some {} := by
  by_cases hroom : (inbox.rooms room).isSome
  · simp [Inbox.register, hroom] at h
  · simp only [Inbox.register, hroom] at h
    simp [← Except.ok.inj h]

/-- Whenever a reader is answered, it is given the token and the state that were sent. -/
def AnsweredRight (inbox : Inbox) (messages : List Frames) (room : BootstrapRoom) (token : UInt32)
    (state : Option Bytes) : Prop :=
  ∀ arrived, arrived <+: messages → ∀ result,
    (receiveAll inbox arrived).answer room false = some (.ok result) → result = (some token, state)

/-- Of three things of which two have arrived the third is the last. -/
theorem eq_singleton_of_perm_triple {α : Type} {a b c : α} {arrived rest : List α}
    (hnodup : [a, b, c].Nodup) (hperm : (arrived ++ rest).Perm [a, b, c]) (ha : a ∈ arrived)
    (hc : c ∈ arrived) (hb : b ∉ arrived) : rest = [b] := by
  have hlength := hperm.length_eq
  have hsub : [a, c] ⊆ arrived := by simp [ha, hc]
  have htwo : 2 ≤ arrived.length := by
    have hac : [a, c].Nodup := by simp_all
    simpa using (List.subperm_of_subset hac hsub).length_le
  have hmem : b ∈ rest := by
    have hb' : b ∈ arrived ++ rest := hperm.symm.subset (by simp)
    exact (List.mem_append.1 hb').resolve_left hb
  have hone : rest.length = 1 := by
    have hpos := List.length_pos_of_mem hmem
    simp at hlength
    omega
  obtain ⟨x, rfl⟩ := List.length_eq_one_iff.1 hone
  rw [List.mem_singleton.1 hmem]

section Orders

variable {inbox₀ inbox : Inbox} {room : BootstrapRoom} {token : UInt32} {state : Option Bytes}
  {auxIndex : Int32} {frames messages : List Frames}

/-- What a reader is given after some of the messages. -/
theorem answer_arrived_iff (hreg : inbox₀.register room = .ok inbox)
    (hframes : completionFrames room (some token) state none auxIndex = .ok frames)
    (horder : (messages.filter (namedRoom · = some room)).Perm frames)
    (hothers : ∀ message ∈ messages, namedRoom message ≠ some room → WellFormed message)
    (hfailure : inbox.failure = none) (haux : 0 ≤ auxIndex.toInt) (arrived : List Frames)
    (harrived : arrived <+: messages) (result : Option UInt32 × Option Bytes) :
    (receiveAll inbox arrived).answer room false = some (.ok result) ↔
      terminalFrames room none ∈ arrived.filter (namedRoom · = some room) ∧
      tokenFrames room token auxIndex ∈ arrived.filter (namedRoom · = some room) ∧
      result = (some token, state.filter fun bytes =>
        stateFrames room bytes auxIndex ∈ arrived.filter (namedRoom · = some room)) := by
  have hwell : ∀ message ∈ arrived, WellFormed message := by
    intro message hmem
    by_cases hroom : namedRoom message = some room
    · refine wellFormed_of_mem_completionFrames hframes haux (horder.subset ?_)
      exact List.mem_filter.2 ⟨harrived.subset hmem, by simpa using hroom⟩
    · exact hothers message (harrived.subset hmem) hroom
  have hsub : ∀ message ∈ arrived.filter (namedRoom · = some room), message ∈ frames :=
    fun message hmem => horder.subset ((harrived.filter _).subset hmem)
  rw [Inbox.answer_eq_ok_iff, failure_receiveAll_of_wellFormed hwell, rooms_receiveAll,
    Inbox.rooms_of_register hreg, foldl_receive_arrivedRoom hframes haux hsub]
  by_cases hterminal : terminalFrames room none ∈ arrived.filter (namedRoom · = some room)
  · by_cases htoken : tokenFrames room token auxIndex ∈ arrived.filter (namedRoom · = some room)
    · simp [hfailure, arrivedRoom, hterminal, htoken]
    · simp [hfailure, arrivedRoom, hterminal, htoken]
  · simp [hfailure, arrivedRoom, hterminal]

/-- **Completions in any order.** Let the messages of a completion be ingested in any order, between
well-formed messages of other rooms. Then a reader that is answered is always given the token and
the state that were sent if and only if the inbox has failed before, the auxiliary index is
negative, there is no state, or the message with the state is not the last one of the room.

Source: `sglang-srt/src/transfer/pd_control.rs`, lines 165–202, 229–332. -/
theorem answeredRight_iff (hreg : inbox₀.register room = .ok inbox)
    (hframes : completionFrames room (some token) state none auxIndex = .ok frames)
    (horder : (messages.filter (namedRoom · = some room)).Perm frames)
    (hothers : ∀ message ∈ messages, namedRoom message ≠ some room → WellFormed message) :
    AnsweredRight inbox messages room token state ↔
      inbox.failure.isSome ∨ auxIndex.toInt < 0 ∨ state = none ∨
        (messages.filter (namedRoom · = some room)).getLast? ≠
          state.map (stateFrames room · auxIndex) := by
  by_cases hfailure : inbox.failure.isSome
  · refine iff_of_true (fun arrived _ result hanswer => ?_) (.inl hfailure)
    have hfailed := failure_isSome_receiveAll hfailure arrived
    simp [(Inbox.answer_eq_ok_iff.1 hanswer).1] at hfailed
  by_cases haux : auxIndex.toInt < 0
  · refine iff_of_true (fun arrived harrived result hanswer => ?_) (.inr (.inl haux))
    have hsub : ∀ message ∈ arrived.filter (namedRoom · = some room), message ∈ frames :=
      fun message hmem => horder.subset ((harrived.filter _).subset hmem)
    obtain ⟨received, hreceived, hnone⟩ := token_foldl_receive_of_neg hframes haux hsub
    obtain ⟨-, received', hroom, -, hsome, -⟩ := Inbox.answer_eq_ok_iff.1 hanswer
    rw [rooms_receiveAll, Inbox.rooms_of_register hreg, hreceived] at hroom
    rw [← Option.some.inj hroom, hnone] at hsome
    simp at hsome
  have hnone : inbox.failure = none := by simpa using hfailure
  have hanswer := answer_arrived_iff hreg hframes horder hothers hnone (Int.not_lt.1 haux)
  cases state with
  | none =>
      refine iff_of_true (fun arrived harrived result h => ?_) (.inr (.inr (.inl rfl)))
      simpa using ((hanswer arrived harrived result).1 h).2.2
  | some bytes =>
      obtain ⟨-, -, rfl⟩ := completionFrames_ok hframes
      have hnodup : [tokenFrames room token auxIndex, stateFrames room bytes auxIndex,
          terminalFrames room none].Nodup := by
        simp [tokenFrames_ne_stateFrames, tokenFrames_ne_terminalFrames,
          stateFrames_ne_terminalFrames]
      simp only [hfailure, haux, reduceCtorEq, false_or, Option.map_some, Bool.false_eq_true]
      constructor
      · -- a reader that looks just before the state comes is answered without it
        intro hright hlast
        obtain ⟨init, hinit⟩ := List.getLast?_eq_some_iff.1 hlast
        obtain ⟨early, late, rfl, hearly, -⟩ := List.filter_eq_append_iff.1 hinit
        rw [hinit] at horder
        have hperm : init.Perm [tokenFrames room token auxIndex, terminalFrames room none] := by
          refine List.Perm.cons_inv (a := stateFrames room bytes auxIndex) ?_
          exact (List.perm_append_singleton _ _).symm.trans (horder.trans (List.Perm.swap _ _ _))
        have hmissing : stateFrames room bytes auxIndex ∉ init := by
          intro hmem
          have := hperm.subset hmem
          simp [(tokenFrames_ne_stateFrames room token auxIndex bytes).symm,
            stateFrames_ne_terminalFrames] at this
        have hearlyAnswer := (hanswer early (List.prefix_append _ _) (some token, none)).2 (by
          rw [hearly]
          exact ⟨hperm.symm.subset (by simp), hperm.symm.subset (by simp),
            by simp [Option.filter_some, hmissing]⟩)
        have := hright early (List.prefix_append _ _) _ hearlyAnswer
        simp at this
      · intro hlast arrived harrived result h
        obtain ⟨hterminal, htoken, rfl⟩ := (hanswer arrived harrived result).1 h
        obtain ⟨rest, rfl⟩ := harrived
        rw [List.filter_append] at horder hlast
        have hstate : stateFrames room bytes auxIndex ∈
            arrived.filter (namedRoom · = some room) := by
          by_contra hmissing
          rw [eq_singleton_of_perm_triple hnodup horder htoken hterminal hmissing] at hlast
          simp at hlast
        simp only [hstate, decide_true, Option.filter_some, if_true]

end Orders

/-- An inbox in which two rooms are registered. -/
def twoRooms : Inbox where
  rooms := Function.update (Function.update (fun _ => none) 1 (some {})) 2 (some {})

theorem register_twoRooms :
    ({ rooms := Function.update (fun _ => none) 1 (some {}) } : Inbox).register 2 = .ok twoRooms := by
  simp [Inbox.register, twoRooms]

/-- The messages of a completion with a recurrent state. -/
def sampleFrames : List Frames := [tokenFrames 2 7 0, stateFrames 2 [9] 0, terminalFrames 2 none]

/-- The same messages, the state last. -/
def stateLast : List Frames := [tokenFrames 2 7 0, terminalFrames 2 none, stateFrames 2 [9] 0]

theorem completionFrames_sample :
    completionFrames 2 (some 7) (some [9]) none 0 = .ok sampleFrames := by
  simp [completionFrames, sampleFrames, bind, Except.bind, pure, Except.pure]

theorem namedRoom_of_mem_sampleFrames {message : Frames} (h : message ∈ sampleFrames) :
    namedRoom message = some 2 := by
  simp only [sampleFrames, List.mem_cons, List.not_mem_nil, or_false] at h
  obtain rfl | rfl | rfl := h
  · exact namedRoom_auxFrames ..
  · exact namedRoom_auxFrames ..
  · exact namedRoom_terminalFrames ..

theorem filter_of_perm_sampleFrames {messages : List Frames} (h : messages.Perm sampleFrames) :
    messages.filter (namedRoom · = some 2) = messages :=
  List.filter_eq_self.2 fun message hmem => by
    simpa using namedRoom_of_mem_sampleFrames (h.subset hmem)

theorem stateLast_perm : stateLast.Perm sampleFrames := (List.Perm.swap _ _ _).cons _

/-- The reader of a room whose state comes after the terminal message is answered without it. -/
theorem exists_answered_without_state :
    completionFrames 2 (some 7) (some [9]) none 0 = .ok sampleFrames ∧
    (stateLast.filter (namedRoom · = some 2)).Perm sampleFrames ∧
    (receiveAll twoRooms (stateLast.take 2)).answer 2 false = some (.ok (some 7, none)) ∧
    ¬ AnsweredRight twoRooms stateLast 2 7 (some [9]) := by
  have hfilter := filter_of_perm_sampleFrames stateLast_perm
  have hanswer : (receiveAll twoRooms (stateLast.take 2)).answer 2 false =
      some (.ok (some 7, none)) := by
    refine (answer_arrived_iff register_twoRooms completionFrames_sample
      (hfilter.symm ▸ stateLast_perm) ?_ rfl (by decide) _ (List.take_prefix 2 _) _).2 ?_
    · intro message hmem hne
      exact absurd (namedRoom_of_mem_sampleFrames (stateLast_perm.subset hmem)) hne
    · have htoken : namedRoom (tokenFrames 2 7 0) = some 2 := namedRoom_auxFrames ..
      simp [stateLast, htoken, Option.filter_some, (tokenFrames_ne_stateFrames 2 7 0 [9]).symm,
        stateFrames_ne_terminalFrames]
  refine ⟨completionFrames_sample, hfilter.symm ▸ stateLast_perm, hanswer, fun hright => ?_⟩
  have := hright _ (List.take_prefix 2 stateLast) _ hanswer
  simp at this

/-- The reader of that room is given what was sent if the terminal message comes last. -/
theorem answeredRight_sampleFrames : AnsweredRight twoRooms sampleFrames 2 7 (some [9]) := by
  have hfilter := filter_of_perm_sampleFrames (List.Perm.refl _)
  refine (answeredRight_iff register_twoRooms completionFrames_sample
    (hfilter.symm ▸ List.Perm.refl _) ?_).2 (.inr (.inr (.inr ?_)))
  · intro message hmem hne
    exact absurd (namedRoom_of_mem_sampleFrames hmem) hne
  · rw [hfilter]
    simp [sampleFrames, (stateFrames_ne_terminalFrames 2 0 [9]).symm]

/-! ### Isolation of rooms -/

/-- The errors of the messages that are refused, in order. -/
def rejections (inbox : Inbox) (messages : List Frames) : List String :=
  Transition.emitted receive (fun inbox message => match ingest inbox message with
    | .ok _ => []
    | .error error => [error]) inbox messages

/-- The inbox keeps the error of the last message that was refused. -/
theorem failure_receiveAll (inbox : Inbox) (messages : List Frames) :
    (receiveAll inbox messages).failure =
      (rejections inbox messages).getLast?.or inbox.failure := by
  induction messages generalizing inbox with
  | nil => simp [receiveAll, rejections, Transition.emitted]
  | cons message messages ih =>
      have hrun : receiveAll inbox (message :: messages) =
          receiveAll (receive inbox message) messages :=
        rfl
      rw [hrun, ih]
      cases hingest : ingest inbox message with
      | ok inbox' =>
          obtain ⟨-, -, hfailure, -⟩ := ingest_spec hingest
          simp [rejections, Transition.emitted, receive, hingest, hfailure]
      | error error =>
          simp [rejections, Transition.emitted, receive, hingest, List.getLast?_cons]

/-- The answer of a reader depends on the failure and the state of its room. -/
theorem Inbox.answer_congr {inbox inbox' : Inbox} {room : BootstrapRoom}
    (hfailure : inbox.failure = inbox'.failure) (hroom : inbox.rooms room = inbox'.rooms room)
    (cancel : Bool) : inbox.answer room cancel = inbox'.answer room cancel := by
  simp only [Inbox.answer, hfailure, hroom]

/-- **Isolation of rooms.** After two sequences of messages with the same messages of a room, in the
same order, the state of the room is the same. So is the answer of a reader of the room, if the last
messages that were refused, if any, were refused with the same error. A reader is answered with the
error of the last message that was refused, whichever room it names.

Source: `sglang-srt/src/transfer/pd_control.rs`, lines 69–88, 165–202, 222–285. -/
theorem room_isolated (inbox : Inbox) (room : BootstrapRoom) (messages messages' : List Frames)
    (h : messages.filter (namedRoom · = some room) = messages'.filter (namedRoom · = some room)) :
    (receiveAll inbox messages).rooms room = (receiveAll inbox messages').rooms room ∧
    ((rejections inbox messages).getLast? = (rejections inbox messages').getLast? →
      ∀ cancel, (receiveAll inbox messages).answer room cancel =
        (receiveAll inbox messages').answer room cancel) ∧
    ∀ error, (rejections inbox messages).getLast? = some error →
      ∀ cancel, (receiveAll inbox messages).answer room cancel = some (.error error) := by
  have hroom : (receiveAll inbox messages).rooms room = (receiveAll inbox messages').rooms room := by
    rw [rooms_receiveAll, rooms_receiveAll, h]
  refine ⟨hroom, fun hlast cancel => ?_, fun error herror cancel => ?_⟩
  · refine Inbox.answer_congr ?_ hroom cancel
    rw [failure_receiveAll, failure_receiveAll, hlast]
  · have hfailure : (receiveAll inbox messages).failure = some error := by
      rw [failure_receiveAll, herror, Option.some_or]
    simp only [Inbox.answer, hfailure]

/-- A completion message of the other room that is cut short. -/
def shortFrames : Frames := [utf8 (toString (1 : BootstrapRoom))]

theorem namedRoom_shortFrames : namedRoom shortFrames = some 1 := by
  have haux := toString_ne parse_auxData 1
  have hack := toString_ne parse_abortAck 1
  simp [namedRoom, roomId, shortFrames, Except.toOption, haux, hack]

theorem ingest_shortFrames (inbox : Inbox) {received : Room} (h : inbox.rooms 1 = some received) :
    ingest inbox shortFrames = .error "single-rank PD requires rank-zero completion" := by
  have haux := toString_ne parse_auxData 1
  have hack := toString_ne parse_abortAck 1
  have hid : roomId shortFrames = .ok 1 := by
    simp [roomId, shortFrames, haux, hack]
  have hroom : received.ingest shortFrames =
      .error "single-rank PD requires rank-zero completion" := by
    simp [Room.ingest, Room.ingestTerminal, rankZero, shortFrames, haux, hack, bind, Except.bind,
      throw, throwThe, MonadExceptOf.throw]
  simp [ingest, hid, h, hroom]

/-- The messages of a completion without a state. -/
def plainFrames : List Frames := [tokenFrames 2 7 0, terminalFrames 2 none]

theorem filter_plainFrames :
    plainFrames.filter (namedRoom · = some 2) = plainFrames := by
  refine List.filter_eq_self.2 fun message hmem => ?_
  have hsub : message ∈ sampleFrames := by
    simp only [plainFrames, List.mem_cons, List.not_mem_nil, or_false] at hmem
    obtain rfl | rfl := hmem <;> simp [sampleFrames]
  simpa using namedRoom_of_mem_sampleFrames hsub

theorem filter_plainFrames_append_short :
    (plainFrames ++ [shortFrames]).filter (namedRoom · = some 2) = plainFrames := by
  rw [List.filter_append, filter_plainFrames]
  simp [namedRoom_shortFrames]

/-- A message of one room that is cut short ends the wait of the reader of another. -/
theorem exists_wait_ended_by_other_room :
    plainFrames.filter (namedRoom · = some 2) =
      (plainFrames ++ [shortFrames]).filter (namedRoom · = some 2) ∧
    (receiveAll twoRooms plainFrames).answer 2 false = some (.ok (some 7, none)) ∧
    (receiveAll twoRooms (plainFrames ++ [shortFrames])).answer 2 false =
      some (.error "single-rank PD requires rank-zero completion") := by
  refine ⟨by rw [filter_plainFrames, filter_plainFrames_append_short], ?_, ?_⟩
  · have hframes : completionFrames 2 (some 7) none none 0 = .ok plainFrames := by
      simp [completionFrames, plainFrames, bind, Except.bind, pure, Except.pure]
    refine (answer_arrived_iff register_twoRooms hframes (by rw [filter_plainFrames]) ?_ rfl
      (by decide) _ (List.prefix_rfl) _).2 ?_
    · intro message hmem hne
      rw [← filter_plainFrames] at hmem
      simp [hne] at hmem
    · rw [filter_plainFrames]
      simp [plainFrames]
  · have hroom : (receiveAll twoRooms plainFrames).rooms 1 = some {} := by
      rw [rooms_receiveAll]
      simp [plainFrames, tokenFrames, twoRooms]
    have hrun : receiveAll twoRooms (plainFrames ++ [shortFrames]) =
        receive (receiveAll twoRooms plainFrames) shortFrames := by
      simp [receiveAll]
    rw [hrun, receive, ingest_shortFrames _ hroom]
    rfl

/-- The state of that room is the same with and without the message of the other. -/
theorem rooms_receiveAll_shortFrames :
    (receiveAll twoRooms plainFrames).rooms 2 =
      (receiveAll twoRooms (plainFrames ++ [shortFrames])).rooms 2 :=
  (room_isolated twoRooms 2 plainFrames (plainFrames ++ [shortFrames])
    (by rw [filter_plainFrames, filter_plainFrames_append_short])).1

end SglangRs
