import SglangRs.Transfer.PdExecutor

/-!
# The destinations of a transfer

A prefill worker looks up the layouts of a room in what the decode workers have announced so far
(`sglang-srt/src/transfer/pd_bootstrap.rs`, lines 406–440). The metadata of every session says how
many sessions the room is to have, but the lookup asks only that the sessions heard of so far have
registered their buffers. This file compares the lookup with the history of the frames.

## Main definitions

* `ingestAll`: the state after a sequence of frames.
* `metadataOf`, `latestOf`, `Registered`: what the frames of the sequence say about a room, about a
  session of it, and about the buffers of a session.
* `WaitsForAll`: the lookup succeeds only if all sessions of the room are there and have registered.

## Main results

* `remoteKvLayoutsForRoom_ok_iff`: when the lookup succeeds.
* `waitsForAll_iff`: when it waits for all sessions.
-/

namespace SglangRs

/-! ### Histories of frames -/

/-- The state after a frame, the same if it cannot be read. -/
def PrefillBootstrapState.ingested (state : PrefillBootstrapState) (frame : Frames) :
    PrefillBootstrapState :=
  match state.ingestBootstrapFrame frame with
  | .ok state => state
  | _ => state

/-- The state after a sequence of frames. -/
def ingestAll (frames : List Frames) : PrefillBootstrapState :=
  frames.foldl PrefillBootstrapState.ingested {}

/-- The content of the frames that can be read. -/
def contentsOf (frames : List Frames) : List BootstrapFrame :=
  frames.filterMap fun frame => match readBootstrapFrame frame with
    | .ok content => some content
    | _ => none

/-- The transfer metadata in a frame, if it is about the given room. -/
def BootstrapFrame.metadata? (room : BootstrapRoom) : BootstrapFrame → Option PdTransferInfo
  | .transfer info => if info.room = room then some info else none
  | _ => none

/-- The transfer metadata of a room, in the order of arrival. -/
def metadataOf (frames : List Frames) (room : BootstrapRoom) : List PdTransferInfo :=
  (contentsOf frames).filterMap (BootstrapFrame.metadata? room)

/-- The sessions that have sent metadata for a room. -/
def sessionsOf (frames : List Frames) (room : BootstrapRoom) : Finset String :=
  ((metadataOf frames room).map (·.sessionId)).toFinset

/-- The latest metadata of a session for a room. -/
def latestOf (frames : List Frames) (room : BootstrapRoom) (sessionId : String) :
    Option PdTransferInfo :=
  ((metadataOf frames room).filter (·.sessionId = sessionId)).getLast?

/-- A session has registered its buffers. -/
def Registered (frames : List Frames) (sessionId : String) : Prop :=
  ∃ register, .kvArgs register ∈ contentsOf frames ∧ register.sessionId = sessionId

theorem contentsOf_append (frames : List Frames) (frame : Frames) :
    contentsOf (frames ++ [frame]) = contentsOf frames ++ contentsOf [frame] := by
  simp [contentsOf]

theorem metadataOf_append (frames : List Frames) (frame : Frames) (room : BootstrapRoom) :
    metadataOf (frames ++ [frame]) room = metadataOf frames room ++ metadataOf [frame] room := by
  simp [metadataOf, contentsOf_append]

/-! ### The state and the history -/

/-- The state agrees with the history of the frames. -/
structure Remembers (frames : List Frames) (state : PrefillBootstrapState) : Prop where
  registered : ∀ sessionId, (state.decodeKvArgsTable sessionId).isSome ↔ Registered frames sessionId
  unknown : ∀ room, state.transferRooms room = none → metadataOf frames room = []
  required : ∀ room roomState, state.transferRooms room = some roomState →
    ∃ transfer, (metadataOf frames room).getLast? = some transfer ∧
      roomState.requiredDstInfoNum = transfer.requiredDstInfoNum
  transfers : ∀ room roomState, state.transferRooms room = some roomState →
    ∀ sessionId, roomState.transfers.get sessionId = latestOf frames room sessionId

theorem remembers_nil : Remembers [] {} := by
  refine ⟨?_, ?_, ?_, ?_⟩ <;> simp [Registered, contentsOf, metadataOf]

/-- A frame that says nothing about transfers and buffers. -/
theorem Remembers.of_ignored {frames : List Frames} {state : PrefillBootstrapState}
    (h : Remembers frames state) {frame : Frames}
    (hframe : ∀ content ∈ contentsOf [frame], content = .ignored) :
    Remembers (frames ++ [frame]) state := by
  have hmetadata : ∀ room, metadataOf [frame] room = [] := by
    intro room
    refine List.filterMap_eq_nil_iff.2 fun content hcontent => ?_
    rw [hframe content hcontent]
    rfl
  have hregistered : ∀ sessionId, Registered (frames ++ [frame]) sessionId ↔
      Registered frames sessionId := by
    intro sessionId
    simp only [Registered, contentsOf_append, List.mem_append]
    constructor
    · rintro ⟨register, hmem | hmem, hsession⟩
      · exact ⟨register, hmem, hsession⟩
      · have := hframe _ hmem
        simp at this
    · rintro ⟨register, hmem, hsession⟩
      exact ⟨register, .inl hmem, hsession⟩
  have hsame : ∀ room, metadataOf (frames ++ [frame]) room = metadataOf frames room := by
    intro room
    rw [metadataOf_append, hmetadata, List.append_nil]
  refine ⟨fun sessionId => (h.registered sessionId).trans (hregistered sessionId).symm,
    fun room hroom => (hsame room).trans (h.unknown room hroom), fun room roomState hroom => ?_,
    fun room roomState hroom sessionId => ?_⟩
  · rw [hsame]
    exact h.required room roomState hroom
  · rw [latestOf, hsame]
    exact h.transfers room roomState hroom sessionId

theorem Remembers.of_kvArgs {frames : List Frames} {state : PrefillBootstrapState}
    (h : Remembers frames state) {frame : Frames} {register : PdKvArgsRegisterInfo}
    (hframe : contentsOf [frame] = [.kvArgs register]) :
    Remembers (frames ++ [frame]) (state.registerKvArgs register) := by
  have hsame : ∀ room, metadataOf (frames ++ [frame]) room = metadataOf frames room := by
    intro room
    rw [metadataOf_append]
    simp [metadataOf, hframe, BootstrapFrame.metadata?]
  refine ⟨fun sessionId => ?_, fun room hroom => (hsame room).trans (h.unknown room hroom),
    fun room roomState hroom => ?_, fun room roomState hroom sessionId => ?_⟩
  · simp only [PrefillBootstrapState.registerKvArgs, Registered, contentsOf_append, hframe,
      List.mem_append, List.mem_singleton, BootstrapFrame.kvArgs.injEq]
    by_cases hsession : register.sessionId = sessionId
    · subst hsession
      simp only [Function.update_self, Option.isSome_some, true_iff]
      exact ⟨register, .inr rfl, rfl⟩
    · rw [Function.update_of_ne (Ne.symm hsession), h.registered sessionId]
      constructor
      · rintro ⟨register', hmem, hsession'⟩
        exact ⟨register', .inl hmem, hsession'⟩
      · rintro ⟨register', hmem | rfl, hsession'⟩
        · exact ⟨register', hmem, hsession'⟩
        · exact absurd hsession' hsession
  · rw [hsame]
    exact h.required room roomState hroom
  · rw [latestOf, hsame]
    exact h.transfers room roomState hroom sessionId

theorem Remembers.of_transfer {frames : List Frames} {state : PrefillBootstrapState}
    (h : Remembers frames state) {frame : Frames} {info : PdTransferInfo}
    (hframe : contentsOf [frame] = [.transfer info]) :
    Remembers (frames ++ [frame]) (state.addTransfer info) := by
  have hmetadata : ∀ room, metadataOf (frames ++ [frame]) room =
      metadataOf frames room ++ if info.room = room then [info] else [] := by
    intro room
    rw [metadataOf_append]
    by_cases hroom : info.room = room <;> simp [metadataOf, hframe, BootstrapFrame.metadata?, hroom]
  have hregistered : ∀ sessionId, Registered (frames ++ [frame]) sessionId ↔
      Registered frames sessionId := by
    intro sessionId
    simp [Registered, contentsOf_append, hframe]
  refine ⟨fun sessionId => (h.registered sessionId).trans (hregistered sessionId).symm,
    fun room hroom => ?_, fun room roomState hroom => ?_, fun room roomState hroom sessionId => ?_⟩
  · by_cases heq : info.room = room
    · subst heq
      simp [PrefillBootstrapState.addTransfer] at hroom
    · simp only [PrefillBootstrapState.addTransfer, Function.update_of_ne (Ne.symm heq)] at hroom
      rw [hmetadata, if_neg heq, List.append_nil]
      exact h.unknown room hroom
  · rw [hmetadata]
    by_cases heq : info.room = room
    · subst heq
      simp only [PrefillBootstrapState.addTransfer, Function.update_self, Option.some.injEq] at hroom
      subst hroom
      exact ⟨info, by simp, rfl⟩
    · simp only [PrefillBootstrapState.addTransfer, Function.update_of_ne (Ne.symm heq)] at hroom
      rw [if_neg heq, List.append_nil]
      exact h.required room roomState hroom
  · rw [latestOf, hmetadata]
    by_cases heq : info.room = room
    · subst heq
      simp only [PrefillBootstrapState.addTransfer, Function.update_self, Option.some.injEq] at hroom
      subst hroom
      -- the metadata of the session itself is replaced, that of the others stays
      have hold : ((state.transferRooms info.room).getD
          (PrefillBootstrapState.newRoom info.requiredDstInfoNum)).transfers.get sessionId =
            latestOf frames info.room sessionId := by
        cases hroom : state.transferRooms info.room with
        | none => simp [PrefillBootstrapState.newRoom, latestOf, h.unknown _ hroom]
        | some roomState => exact h.transfers info.room roomState hroom sessionId
      simp only [PrefillBootstrapState.roomWith, SortedMap.get_insert, if_true]
      by_cases hsession : sessionId = info.sessionId
      · subst hsession
        simp
      · rw [if_neg hsession, hold, latestOf, List.filter_append]
        simp [Ne.symm hsession]
    · simp only [PrefillBootstrapState.addTransfer, Function.update_of_ne (Ne.symm heq)] at hroom
      rw [if_neg heq, List.append_nil]
      exact h.transfers room roomState hroom sessionId

theorem remembers_ingestAll (frames : List Frames) : Remembers frames (ingestAll frames) := by
  induction frames using List.reverseRecOn with
  | nil => exact remembers_nil
  | append_singleton frames frame ih =>
      have hrun : ingestAll (frames ++ [frame]) = (ingestAll frames).ingested frame := by
        simp [ingestAll]
      rw [hrun, PrefillBootstrapState.ingested, ingestBootstrapFrame_eq]
      cases hread : readBootstrapFrame frame with
      | err error => exact ih.of_ignored (by simp [contentsOf, hread])
      | panicked => exact ih.of_ignored (by simp [contentsOf, hread])
      | ok content =>
          cases content with
          | ignored => exact ih.of_ignored (by simp [contentsOf, hread])
          | kvArgs register => exact ih.of_kvArgs (by simp [contentsOf, hread])
          | transfer info => exact ih.of_transfer (by simp [contentsOf, hread])

/-! ### The lookup -/

theorem sessionLayouts_ok_iff (state : PrefillBootstrapState) (room : BootstrapRoom)
    (transfers : List PdTransferInfo) :
    (∃ layouts, state.sessionLayouts room transfers = .ok layouts) ↔
      ∀ transfer ∈ transfers, transfer.isDummy = false →
        (state.decodeKvArgsTable transfer.sessionId).isSome := by
  induction transfers with
  | nil => simp [PrefillBootstrapState.sessionLayouts]
  | cons transfer transfers ih =>
      rw [PrefillBootstrapState.sessionLayouts]
      by_cases hdummy : transfer.isDummy = true
      · simp [hdummy, ih]
      · rw [if_neg hdummy]
        cases hargs : state.decodeKvArgsTable transfer.sessionId with
        | none => simp [hargs, hdummy]
        | some kvArgs =>
            simp only [List.mem_cons, forall_eq_or_imp, hargs, Option.isSome_some, implies_true,
              true_and, ← ih]
            cases state.sessionLayouts room transfers <;> simp

theorem sessionId_of_latestOf {frames : List Frames} {room : BootstrapRoom} {sessionId : String}
    {info : PdTransferInfo} (h : latestOf frames room sessionId = some info) :
    info.sessionId = sessionId ∧ info ∈ metadataOf frames room := by
  have hmem := List.mem_filter.1 (List.mem_of_getLast? h)
  exact ⟨by simpa using hmem.2, hmem.1⟩

/-- **When the lookup succeeds.** The lookup succeeds as soon as there is metadata for the room and
every session whose latest metadata is not a dummy has registered its buffers. -/
theorem remoteKvLayoutsForRoom_ok_iff (frames : List Frames) (room : BootstrapRoom) :
    (∃ layouts, (ingestAll frames).remoteKvLayoutsForRoom room = .ok layouts) ↔
      metadataOf frames room ≠ [] ∧ ∀ sessionId info, latestOf frames room sessionId = some info →
        info.isDummy = false → Registered frames sessionId := by
  have h := remembers_ingestAll frames
  rw [PrefillBootstrapState.remoteKvLayoutsForRoom]
  cases hroom : (ingestAll frames).transferRooms room with
  | none => simp [h.unknown room hroom]
  | some roomState =>
      obtain ⟨last, hlast, -⟩ := h.required room roomState hroom
      have hne : metadataOf frames room ≠ [] := by
        rintro hnil
        simp [hnil] at hlast
      simp only [sessionLayouts_ok_iff, hne, ne_eq, not_false_eq_true, true_and]
      constructor
      · intro hall sessionId info hlatest hdummy
        rw [← h.transfers room roomState hroom] at hlatest
        have hmem := (roomState.transfers.mem_entries_iff).2 hlatest
        have hsome := hall info (List.mem_map_of_mem hmem) hdummy
        rw [h.registered, (sessionId_of_latestOf
          ((h.transfers room roomState hroom sessionId).symm.trans hlatest)).1] at hsome
        exact hsome
      · intro hall info hinfo hdummy
        obtain ⟨⟨sessionId, info⟩, hmem, rfl⟩ := List.mem_map.1 hinfo
        have hlatest := (h.transfers room roomState hroom sessionId).symm.trans
          ((roomState.transfers.mem_entries_iff).1 hmem)
        rw [h.registered, (sessionId_of_latestOf hlatest).1]
        exact hall sessionId info hlatest hdummy

/-- All sessions that the latest metadata of the room asks for have sent metadata. -/
def AllArrived (frames : List Frames) (room : BootstrapRoom) : Prop :=
  ∃ info, (metadataOf frames room).getLast? = some info ∧
    info.requiredDstInfoNum.toNat ≤ (sessionsOf frames room).card

/-- Every session whose latest metadata is not a dummy has registered its buffers. -/
def AllRegistered (frames : List Frames) (room : BootstrapRoom) : Prop :=
  ∀ sessionId info, latestOf frames room sessionId = some info → info.isDummy = false →
    Registered frames sessionId

/-- The lookup succeeds only if all sessions of the room are there and have registered. -/
def WaitsForAll (frames : List Frames) (room : BootstrapRoom) : Prop :=
  (∃ layouts, (ingestAll frames).remoteKvLayoutsForRoom room = .ok layouts) →
    AllArrived frames room ∧ AllRegistered frames room

/-- A submission that finds no layouts does not reach the inner executor. -/
theorem inner_submit_of_error {E N : Type} [KvInnerExecutor E] [ControlSender N]
    (x : PdBootstrapKvCacheTransferExecutor E N) (fuel : ℕ) (span : KvCacheTransferSpan)
    (recurrentState : Option Bytes) (h : ¬ ∃ layouts,
      x.bootstrapService.remoteKvLayoutsForRoom span.bootstrapRoom = .ok layouts) :
    (x.submit fuel span recurrentState).1 = x := by
  rw [PdBootstrapKvCacheTransferExecutor.submit,
    PdBootstrapKvCacheTransferExecutor.remoteKvLayoutsForRoom]
  cases hlookup : x.bootstrapService.remoteKvLayoutsForRoom span.bootstrapRoom with
  | error error => rfl
  | ok layouts => exact absurd ⟨layouts, hlookup⟩ h

/-- **When the lookup waits for every destination.** After any sequence of bootstrap frames the
lookup of a room waits for all its sessions exactly when there is no metadata for the room yet, or a
session whose latest metadata is not a dummy has not registered its buffers, or the latest metadata
asks for no more sessions than have sent metadata. When it does, a submission for the room that
changes anything has all its destinations.

Source: `sglang-srt/src/transfer/pd_bootstrap.rs`, lines 143–179, 337–440. -/
theorem waitsForAll_iff (frames : List Frames) (room : BootstrapRoom) :
    (WaitsForAll frames room ↔
      metadataOf frames room = [] ∨
      (∃ sessionId info, latestOf frames room sessionId = some info ∧ info.isDummy = false ∧
        ¬ Registered frames sessionId) ∨
      ∃ info, (metadataOf frames room).getLast? = some info ∧
        info.requiredDstInfoNum.toNat ≤ (sessionsOf frames room).card) ∧
    (WaitsForAll frames room → ∀ (E N : Type) [KvInnerExecutor E] [ControlSender N]
      (x : PdBootstrapKvCacheTransferExecutor E N) (fuel : ℕ) (span : KvCacheTransferSpan)
      (recurrentState : Option Bytes), x.bootstrapService = ingestAll frames →
        span.bootstrapRoom = room → (x.submit fuel span recurrentState).1 ≠ x →
          AllArrived frames room ∧ AllRegistered frames room) := by
  refine ⟨?_, fun h E N _ _ x fuel span recurrentState hservice hroom hne => ?_⟩
  · rw [WaitsForAll, remoteKvLayoutsForRoom_ok_iff]
    constructor
    · intro h
      by_cases hempty : metadataOf frames room = []
      · exact .inl hempty
      by_cases hall : AllRegistered frames room
      · exact .inr (.inr (h ⟨hempty, hall⟩).1)
      · simp only [AllRegistered, not_forall] at hall
        obtain ⟨sessionId, info, hlatest, hdummy, hnot⟩ := hall
        exact .inr (.inl ⟨sessionId, info, hlatest, hdummy, hnot⟩)
    · rintro (hempty | ⟨sessionId, info, hlatest, hdummy, hnot⟩ | harrived) ⟨hne, hall⟩
      · exact absurd hempty hne
      · exact absurd (hall sessionId info hlatest hdummy) hnot
      · exact ⟨harrived, hall⟩
  · refine h ?_
    by_contra hlookup
    rw [← hservice, ← hroom] at hlookup
    exact hne (inner_submit_of_error x fuel span recurrentState hlookup)

/-! ### A room that does not wait -/

theorem readBootstrapFrame_registration (registration : PdDecodeKvArgsRegistration)
    (hptrs : FitsU32 registration.dstStateDataPtrs) (hlens : FitsU32 registration.dstStateItemLens)
    (hdims : FitsU32 registration.dstStateDimPerTensor) :
    readBootstrapFrame registration.toFrame = .ok (.kvArgs registration.registerInfo) := by
  have hread := PdKvArgsRegisterInfo.fromFrame_toFrame registration hptrs hlens hdims
  have hroom : asciiField registration.toFrame 0 "room" = .ok "None" := by
    simp [asciiField, field, PdDecodeKvArgsRegistration.toFrame]
  simp [readBootstrapFrame, hroom, hread]

/-- One of the two sessions that a room asks for. -/
def firstOfTwo : PdDecodeTransferMetadata :=
  { sampleMetadata [] with requiredDstInfoNum := 2 }

/-- The session registers, and sends its metadata. -/
def firstOfTwoFrames : List Frames :=
  [(sampleRegistration "s").toFrame,
    firstOfTwo.frameWith (packI32s [3, 4]) (utf8 (toString (0 : Int32))) (packI32Lists [])]

/-- What is read of the metadata. -/
def firstOfTwoInfo : PdTransferInfo where
  room := 1
  endpoint := "10.0.0.1"
  dstPort := 7000
  sessionId := "s"
  dstKvIndices := [3, 4]
  dstAuxIndex := some 0
  dstStateIndices := []
  requiredDstInfoNum := 2
  isDummy := false
  decodePrefixLen := some 0

theorem contentsOf_firstOfTwoFrames :
    contentsOf firstOfTwoFrames =
      [.kvArgs (sampleRegistration "s").registerInfo, .transfer firstOfTwoInfo] := by
  have hregister := readBootstrapFrame_registration (sampleRegistration "s")
    (by simp [FitsU32, sampleRegistration]) (by simp [FitsU32, sampleRegistration])
    (by simp [FitsU32, sampleRegistration])
  have htransfer : readBootstrapFrame
      (firstOfTwo.frameWith (packI32s [3, 4]) (utf8 (toString (0 : Int32))) (packI32Lists [])) =
        .ok (.transfer firstOfTwoInfo) := by
    rfl
  simp [contentsOf, firstOfTwoFrames, hregister, htransfer]

/-- With one of its two sessions a room has its layouts, and a submission goes ahead. -/
theorem exists_destination_omitted :
    (∃ layouts, (ingestAll firstOfTwoFrames).remoteKvLayoutsForRoom 1 = .ok layouts) ∧
      ¬ WaitsForAll firstOfTwoFrames 1 := by
  have hmetadata : metadataOf firstOfTwoFrames 1 = [firstOfTwoInfo] := by
    rw [metadataOf, contentsOf_firstOfTwoFrames]
    rfl
  have hlookup : ∃ layouts,
      (ingestAll firstOfTwoFrames).remoteKvLayoutsForRoom 1 = .ok layouts := by
    refine (remoteKvLayoutsForRoom_ok_iff firstOfTwoFrames 1).2 ⟨by simp [hmetadata], ?_⟩
    rintro sessionId info hlatest -
    obtain ⟨hsession, hmem⟩ := sessionId_of_latestOf hlatest
    rw [hmetadata, List.mem_singleton] at hmem
    subst hmem
    refine ⟨(sampleRegistration "s").registerInfo, ?_, hsession⟩
    rw [contentsOf_firstOfTwoFrames]
    exact List.mem_cons_self
  refine ⟨hlookup, fun hwaits => ?_⟩
  obtain ⟨info, hlast, hcount⟩ := (hwaits hlookup).1
  rw [hmetadata] at hlast
  obtain rfl : firstOfTwoInfo = info := by simpa using hlast
  rw [sessionsOf, hmetadata] at hcount
  exact absurd hcount (by decide)

end SglangRs
