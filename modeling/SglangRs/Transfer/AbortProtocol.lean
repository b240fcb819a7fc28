import Mathlib.Data.List.Nodup
import SglangRs.Transfer.PdSession
import SglangRs.Transfer.PdSteps

/-!
# The abort protocol

A decode worker that gives up a room sends `ABORT`, and frees the memory of the room once it has
received an `ABORT_ACK` or a terminal message of a completion. So none of these may be sent while
the prefill worker can still write into that memory. Messages arrive while the executor is at work,
and the two share the state of the bootstrap service (`sglang-srt/src/transfer/pd_bootstrap.rs`,
lines 143–308, 1283–1305). This file follows all interleavings of messages with the instructions of
the executor.

The acknowledgement that the service itself sends leaves after the critical section of the `ABORT`,
at any later time. The system remembers in addition which rooms have been submitted successfully.

## Main definitions

* `PdSystem`, `PdSystem.step`, `PdSystem.sends`: the executor and the service.
* `KvCacheTransferExecutor.Holds`: the executor has a batch of the room that is not released.
* `PdSystem.Orderly`: the invariant.

## Main results

* `PdSystem.Orderly.step`: every step keeps the invariant.
* `aborts_safe`: what is sent when, and what is not submitted any more.
-/

namespace SglangRs

/-! ### Transfers of a room -/

namespace KvCacheTransferExecutor

variable {S R L : Type}

/-- The executor has a batch of the room that is not released. -/
def Holds (x : KvCacheTransferExecutor S R L) (room : BootstrapRoom) : Prop :=
  room ∈ x.submittedTransfers.map (·.bootstrapRoom)

/-- A room has one batch or one event. -/
structure Settled (x : KvCacheTransferExecutor S R L) : Prop where
  nodup : (x.submittedTransfers.map (·.bootstrapRoom)).Nodup
  disjoint : ∀ event ∈ x.completionEvents, ¬ x.Holds event.bootstrapRoom

/-- Some batches have been released, and some events of theirs have been queued. -/
structure Releases (x y : KvCacheTransferExecutor S R L) : Prop where
  sublist : y.submittedTransfers.Sublist x.submittedTransfers
  event : ∀ event ∈ y.completionEvents, event ∈ x.completionEvents ∨
    x.Holds event.bootstrapRoom ∧ ¬ y.Holds event.bootstrapRoom

variable {x y z : KvCacheTransferExecutor S R L}

theorem Releases.of_eq (htransfers : y.submittedTransfers = x.submittedTransfers)
    (hevents : y.completionEvents = x.completionEvents) : Releases x y :=
  ⟨by rw [htransfers], fun event h => .inl (hevents ▸ h)⟩

theorem Releases.refl (x : KvCacheTransferExecutor S R L) : Releases x x :=
  .of_eq rfl rfl

theorem Releases.of_holds (h : Releases x y) {room : BootstrapRoom} (hroom : y.Holds room) :
    x.Holds room :=
  (h.sublist.map _).subset hroom

theorem Releases.trans (h : Releases x y) (h' : Releases y z) : Releases x z := by
  refine ⟨h'.sublist.trans h.sublist, fun event hevent => ?_⟩
  obtain hold | ⟨hheld, hnot⟩ := h'.event event hevent
  · obtain hold | ⟨hheld, hnot⟩ := h.event event hold
    · exact .inl hold
    · exact .inr ⟨hheld, fun hz => hnot (h'.of_holds hz)⟩
  · exact .inr ⟨h.of_holds hheld, hnot⟩

theorem Releases.settled (h : Releases x y) (hx : x.Settled) : y.Settled := by
  refine ⟨hx.nodup.sublist (h.sublist.map _), fun event hevent hheld => ?_⟩
  obtain hold | ⟨-, hnot⟩ := h.event event hevent
  · exact hx.disjoint event hold (h.of_holds hheld)
  · exact hnot hheld

/-- The batch at a position is the only one of its room. -/
theorem Settled.not_holds_eraseIdx (hx : x.Settled) {index : ℕ} {transfer : KvSubmittedBatch}
    (ht : x.submittedTransfers[index]? = some transfer) :
    transfer.bootstrapRoom ∉ (x.submittedTransfers.eraseIdx index).map (·.bootstrapRoom) := by
  obtain ⟨hlt, rfl⟩ := List.getElem?_eq_some_iff.1 ht
  have hperm := (List.getElem_cons_eraseIdx_perm hlt).map KvSubmittedBatch.bootstrapRoom
  exact (List.nodup_cons.1 (hperm.nodup_iff.2 hx.nodup)).1

section Poll

variable [KvTransferStatusReader S] [KvBatchReleaser S]

omit [KvTransferStatusReader S] in
theorem releases_settleAt (hx : x.Settled) {index : ℕ} {transfer : KvSubmittedBatch}
    (ht : x.submittedTransfers[index]? = some transfer) (status : KvTransferEventStatus) :
    Releases x (x.settleAt index transfer status).1 := by
  rw [settleAt]
  rcases freeBatch x.submitter transfer.batchId with ⟨submitter, error | ⟨⟩⟩
  · exact .of_eq rfl rfl
  · refine ⟨List.eraseIdx_sublist _ _, fun event hevent => ?_⟩
    obtain hold | hnew := List.mem_append.1 hevent
    · exact .inl hold
    · obtain rfl := List.mem_singleton.1 hnew
      exact .inr ⟨List.mem_map_of_mem (List.mem_of_getElem? ht), hx.not_holds_eraseIdx ht⟩

theorem releases_pollFrom (hx : x.Settled) (n index : ℕ) :
    Releases x (pollFrom n index x).1 := by
  induction n generalizing index x with
  | zero => exact .refl x
  | succ n ih =>
      have hsame : ∀ s, Releases x { x with submitter := s } := fun s => .of_eq rfl rfl
      rw [pollFrom]
      split
      · exact .refl x
      · next transfer ht =>
          have hsettle : ∀ s status y result,
              settleAt { x with submitter := s } index transfer status = (y, result) →
                Releases x y := by
            intro s status y result hresult
            have h := (hsame s).trans (releases_settleAt ((hsame s).settled hx) ht status)
            rwa [hresult] at h
          split
          · exact hsame _
          · exact (hsame _).trans (ih ((hsame _).settled hx) (index + 1))
          all_goals
            split
            · next hresult => exact hsettle _ _ _ _ hresult
            · next hresult =>
                have h := hsettle _ _ _ _ hresult
                exact h.trans (ih (h.settled hx) index)

/-- The rooms of the events that a poll returns have no batches any more. -/
theorem releases_poll (hx : x.Settled) :
    Releases x x.pollSubmittedTransfers.1 ∧ ∀ poll, x.pollSubmittedTransfers.2 = .ok poll →
      ∀ event ∈ poll.events, ¬ x.pollSubmittedTransfers.1.Holds event.bootstrapRoom := by
  have hfrom := releases_pollFrom hx x.submittedTransfers.length 0
  rw [pollSubmittedTransfers]
  split
  · next hresult =>
      rw [hresult] at hfrom
      exact ⟨hfrom, fun poll hpoll => by simp at hpoll⟩
  · next y hresult =>
      rw [hresult] at hfrom
      refine ⟨⟨hfrom.sublist, fun event hevent => by simp at hevent⟩, ?_⟩
      rintro poll hpoll event hevent
      obtain rfl := Except.ok.inj hpoll
      exact (hfrom.settled hx).disjoint event hevent

theorem releases_drainRoom (hx : x.Settled) (fuel : ℕ) (room : BootstrapRoom) (n : ℕ) :
    Releases x (drainRoom fuel room n x).1 := by
  induction n generalizing x with
  | zero => exact .refl x
  | succ n ih =>
      rw [drainRoom]
      split
      · exact .refl x
      · next index _ =>
          split
          · exact .refl x
          · split
            · exact .of_eq rfl rfl
            · exact .of_eq rfl rfl
            · split
              · exact .of_eq rfl rfl
              · have hremove : ∀ s, Releases x
                    (({ x with submitter := s } : KvCacheTransferExecutor S R L).removeAt index) :=
                  fun s => ⟨List.eraseIdx_sublist _ _, fun _ h => .inl h⟩
                exact (hremove _).trans (ih ((hremove _).settled hx))

/-- A drain that succeeds has released all batches of the room. -/
theorem not_holds_drainRoom (x : KvCacheTransferExecutor S R L) {fuel : ℕ} {room : BootstrapRoom}
    {n : ℕ} (hn : x.submittedTransfers.length ≤ n)
    (h : drainRoom fuel room n x = (y, some (.ok ()))) :
    ¬ y.Holds room := by
  induction n generalizing x with
  | zero =>
      have hnil := List.length_eq_zero_iff.1 (Nat.le_zero.1 hn)
      simp only [drainRoom, Prod.mk.injEq, and_true] at h
      subst h
      simp [Holds, hnil]
  | succ n ih =>
      rw [drainRoom] at h
      split at h
      · next hnone =>
          obtain ⟨rfl, -⟩ := Prod.mk.inj h
          intro hheld
          obtain ⟨transfer, hmem, hroom⟩ := List.mem_map.1 hheld
          have := List.findIdx?_eq_none_iff.1 hnone transfer hmem
          simp [hroom] at this
      · next index hindex =>
          obtain ⟨hlt, -⟩ := List.findIdx?_eq_some_iff_getElem.1 hindex
          rw [List.getElem?_eq_getElem hlt] at h
          simp only at h
          split at h
          · simp at h
          · simp at h
          · split at h
            · simp at h
            · refine ih _ ?_ h
              have := List.length_eraseIdx_of_lt hlt
              show (x.submittedTransfers.eraseIdx index).length ≤ n
              omega

theorem releases_cancel (hx : x.Settled) (fuel : ℕ) (room : BootstrapRoom) :
    Releases x (x.cancelSubmittedTransfersForRoom fuel room).1 := by
  have hdrain := releases_drainRoom hx fuel room x.submittedTransfers.length
  rw [cancelSubmittedTransfersForRoom]
  split
  · next hresult =>
      rw [hresult] at hdrain
      exact ⟨hdrain.sublist, fun event hevent => hdrain.event event (List.mem_filter.1 hevent).1⟩
  · next hresult =>
      rw [hresult] at hdrain
      exact hdrain

theorem not_holds_cancel {fuel : ℕ} {room : BootstrapRoom}
    (h : x.cancelSubmittedTransfersForRoom fuel room = (y, some (.ok ()))) : ¬ y.Holds room := by
  rw [cancelSubmittedTransfersForRoom] at h
  split at h
  · next z hdrain =>
      obtain ⟨rfl, -⟩ := Prod.mk.inj h
      have hnot : ¬ z.Holds room := not_holds_drainRoom x le_rfl hdrain
      exact hnot
  · next hne hdrain =>
      obtain ⟨rfl, rfl⟩ := Prod.mk.inj h
      exact (hne rfl).elim

theorem releases_cancelRooms (hx : x.Settled) (fuel : ℕ) (rooms : List BootstrapRoom) :
    Releases x (cancelRooms fuel rooms x).1 := by
  induction rooms generalizing x with
  | nil => exact .refl x
  | cons room rooms ih =>
      have hcancel := releases_cancel hx fuel room
      rw [cancelRooms]
      split
      · next hresult =>
          rw [hresult] at hcancel
          exact hcancel.trans (ih (hcancel.settled hx))
      · next hresult =>
          rw [hresult] at hcancel
          exact hcancel

theorem releases_shutdown [KvMemoryRegistrationLease L] (hx : x.Settled) (fuel : ℕ) :
    Releases x (x.shutdown fuel).1 := by
  have hcancel := releases_cancelRooms hx fuel (x.submittedTransfers.map (·.bootstrapRoom))
  rw [shutdown]
  split
  · next hresult =>
      rw [hresult] at hcancel
      split
      · exact hcancel
      · split
        · exact ⟨hcancel.sublist, hcancel.event⟩
        · exact ⟨hcancel.sublist, hcancel.event⟩
  · next hresult =>
      rw [hresult] at hcancel
      exact hcancel

end Poll

section Submit

variable [Sha256] [KvTransferTargetResolver R] [KvTransferSubmitter S]

/-- A submission that fails leaves no batch and no event. One that succeeds leaves one of them. -/
theorem submit_cases (x : KvCacheTransferExecutor S R L) (span : KvCacheTransferSpan) :
    ((x.submit span).1.submittedTransfers = x.submittedTransfers ∧
      (x.submit span).1.completionEvents = x.completionEvents) ∨
    ((x.submit span).2 = .ok () ∧ (x.submit span).1.submittedTransfers = x.submittedTransfers ∧
      ∃ event, event.bootstrapRoom = span.bootstrapRoom ∧
        (x.submit span).1.completionEvents = x.completionEvents ++ [event]) ∨
    ((x.submit span).2 = .ok () ∧ (x.submit span).1.completionEvents = x.completionEvents ∧
      ∃ transfer, transfer.bootstrapRoom = span.bootstrapRoom ∧
        (x.submit span).1.submittedTransfers = x.submittedTransfers ++ [transfer]) := by
  rw [submit]
  split
  · exact .inl ⟨rfl, rfl⟩
  · split
    · exact .inl ⟨rfl, rfl⟩
    · exact .inr (.inl ⟨rfl, rfl, _, rfl, rfl⟩)
    · split
      · exact .inl ⟨rfl, rfl⟩
      · exact .inr (.inr ⟨rfl, rfl, _, rfl, rfl⟩)

end Submit

end KvCacheTransferExecutor

/-! ### The executor and the service -/

/-- The executor, what is left to do of its operation, and the acknowledgements that the service has
still to send. -/
structure PdSystem (E N : Type) where
  x : PdBootstrapKvCacheTransferExecutor E N
  todo : List PdInstruction := []
  acks : List (String × Frames) := []
  accepted : Finset BootstrapRoom := ∅

/-- An operation starts, the executor goes on, a message arrives, or the service sends one of its
acknowledgements. -/
inductive PdEvent where
  | start (operation : PdOperation)
  | advance (fuel : ℕ) (expired : Bool)
  | deliver (frames : Frames)
  | acknowledge (index : ℕ)

namespace PdSystem

section Steps

variable {E N : Type} [KvInnerExecutor E] [ControlSender N] (s : PdSystem E N)

/-- The rooms submitted successfully, after an instruction. -/
def acceptedAfter : PdInstruction → Finset BootstrapRoom
  | .hand span _ layouts =>
      match (KvInnerExecutor.submit (s.x.insertLayouts span.bootstrapRoom layouts).inner span).2 with
      | .ok () => insert span.bootstrapRoom s.accepted
      | .error _ => s.accepted
  | _ => s.accepted

/-- An operation starts only when the one before has returned. -/
def step : PdEvent → PdSystem E N
  | .start operation =>
      match s.todo with
      | [] => { s with todo := operation.instructions s.x }
      | _ :: _ => s
  | .advance fuel expired =>
      match s.todo with
      | [] => s
      | instruction :: rest =>
          let (x, todo) := s.x.execute fuel expired instruction rest
          { s with x, todo, accepted := s.acceptedAfter instruction }
  | .deliver frames =>
      match handleMessage s.x.bootstrapService frames with
      | .ok (bootstrapService, ack) =>
          { s with x := { s.x with bootstrapService }, acks := s.acks ++ ack.toList }
      | _ => s
  | .acknowledge index => { s with acks := s.acks.eraseIdx index }

/-- The messages that are sent to decode workers. -/
def sends : PdEvent → List Frames
  | .advance _ _ =>
      match s.todo with
      | .send _ _ (.ok messages) :: _ => messages
      | _ => []
  | .acknowledge index => (s.acks[index]?).toList.map Prod.snd
  | _ => []

/-- A span of the room is handed to the inner executor, and so perhaps to the transport. -/
def Hands (room : BootstrapRoom) : PdEvent → Prop
  | .advance _ _ => ∃ span recurrentState layouts rest,
      s.todo = .hand span recurrentState layouts :: rest ∧ span.bootstrapRoom = room
  | _ => False

/-- A room is not submitted again once it has been submitted successfully. -/
def OncePerRoom : PdEvent → Prop
  | .start (.submit span _) => s.todo = [] → span.bootstrapRoom ∉ s.accepted
  | _ => True

end Steps

end PdSystem

/-- A message upon which a decode worker frees the memory of a room. -/
def LetsGo (room : BootstrapRoom) (message : Frames) : Prop :=
  message = abortAckFrames room ∨ ∃ error, message = terminalFrames room error

theorem abortAckFrames_injective : Function.Injective abortAckFrames := by
  intro room other h
  have htext : toString room = toString other := by simpa [abortAckFrames] using h
  exact toString_injective htext

theorem eq_of_letsGo_abortAck {room other : BootstrapRoom}
    (h : LetsGo room (abortAckFrames other)) :
    room = other := by
  obtain hack | ⟨error, herror⟩ := h
  · exact (abortAckFrames_injective hack).symm
  · simp [abortAckFrames, terminalFrames] at herror

theorem mem_completionFrames {room : BootstrapRoom} {token : Option UInt32}
    {recurrentState : Option Bytes} {error : Option String} {auxIndex : Int32}
    {messages : List Frames}
    (h : completionFrames room token recurrentState error auxIndex = .ok messages)
    {message : Frames} (hmessage : message ∈ messages) :
    (∃ token, message = tokenFrames room token auxIndex) ∨
      (∃ bytes, message = stateFrames room bytes auxIndex) ∨ message = terminalFrames room error := by
  have hparts : messages = (token.map (tokenFrames room · auxIndex)).toList ++
      (recurrentState.map (stateFrames room · auxIndex)).toList ++ [terminalFrames room error] := by
    cases token <;> cases recurrentState <;>
      simp only [completionFrames, bind, Except.bind, pure, Except.pure, throw, throwThe,
        MonadExceptOf.throw] at h <;> (try split_ifs at h) <;> simp_all
  rw [hparts] at hmessage
  obtain hmessage | hmessage := List.mem_append.1 hmessage
  · obtain hmessage | hmessage := List.mem_append.1 hmessage
    · obtain ⟨token, -, rfl⟩ := Option.map_eq_some_iff.1 (Option.mem_toList.1 hmessage)
      exact .inl ⟨token, rfl⟩
    · obtain ⟨bytes, -, rfl⟩ := Option.map_eq_some_iff.1 (Option.mem_toList.1 hmessage)
      exact .inr (.inl ⟨bytes, rfl⟩)
  · exact .inr (.inr (List.mem_singleton.1 hmessage))

/-- The messages of a completion are not acknowledgements, and its terminal message is about its
room. -/
theorem eq_of_letsGo_completion {room other : BootstrapRoom} {token : Option UInt32}
    {recurrentState : Option Bytes} {error : Option String} {auxIndex : Int32}
    {messages : List Frames}
    (h : completionFrames other token recurrentState error auxIndex = .ok messages)
    {message : Frames} (hmessage : message ∈ messages) (hgo : LetsGo room message) :
    other = room ∧ message ≠ abortAckFrames room := by
  obtain ⟨token, rfl⟩ | ⟨bytes, rfl⟩ | rfl := mem_completionFrames h hmessage
  · obtain hack | ⟨error, herror⟩ := hgo
    · simp [tokenFrames, auxFrames, abortAckFrames] at hack
    · simp [tokenFrames, auxFrames, terminalFrames] at herror
  · obtain hack | ⟨error, herror⟩ := hgo
    · simp [stateFrames, auxFrames, abortAckFrames] at hack
    · simp [stateFrames, auxFrames, terminalFrames] at herror
  · refine ⟨?_, by simp [terminalFrames, abortAckFrames]⟩
    obtain hack | ⟨error, herror⟩ := hgo
    · simp [terminalFrames, abortAckFrames] at hack
    · rw [terminalFrames, terminalFrames, List.cons.injEq, utf8_inj] at herror
      exact toString_injective herror.1

/-! ### What is left to do -/

namespace PdInstruction

/-- The room that the instruction tells something about. -/
def tells : PdInstruction → Option BootstrapRoom
  | notice room _ | send room _ _ | clear room => some room
  | _ => none

/-- The room whose transfers are cancelled. -/
def drains : PdInstruction → Option BootstrapRoom
  | drain room => some room
  | _ => none

/-- The room that is being submitted. -/
def submits : PdInstruction → Option BootstrapRoom
  | lookup span _ | markActive span _ _ | hand span _ _ => some span.bootstrapRoom
  | _ => none

/-- The messages are about the room, and an acknowledgement is sent only if the room was aborted. -/
def Addressed (aborted : Finset BootstrapRoom) : PdInstruction → Prop
  | send room _ messages => (messages = .ok [abortAckFrames room] ∧ room ∈ aborted) ∨
      ∃ token recurrentState error auxIndex,
        messages = completionFrames room token recurrentState error auxIndex
  | _ => True

theorem Addressed.mono {instruction : PdInstruction}
    {aborted aborted' : Finset BootstrapRoom} (h : instruction.Addressed aborted)
    (hsub : aborted ⊆ aborted') : instruction.Addressed aborted' := by
  cases instruction with
  | send room endpoint messages => exact h.imp_left fun hack => ⟨hack.1, hsub hack.2⟩
  | _ => trivial

theorem mem_dismissal {room : BootstrapRoom} {reason : String} {instruction : PdInstruction}
    (h : instruction ∈ PdBootstrapKvCacheTransferExecutor.dismissal room reason)
    (aborted : Finset BootstrapRoom) :
    instruction.submits = none ∧ instruction.Addressed aborted := by
  obtain rfl | h := List.mem_cons.1 h
  · exact ⟨rfl, trivial⟩
  · obtain rfl := List.mem_singleton.1 h
    exact ⟨rfl, trivial⟩

theorem mem_dismissals {rooms : List BootstrapRoom} {reason : String} {instruction : PdInstruction}
    (h : instruction ∈
      rooms.flatMap (PdBootstrapKvCacheTransferExecutor.dismissal · reason))
    (aborted : Finset BootstrapRoom) :
    instruction.submits = none ∧ instruction.Addressed aborted := by
  obtain ⟨room, -, h⟩ := List.mem_flatMap.1 h
  exact mem_dismissal h aborted

end PdInstruction

/-- Whenever something is told about a room, its transfers have been cancelled before. -/
def Covered : (BootstrapRoom → Prop) → List PdInstruction → Prop
  | _, [] => True
  | held, instruction :: rest => (∀ room, instruction.tells = some room → ¬ held room) ∧
      Covered (fun room => held room ∧ instruction.drains ≠ some room) rest

section Covered

variable {held held' : BootstrapRoom → Prop} {todo rest : List PdInstruction}

theorem Covered.mono (h : Covered held todo) (hsub : ∀ room, held' room → held room) :
    Covered held' todo := by
  induction todo generalizing held held' with
  | nil => trivial
  | cons instruction todo ih =>
      exact ⟨fun room htells hroom => h.1 room htells (hsub room hroom),
        ih h.2 fun room hroom => ⟨hsub room hroom.1, hroom.2⟩⟩

/-- After instructions about rooms without transfers. -/
theorem Covered.append (h : Covered held rest)
    (htodo : ∀ instruction ∈ todo, ∀ room, instruction.tells = some room → ¬ held room) :
    Covered held (todo ++ rest) := by
  induction todo generalizing held with
  | nil => exact h
  | cons instruction todo ih =>
      refine ⟨htodo instruction List.mem_cons_self, ih (h.mono fun room hroom => hroom.1) ?_⟩
      intro other hother room htells hroom
      exact htodo other (List.mem_cons_of_mem _ hother) room htells hroom.1

theorem Covered.dismissal (h : Covered held rest) (room : BootstrapRoom) (reason : String) :
    Covered held (PdBootstrapKvCacheTransferExecutor.dismissal room reason ++ rest) := by
  refine ⟨by simp [PdInstruction.tells], ?_, h.mono fun other hother => hother.1.1⟩
  rintro other htells ⟨-, hother⟩
  exact hother (by simpa [PdInstruction.tells, PdInstruction.drains] using htells)

theorem Covered.dismissals (h : Covered held rest) (rooms : List BootstrapRoom) (reason : String) :
    Covered held (rooms.flatMap (PdBootstrapKvCacheTransferExecutor.dismissal · reason) ++ rest) := by
  induction rooms with
  | nil => exact h
  | cons room rooms ih =>
      rw [List.flatMap_cons, List.append_assoc]
      exact ih.dismissal room reason

end Covered

/-- What a message to the service changes that the executor looks at, and what is to be sent for it.
-/
theorem handleMessage_spec {state state' : PrefillBootstrapState} {frames : Frames}
    {ack : Option (String × Frames)} (h : handleMessage state frames = .ok (state', ack)) :
    state'.activeRooms = state.activeRooms ∧ state.abortedRooms ⊆ state'.abortedRooms ∧
      (∀ room, state'.abortTargets room ≠ none →
        state.abortTargets room ≠ none ∨ room ∈ state'.abortedRooms) ∧
      ∀ message ∈ ack, ∃ room, message.2 = abortAckFrames room ∧ room ∈ state'.abortedRooms ∧
        room ∉ state.activeRooms := by
  rw [handleMessage] at h
  split_ifs at h with habort
  · cases hread : readAbort frames with
    | err error => simp [hread] at h
    | panicked => simp [hread] at h
    | ok abort =>
        obtain ⟨room, endpoint⟩ := abort
        by_cases hactive : room ∈ state.activeRooms
        · simp only [hread, PrefillBootstrapState.abort, hactive, if_true, RustResult.ok_bind,
            Bool.false_eq_true, if_false, RustResult.pure_eq, RustResult.ok.injEq, Prod.mk.injEq] at h
          obtain ⟨rfl, rfl⟩ := h
          refine ⟨rfl, Finset.subset_insert _ _, fun other hother => ?_, by simp⟩
          by_cases heq : other = room
          · exact .inr (heq ▸ Finset.mem_insert_self _ _)
          · exact .inl (by simpa [Function.update_of_ne heq] using hother)
        · simp only [hread, PrefillBootstrapState.abort, hactive, if_false, RustResult.ok_bind,
            if_true, RustResult.pure_eq, RustResult.ok.injEq, Prod.mk.injEq] at h
          obtain ⟨rfl, rfl⟩ := h
          refine ⟨rfl, Finset.subset_insert _ _, fun other hother => .inl hother, ?_⟩
          intro message hmem
          obtain rfl := Option.some.inj hmem
          exact ⟨room, rfl, Finset.mem_insert_self _ _, hactive⟩
  · rw [ingestBootstrapFrame_eq] at h
    cases hread : readBootstrapFrame frames with
    | err error => simp [hread] at h
    | panicked => simp [hread] at h
    | ok content =>
        simp only [hread, RustResult.ok_bind, RustResult.pure_eq, RustResult.ok.injEq,
          Prod.mk.injEq] at h
        obtain ⟨rfl, rfl⟩ := h
        cases content <;> exact ⟨rfl, subset_rfl, fun _ h => .inl h, by simp⟩

namespace PdSystem

variable {S R L N : Type}

/-! ### The invariant -/

/-- The room was aborted, has no transfers, and is not about to have one. -/
def Fenced (s : PdSystem (KvCacheTransferExecutor S R L) N) (room : BootstrapRoom) : Prop :=
  room ∈ s.x.bootstrapService.abortedRooms ∧ ¬ s.x.inner.Holds room ∧
    ∀ span recurrentState layouts, .hand span recurrentState layouts ∈ s.todo →
      span.bootstrapRoom ≠ room

/-- The abort of the room has been acknowledged, or the service is about to do it. -/
def Acknowledges (told : Finset BootstrapRoom) (s : PdSystem (KvCacheTransferExecutor S R L) N)
    (room : BootstrapRoom) : Prop :=
  room ∈ told ∨ ∃ ack ∈ s.acks, ack.2 = abortAckFrames room

/-- The invariant of the system, the rooms in `told` having been acknowledged. -/
structure Orderly (told : Finset BootstrapRoom) (s : PdSystem (KvCacheTransferExecutor S R L) N) :
    Prop where
  settled : s.x.inner.Settled
  accepted_held : ∀ room, s.x.inner.Holds room → room ∈ s.accepted
  accepted_event : ∀ event ∈ s.x.inner.completionEvents, event.bootstrapRoom ∈ s.accepted
  active_held : ∀ room, s.x.inner.Holds room → room ∈ s.x.bootstrapService.activeRooms
  active_hand : ∀ span recurrentState layouts, .hand span recurrentState layouts ∈ s.todo →
    span.bootstrapRoom ∈ s.x.bootstrapService.activeRooms
  aborted_target : ∀ room, s.x.bootstrapService.abortTargets room ≠ none →
    room ∈ s.x.bootstrapService.abortedRooms
  alone : ∀ instruction ∈ s.todo, ∀ room, instruction.submits = some room →
    s.todo = [instruction] ∧ room ∉ s.accepted
  covered : Covered s.x.inner.Holds s.todo
  addressed : ∀ instruction ∈ s.todo,
    instruction.Addressed s.x.bootstrapService.abortedRooms
  owed : ∀ ack ∈ s.acks, ∃ room, ack.2 = abortAckFrames room
  fenced : ∀ room, Acknowledges told s room → s.Fenced room

variable {told : Finset BootstrapRoom} {s s' : PdSystem (KvCacheTransferExecutor S R L) N}
    {instruction : PdInstruction}
  {rest : List PdInstruction}

/-- A submission is the only thing to do. -/
theorem Orderly.submits_rest (h : Orderly told s) (htodo : s.todo = instruction :: rest) :
    ∀ other ∈ rest, other.submits = none := by
  intro other hother
  cases hsubmits : other.submits with
  | none => rfl
  | some room =>
      have halone := (h.alone other (htodo ▸ List.mem_cons_of_mem _ hother) room hsubmits).1
      rw [htodo] at halone
      obtain ⟨-, rfl⟩ := List.cons.inj halone
      simp at hother

theorem not_mem_of_submits {todo : List PdInstruction}
    (h : ∀ instruction ∈ todo, instruction.submits = none) {span : KvCacheTransferSpan}
    {recurrentState : Option Bytes} {layouts : SessionLayouts} :
    .hand span recurrentState layouts ∉ todo := by
  intro hmem
  have := h _ hmem
  simp [PdInstruction.submits] at this

/-- A step after which nothing is being submitted, that has at most released batches. -/
theorem Orderly.of_releases (h : Orderly told s) (hinner : s.x.inner.Releases s'.x.inner)
    (haborted : s'.x.bootstrapService.abortedRooms = s.x.bootstrapService.abortedRooms)
    (htargets : ∀ room, s'.x.bootstrapService.abortTargets room ≠ none →
      s.x.bootstrapService.abortTargets room ≠ none)
    (hactive : ∀ room, s'.x.inner.Holds room → room ∈ s.x.bootstrapService.activeRooms →
      room ∈ s'.x.bootstrapService.activeRooms)
    (hsubmits : ∀ instruction ∈ s'.todo, instruction.submits = none)
    (hcovered : Covered s'.x.inner.Holds s'.todo)
    (haddressed : ∀ instruction ∈ s'.todo,
      instruction.Addressed s.x.bootstrapService.abortedRooms)
    (haccepted : s'.accepted = s.accepted) (hacks : s'.acks = s.acks) : Orderly told s' where
  settled := hinner.settled h.settled
  accepted_held room hroom := haccepted ▸ h.accepted_held room (hinner.of_holds hroom)
  accepted_event event hevent := by
    rw [haccepted]
    obtain hold | ⟨hheld, -⟩ := hinner.event event hevent
    · exact h.accepted_event event hold
    · exact h.accepted_held _ hheld
  active_held room hroom := hactive room hroom (h.active_held room (hinner.of_holds hroom))
  active_hand span recurrentState layouts hmem := absurd hmem (not_mem_of_submits hsubmits)
  aborted_target room hroom := haborted ▸ h.aborted_target room (htargets room hroom)
  alone instruction hmem room hroom := by
    rw [hsubmits instruction hmem] at hroom
    simp at hroom
  covered := hcovered
  addressed instruction hmem := haborted ▸ haddressed instruction hmem
  owed := hacks ▸ h.owed
  fenced room hack := by
    rw [Acknowledges, hacks] at hack
    obtain ⟨hroom, hheld, -⟩ := h.fenced room hack
    exact ⟨haborted ▸ hroom, fun hnew => hheld (hinner.of_holds hnew),
      fun span recurrentState layouts hmem => absurd hmem (not_mem_of_submits hsubmits)⟩

/-- An operation that fails leaves nothing to do. -/
theorem Orderly.abandoned (h : Orderly told s) {inner : KvCacheTransferExecutor S R L} {network : N}
    (hinner : s.x.inner.Releases inner) :
    Orderly told { s with x := { s.x with inner, network }, todo := [] } :=
  h.of_releases hinner rfl (fun _ h => h) (fun _ _ h => h) (by simp) trivial (by simp) rfl rfl

/-- A submission that succeeds leaves at most one batch or event of a room that had none. -/
theorem Orderly.accept (h : Orderly told s) {room : BootstrapRoom} (hfresh : room ∉ s.accepted)
    (hactive : room ∈ s.x.bootstrapService.activeRooms) (hfence : ¬ s.Fenced room)
    {x' : PdBootstrapKvCacheTransferExecutor (KvCacheTransferExecutor S R L) N}
    (hservice : x'.bootstrapService = s.x.bootstrapService)
    (hcases : (x'.inner.submittedTransfers = s.x.inner.submittedTransfers ∧
        x'.inner.completionEvents = s.x.inner.completionEvents) ∨
      (x'.inner.submittedTransfers = s.x.inner.submittedTransfers ∧
        ∃ event, event.bootstrapRoom = room ∧
          x'.inner.completionEvents = s.x.inner.completionEvents ++ [event]) ∨
      (x'.inner.completionEvents = s.x.inner.completionEvents ∧
        ∃ transfer, transfer.bootstrapRoom = room ∧
          x'.inner.submittedTransfers = s.x.inner.submittedTransfers ++ [transfer])) :
    Orderly told { s with x := x', todo := [], accepted := insert room s.accepted } := by
  have hnew : ¬ s.x.inner.Holds room := fun hheld => hfresh (h.accepted_held room hheld)
  have hholds : ∀ other, x'.inner.Holds other → s.x.inner.Holds other ∨ other = room := by
    intro other hother
    obtain ⟨htransfers, -⟩ | ⟨htransfers, -⟩ | ⟨-, transfer, rfl, htransfers⟩ := hcases
    · exact .inl (by rwa [KvCacheTransferExecutor.Holds, htransfers] at hother)
    · exact .inl (by rwa [KvCacheTransferExecutor.Holds, htransfers] at hother)
    · simpa [KvCacheTransferExecutor.Holds, htransfers] using hother
  have hevents : ∀ event ∈ x'.inner.completionEvents,
      (event ∈ s.x.inner.completionEvents) ∨ event.bootstrapRoom = room ∧
        ∀ other, x'.inner.Holds other → s.x.inner.Holds other := by
    intro event hevent
    obtain ⟨-, heq⟩ | ⟨htransfers, new, hroom, heq⟩ | ⟨heq, -⟩ := hcases
    · exact .inl (heq ▸ hevent)
    · obtain hold | hnew := List.mem_append.1 (heq ▸ hevent)
      · exact .inl hold
      · obtain rfl := List.mem_singleton.1 hnew
        refine .inr ⟨hroom, fun other hother => ?_⟩
        rwa [KvCacheTransferExecutor.Holds, htransfers] at hother
    · exact .inl (heq ▸ hevent)
  refine ⟨⟨?_, ?_⟩, ?_, ?_, ?_, by simp, ?_, by simp, trivial, by simp, h.owed,
    ?_⟩
  · obtain ⟨htransfers, -⟩ | ⟨htransfers, -⟩ | ⟨-, transfer, rfl, htransfers⟩ := hcases
    · exact htransfers ▸ h.settled.nodup
    · exact htransfers ▸ h.settled.nodup
    · rw [htransfers, List.map_append, List.nodup_append_comm]
      exact List.nodup_cons.2 ⟨hnew, h.settled.nodup⟩
  · intro event hevent hheld
    obtain hold | ⟨rfl, hsame⟩ := hevents event hevent
    · obtain hheld | rfl := hholds _ hheld
      · exact h.settled.disjoint event hold hheld
      · exact hfresh (h.accepted_event event hold)
    · exact hnew (hsame _ hheld)
  · intro other hother
    obtain hheld | rfl := hholds other hother
    · exact Finset.mem_insert_of_mem (h.accepted_held other hheld)
    · exact Finset.mem_insert_self _ _
  · intro event hevent
    obtain hold | ⟨rfl, -⟩ := hevents event hevent
    · exact Finset.mem_insert_of_mem (h.accepted_event event hold)
    · exact Finset.mem_insert_self _ _
  · intro other hother
    rw [hservice]
    obtain hheld | rfl := hholds other hother
    · exact h.active_held other hheld
    · exact hactive
  · rw [hservice]
    exact h.aborted_target
  · intro other hack
    have hother := h.fenced other hack
    refine ⟨by rw [hservice]; exact hother.1, fun hheld => ?_, by simp⟩
    obtain hheld | rfl := hholds other hheld
    · exact hother.2.1 hheld
    · exact hfence hother

/-- An instruction that leaves the rest to do, or nothing. -/
theorem Orderly.tail (h : Orderly told s) (htodo : s.todo = instruction :: rest)
    {x' : PdBootstrapKvCacheTransferExecutor (KvCacheTransferExecutor S R L) N}
    (hdrains : instruction.drains = none) (hinner : x'.inner = s.x.inner)
    (haborted : x'.bootstrapService.abortedRooms = s.x.bootstrapService.abortedRooms)
    (htargets : ∀ room, x'.bootstrapService.abortTargets room ≠ none →
      s.x.bootstrapService.abortTargets room ≠ none)
    (hactive : ∀ room, s.x.inner.Holds room → room ∈ s.x.bootstrapService.activeRooms →
      room ∈ x'.bootstrapService.activeRooms) :
    Orderly told { s with x := x', todo := rest } := by
  have hcovered := h.covered
  rw [htodo] at hcovered
  refine h.of_releases (.of_eq (by rw [hinner]) (by rw [hinner])) haborted htargets
    (fun room hroom => hactive room (hinner ▸ hroom)) (h.submits_rest htodo) ?_
    (fun other hother => h.addressed other (htodo ▸ List.mem_cons_of_mem _ hother)) rfl rfl
  refine hcovered.2.mono fun room hroom => ⟨hinner ▸ hroom, ?_⟩
  simp [hdrains]

/-- A message of the executor is sent when the room has no transfers, and if it acknowledges an
abort the room gets no transfer any more. -/
theorem Orderly.sends_advance (h : Orderly told s) {room : BootstrapRoom} {endpoint : String}
    {messages : List Frames} (htodo : s.todo = .send room endpoint (.ok messages) :: rest)
    {message : Frames} (hmessage : message ∈ messages) {other : BootstrapRoom}
    (hgo : LetsGo other message) :
    ¬ s.x.inner.Holds other ∧ (message = abortAckFrames other → s.Fenced other) := by
  have hcovered := h.covered
  have haddressed := h.addressed
  rw [htodo] at hcovered haddressed
  have hnot : ¬ s.x.inner.Holds room := hcovered.1 room rfl
  obtain ⟨hmessages, haborted⟩ | ⟨token, recurrentState, error, auxIndex, hmessages⟩ :=
    haddressed _ List.mem_cons_self
  · obtain rfl : message = abortAckFrames room := by
      rw [Except.ok.inj hmessages] at hmessage
      exact List.mem_singleton.1 hmessage
    obtain rfl := eq_of_letsGo_abortAck hgo
    refine ⟨hnot, fun _ => ⟨haborted, hnot, fun span recurrentState layouts hmem => ?_⟩⟩
    have halone := (h.alone _ hmem _ rfl).1
    simp [htodo] at halone
  · obtain ⟨rfl, hack⟩ := eq_of_letsGo_completion hmessages.symm hmessage hgo
    exact ⟨hnot, fun heq => absurd heq hack⟩

/-- Every message upon which a decode worker frees memory is sent when the room has no transfers. -/
theorem Orderly.sends (h : Orderly told s) {event : PdEvent} {message : Frames}
    (hmessage : message ∈ s.sends event) {room : BootstrapRoom} (hgo : LetsGo room message) :
    ¬ s.x.inner.Holds room ∧ (message = abortAckFrames room → s.Fenced room) := by
  cases event with
  | start operation => simp [PdSystem.sends] at hmessage
  | deliver frames => simp [PdSystem.sends] at hmessage
  | advance fuel expired =>
      rw [PdSystem.sends] at hmessage
      split at hmessage
      · next htodo => exact h.sends_advance htodo hmessage hgo
      · simp at hmessage
  | acknowledge index =>
      obtain ⟨ack, hack, rfl⟩ := List.mem_map.1 hmessage
      have hmem := List.mem_of_getElem? (Option.mem_toList.1 hack)
      obtain ⟨other, hframes⟩ := h.owed ack hmem
      rw [hframes] at hgo
      obtain rfl := eq_of_letsGo_abortAck hgo
      have hfenced := h.fenced room (.inr ⟨ack, hmem, hframes⟩)
      exact ⟨hfenced.2.1, fun _ => hfenced⟩

theorem Orderly.insert (h : Orderly told s) {room : BootstrapRoom} (hroom : s.Fenced room) :
    Orderly (insert room told) s := by
  refine ⟨h.settled, h.accepted_held, h.accepted_event, h.active_held, h.active_hand,
    h.aborted_target, h.alone, h.covered, h.addressed, h.owed, ?_⟩
  rintro other (htold | hack)
  · obtain rfl | htold := Finset.mem_insert.1 htold
    · exact hroom
    · exact h.fenced other (.inl htold)
  · exact h.fenced other (.inr hack)

variable [Sha256] [KvTransferTargetResolver R] [KvTransferSubmitter S] [KvTransferStatusReader S]
  [KvBatchReleaser S] [KvMemoryRegistrationLease L]

/-! ### Steps of the executor -/

open PdBootstrapKvCacheTransferExecutor

theorem insertLayouts_inner (x : PdBootstrapKvCacheTransferExecutor (KvCacheTransferExecutor S R L) N)
    (room : BootstrapRoom) (layouts : SessionLayouts) :
    (x.insertLayouts room layouts).inner.submittedTransfers = x.inner.submittedTransfers ∧
      (x.insertLayouts room layouts).inner.completionEvents = x.inner.completionEvents := by
  induction layouts generalizing x with
  | nil => exact ⟨rfl, rfl⟩
  | cons entry layouts ih => exact ih (x.insertLayouts room [entry])

variable [ControlSender N]

section Advance

variable {fuel : ℕ} {expired : Bool}

theorem Orderly.lookup (h : Orderly told s) {span : KvCacheTransferSpan}
    {recurrentState : Option Bytes}
    (htodo : s.todo = .lookup span recurrentState :: rest) :
    Orderly told (s.step (.advance fuel expired)) := by
  obtain ⟨halone, hfresh⟩ := h.alone (.lookup span recurrentState) (by simp [htodo]) _ rfl
  obtain rfl : rest = [] := by simpa [htodo] using halone
  rw [step, htodo]
  simp only [execute, acceptedAfter]
  cases s.x.remoteKvLayoutsForRoom span.bootstrapRoom with
  | error error =>
      cases expired with
      | true => exact h.abandoned (.refl _)
      | false =>
          simp only [Bool.false_eq_true, if_false, ← htodo]
          exact h
  | ok layouts =>
      refine ⟨h.settled, h.accepted_held, h.accepted_event, h.active_held, by simp,
        h.aborted_target, ?_, ⟨by simp [PdInstruction.tells], trivial⟩,
        by simp [PdInstruction.Addressed], h.owed, ?_⟩
      · intro instruction hmem room hroom
        obtain rfl := List.mem_singleton.1 hmem
        obtain rfl := Option.some.inj hroom
        exact ⟨rfl, hfresh⟩
      · intro room hack
        obtain ⟨hroom, hheld, -⟩ := h.fenced room hack
        exact ⟨hroom, hheld, by simp⟩

theorem Orderly.markActive (h : Orderly told s) {span : KvCacheTransferSpan}
    {recurrentState : Option Bytes} {layouts : SessionLayouts}
    (htodo : s.todo = .markActive span recurrentState layouts :: rest) :
    Orderly told (s.step (.advance fuel expired)) := by
  obtain ⟨halone, hfresh⟩ := h.alone (.markActive span recurrentState layouts) (by simp [htodo]) _ rfl
  obtain rfl : rest = [] := by simpa [htodo] using halone
  rw [step, htodo]
  simp only [execute, acceptedAfter]
  split_ifs with haborted
  · exact h.abandoned (.refl _)
  · refine ⟨h.settled, h.accepted_held, h.accepted_event,
      fun room hroom => Finset.mem_insert_of_mem (h.active_held room hroom), ?_,
      h.aborted_target, ?_, ⟨by simp [PdInstruction.tells], trivial⟩,
      by simp [PdInstruction.Addressed], h.owed, ?_⟩
    · intro span' recurrentState' layouts' hmem
      obtain ⟨rfl, -, -⟩ := PdInstruction.hand.inj (List.mem_singleton.1 hmem)
      exact Finset.mem_insert_self _ _
    · intro instruction hmem room hroom
      obtain rfl := List.mem_singleton.1 hmem
      obtain rfl := Option.some.inj hroom
      exact ⟨rfl, hfresh⟩
    · -- the room of an acknowledgement was aborted, so it is not the one that becomes active
      intro room hack
      obtain ⟨hroom, hheld, -⟩ := h.fenced room hack
      refine ⟨hroom, hheld, fun span' recurrentState' layouts' hmem => ?_⟩
      obtain ⟨rfl, -, -⟩ := PdInstruction.hand.inj (List.mem_singleton.1 hmem)
      rintro rfl
      exact haborted hroom

theorem Orderly.hand (h : Orderly told s) {span : KvCacheTransferSpan}
    {recurrentState : Option Bytes} {layouts : SessionLayouts}
    (htodo : s.todo = .hand span recurrentState layouts :: rest) :
    Orderly told (s.step (.advance fuel expired)) := by
  have hmem : PdInstruction.hand span recurrentState layouts ∈ s.todo := by simp [htodo]
  obtain ⟨halone, hfresh⟩ := h.alone _ hmem _ rfl
  obtain rfl : rest = [] := by simpa [htodo] using halone
  have hinner := insertLayouts_inner s.x span.bootstrapRoom layouts
  have hcases := KvCacheTransferExecutor.submit_cases
    (s.x.insertLayouts span.bootstrapRoom layouts).inner span
  rw [hinner.1, hinner.2] at hcases
  rw [step, htodo]
  simp only [execute, acceptedAfter]
  rcases hsubmit : KvInnerExecutor.submit
    (s.x.insertLayouts span.bootstrapRoom layouts).inner span with ⟨inner, error | ⟨⟩⟩
  · replace hsubmit : (s.x.insertLayouts span.bootstrapRoom layouts).inner.submit span =
        (inner, .error error) := hsubmit
    rw [hsubmit] at hcases
    obtain ⟨htransfers, hevents⟩ | ⟨hok, -⟩ | ⟨hok, -⟩ := hcases
    · refine h.of_releases (.of_eq htransfers hevents) rfl (fun _ h => h) (fun _ _ h => h)
        (by simp [dismissal, PdInstruction.submits]) ?_
        (by simp [dismissal, PdInstruction.Addressed]) rfl rfl
      have hcovered : Covered inner.Holds [] := trivial
      exact hcovered.dismissal span.bootstrapRoom error.display
    · simp at hok
    · simp at hok
  · replace hsubmit : (s.x.insertLayouts span.bootstrapRoom layouts).inner.submit span =
        (inner, .ok ()) := hsubmit
    rw [hsubmit] at hcases
    refine h.accept hfresh (h.active_hand _ _ _ hmem) (fun hfence => hfence.2.2 _ _ _ hmem rfl) rfl ?_
    obtain hsame | ⟨-, hevent⟩ | ⟨-, htransfer⟩ := hcases
    · exact .inl hsame
    · exact .inr (.inl hevent)
    · exact .inr (.inr htransfer)

theorem Orderly.drain (h : Orderly told s) {room : BootstrapRoom}
    (htodo : s.todo = .drain room :: rest) : Orderly told (s.step (.advance fuel expired)) := by
  have hsubmits := h.submits_rest htodo
  have hcovered := h.covered
  have haddressed := h.addressed
  rw [htodo] at hcovered haddressed
  have hreleases := KvCacheTransferExecutor.releases_cancel h.settled fuel room
  rw [step, htodo]
  simp only [execute, acceptedAfter]
  rcases hcancel : KvInnerExecutor.cancel s.x.inner fuel room with ⟨inner, _ | error | ⟨⟩⟩ <;>
    replace hcancel : s.x.inner.cancelSubmittedTransfersForRoom fuel room = (inner, _) := hcancel <;>
    rw [hcancel] at hreleases
  · -- it goes on waiting
    refine h.of_releases hreleases rfl (fun _ h => h) (fun _ _ h => h) ?_
      (hcovered.mono fun _ => hreleases.of_holds) haddressed rfl rfl
    intro other hother
    obtain rfl | hother := List.mem_cons.1 hother
    · rfl
    · exact hsubmits other hother
  · exact h.abandoned hreleases
  · have hnot := KvCacheTransferExecutor.not_holds_cancel hcancel
    refine h.of_releases hreleases rfl (fun _ h => h) (fun _ _ h => h) hsubmits
      (hcovered.2.mono fun other hother => ⟨hreleases.of_holds hother, ?_⟩)
      (fun other hother => haddressed other (List.mem_cons_of_mem _ hother)) rfl rfl
    rintro hdrains
    obtain rfl : room = other := by simpa [PdInstruction.drains] using hdrains
    exact hnot hother

theorem Orderly.notice (h : Orderly told s) {room : BootstrapRoom} {error : Option String}
    (htodo : s.todo = .notice room error :: rest) :
    Orderly told (s.step (.advance fuel expired)) := by
  have hsubmits := h.submits_rest htodo
  have hcovered := h.covered
  have haddressed := h.addressed
  rw [htodo] at hcovered haddressed
  have hnot : ¬ s.x.inner.Holds room := hcovered.1 room rfl
  have hsend : ∀ instruction ∈ s.x.notices room error, ∃ endpoint messages,
      instruction = .send room endpoint messages ∧
        instruction.Addressed s.x.bootstrapService.abortedRooms := by
    intro instruction hmem
    obtain hmem | hmem := List.mem_append.1 hmem
    · split at hmem
      · simp at hmem
      · obtain ⟨target, -, rfl⟩ := List.mem_map.1 hmem
        exact ⟨_, _, rfl, .inr ⟨_, _, _, _, rfl⟩⟩
    · obtain ⟨endpoint, hendpoint, rfl⟩ := List.mem_map.1 hmem
      refine ⟨_, _, rfl, .inl ⟨rfl, h.aborted_target room fun hnone => ?_⟩⟩
      simp [hnone] at hendpoint
  rw [step, htodo]
  simp only [execute, acceptedAfter]
  refine h.of_releases (.refl _) rfl (fun _ h => h) (fun _ _ h => h) ?_ ?_ ?_ rfl rfl
  · intro instruction hmem
    obtain hmem | hmem := List.mem_append.1 hmem
    · obtain ⟨endpoint, messages, rfl, -⟩ := hsend instruction hmem
      rfl
    · obtain rfl | hmem := List.mem_cons.1 hmem
      · rfl
      · exact hsubmits instruction hmem
  · refine Covered.append ⟨fun other htells => ?_, hcovered.2.mono fun _ h => h⟩ ?_
    · obtain rfl := Option.some.inj htells
      exact hnot
    · intro instruction hmem other htells
      obtain ⟨endpoint, messages, rfl, -⟩ := hsend instruction hmem
      obtain rfl := Option.some.inj htells
      exact hnot
  · intro instruction hmem
    obtain hmem | hmem := List.mem_append.1 hmem
    · obtain ⟨endpoint, messages, -, haddressed⟩ := hsend instruction hmem
      exact haddressed
    · obtain rfl | hmem := List.mem_cons.1 hmem
      · trivial
      · exact haddressed instruction (List.mem_cons_of_mem _ hmem)

theorem Orderly.send (h : Orderly told s) {room : BootstrapRoom} {endpoint : String}
    {messages : Except String (List Frames)}
    (htodo : s.todo = .send room endpoint messages :: rest) :
    Orderly told (s.step (.advance fuel expired)) := by
  rw [step, htodo]
  cases messages with
  | error message =>
      simp only [execute, acceptedAfter]
      exact h.abandoned (.refl _)
  | ok messages =>
      simp only [execute, acceptedAfter]
      rcases sendFrames s.x.network endpoint messages with ⟨network, message | ⟨⟩⟩
      · exact h.abandoned (.refl _)
      · exact h.tail htodo rfl rfl rfl (fun _ h => h) fun _ _ h => h

theorem Orderly.clear (h : Orderly told s) {room : BootstrapRoom}
    (htodo : s.todo = .clear room :: rest) : Orderly told (s.step (.advance fuel expired)) := by
  have hcovered := h.covered
  rw [htodo] at hcovered
  have hnot : ¬ s.x.inner.Holds room := hcovered.1 room rfl
  rw [step, htodo]
  simp only [execute, acceptedAfter]
  refine h.tail htodo rfl rfl rfl (fun other hother => ?_) fun other hheld hactive => ?_
  · by_cases heq : other = room
    · simp [clearRoom, heq] at hother
    · simpa [clearRoom, Function.update_of_ne heq] using hother
  · refine Finset.mem_erase.2 ⟨?_, hactive⟩
    rintro rfl
    exact hnot hheld

theorem Orderly.readAborted (h : Orderly told s) (htodo : s.todo = .readAborted :: rest) :
    Orderly told (s.step (.advance fuel expired)) := by
  have hsubmits := h.submits_rest htodo
  have hcovered := h.covered
  rw [htodo] at hcovered
  rw [step, htodo]
  simp only [execute, acceptedAfter]
  refine h.of_releases (.refl _) rfl (fun _ h => h) (fun _ _ h => h) ?_ ?_ ?_ rfl rfl
  · intro instruction hmem
    obtain hmem | hmem := List.mem_append.1 hmem
    · exact (PdInstruction.mem_dismissals hmem ∅).1
    · obtain rfl | hmem := List.mem_cons.1 hmem
      · rfl
      · exact hsubmits instruction hmem
  · have hpoll : Covered s.x.inner.Holds (.pollInner :: rest) :=
      ⟨by simp [PdInstruction.tells],
        hcovered.2.mono fun _ h => ⟨h.1, by simp [PdInstruction.drains]⟩⟩
    exact hpoll.dismissals _ _
  · intro instruction hmem
    obtain hmem | hmem := List.mem_append.1 hmem
    · exact (PdInstruction.mem_dismissals hmem _).2
    · obtain rfl | hmem := List.mem_cons.1 hmem
      · trivial
      · exact h.addressed instruction (htodo ▸ List.mem_cons_of_mem _ hmem)

theorem Orderly.pollInner (h : Orderly told s) (htodo : s.todo = .pollInner :: rest) :
    Orderly told (s.step (.advance fuel expired)) := by
  have hsubmits := h.submits_rest htodo
  have hcovered := h.covered
  rw [htodo] at hcovered
  obtain ⟨hreleases, hevents⟩ := KvCacheTransferExecutor.releases_poll h.settled
  rw [step, htodo]
  simp only [execute, acceptedAfter]
  rcases hpoll : KvInnerExecutor.poll s.x.inner with ⟨inner, error | poll⟩ <;>
    replace hpoll : s.x.inner.pollSubmittedTransfers = (inner, _) := hpoll <;>
    rw [hpoll] at hreleases hevents
  · exact h.abandoned hreleases
  · refine h.of_releases hreleases rfl (fun _ h => h) (fun _ _ h => h) ?_ ?_ ?_ rfl rfl
    · intro instruction hmem
      obtain hmem | hmem := List.mem_append.1 hmem
      · obtain ⟨event, -, rfl⟩ := List.mem_map.1 hmem
        rfl
      · exact hsubmits instruction hmem
    · refine Covered.append (hcovered.2.mono fun room hroom =>
        ⟨hreleases.of_holds hroom, by simp [PdInstruction.drains]⟩) ?_
      intro instruction hmem room htells
      obtain ⟨event, hevent, rfl⟩ := List.mem_map.1 hmem
      obtain rfl := Option.some.inj htells
      exact hevents poll rfl event hevent
    · intro instruction hmem
      obtain hmem | hmem := List.mem_append.1 hmem
      · obtain ⟨event, -, rfl⟩ := List.mem_map.1 hmem
        trivial
      · exact h.addressed instruction (htodo ▸ List.mem_cons_of_mem _ hmem)

theorem Orderly.shutdownInner (h : Orderly told s) (htodo : s.todo = .shutdownInner :: rest) :
    Orderly told (s.step (.advance fuel expired)) := by
  have hcovered := h.covered
  have haddressed := h.addressed
  rw [htodo] at hcovered haddressed
  have hreleases := KvCacheTransferExecutor.releases_shutdown h.settled fuel
  rw [step, htodo]
  simp only [execute, acceptedAfter]
  rcases hshutdown : KvInnerExecutor.shutdown s.x.inner fuel with ⟨inner, _ | result⟩ <;>
    replace hshutdown : s.x.inner.shutdown fuel = (inner, _) := hshutdown <;>
    rw [hshutdown] at hreleases
  · refine h.of_releases hreleases rfl (fun _ h => h) (fun _ _ h => h) ?_
      (hcovered.mono fun _ => hreleases.of_holds) haddressed rfl rfl
    intro other hother
    obtain rfl | hother := List.mem_cons.1 hother
    · rfl
    · exact h.submits_rest htodo other hother
  · exact h.abandoned hreleases

theorem Orderly.advance (h : Orderly told s) (fuel : ℕ) (expired : Bool) :
    Orderly told (s.step (.advance fuel expired)) := by
  cases htodo : s.todo with
  | nil => simpa only [step, htodo] using h
  | cons instruction rest =>
      cases instruction with
      | lookup span recurrentState => exact h.lookup htodo
      | markActive span recurrentState layouts => exact h.markActive htodo
      | hand span recurrentState layouts => exact h.hand htodo
      | drain room => exact h.drain htodo
      | notice room error => exact h.notice htodo
      | send room endpoint messages => exact h.send htodo
      | clear room => exact h.clear htodo
      | readAborted => exact h.readAborted htodo
      | pollInner => exact h.pollInner htodo
      | shutdownInner => exact h.shutdownInner htodo

end Advance

/-! ### Messages and operations -/

theorem Orderly.deliver (h : Orderly told s) (frames : Frames) :
    Orderly told (s.step (.deliver frames)) := by
  rw [step]
  rcases hmessage : handleMessage s.x.bootstrapService frames with ⟨service, ack⟩ | error | _
  · obtain ⟨hactive, haborted, htargets, hack⟩ := handleMessage_spec hmessage
    refine ⟨h.settled, h.accepted_held, h.accepted_event, fun room hroom => ?_,
      fun span recurrentState layouts hmem => ?_, fun room hroom => ?_, h.alone, h.covered,
      fun instruction hmem => (h.addressed instruction hmem).mono haborted, ?_, ?_⟩
    · exact hactive ▸ h.active_held room hroom
    · exact hactive ▸ h.active_hand span recurrentState layouts hmem
    · obtain hold | hnew := htargets room hroom
      · exact haborted (h.aborted_target room hold)
      · exact hnew
    · intro message hmem
      obtain hold | hnew := List.mem_append.1 hmem
      · exact h.owed message hold
      · obtain ⟨room, hframes, -⟩ := hack message (Option.mem_toList.1 hnew)
        exact ⟨room, hframes⟩
    · -- a room that is acknowledged at once is not active, so it has no transfers and gets none
      have hold : ∀ room, Acknowledges told s room → room ∈ service.abortedRooms ∧
          ¬ s.x.inner.Holds room ∧ ∀ span recurrentState layouts,
            .hand span recurrentState layouts ∈ s.todo → span.bootstrapRoom ≠ room :=
        fun room hroom => (h.fenced room hroom).imp_left fun hmem => haborted hmem
      rintro room (htold | ⟨message, hmem, hframes⟩)
      · exact hold room (.inl htold)
      · obtain hmem | hmem := List.mem_append.1 hmem
        · exact hold room (.inr ⟨message, hmem, hframes⟩)
        · obtain ⟨other, hother, hmem', hnot⟩ := hack message (Option.mem_toList.1 hmem)
          obtain rfl := abortAckFrames_injective (hother.symm.trans hframes)
          refine ⟨hmem', fun hheld => hnot (h.active_held _ hheld), ?_⟩
          rintro span recurrentState layouts hhand rfl
          exact hnot (h.active_hand span recurrentState layouts hhand)
  · exact h
  · exact h

theorem Orderly.acknowledge (h : Orderly told s) (index : ℕ) :
    Orderly told (s.step (.acknowledge index)) := by
  have hsub := (List.eraseIdx_sublist s.acks index).subset
  refine ⟨h.settled, h.accepted_held, h.accepted_event, h.active_held, h.active_hand,
    h.aborted_target, h.alone, h.covered, h.addressed, fun ack hack => h.owed ack (hsub hack), ?_⟩
  rintro room (htold | ⟨ack, hack, hframes⟩)
  · exact h.fenced room (.inl htold)
  · exact h.fenced room (.inr ⟨ack, hsub hack, hframes⟩)

theorem Orderly.start (h : Orderly told s) {operation : PdOperation}
    (honce : s.OncePerRoom (.start operation)) : Orderly told (s.step (.start operation)) := by
  cases htodo : s.todo with
  | cons instruction rest => simpa only [step, htodo] using h
  | nil =>
      rw [step, htodo]
      cases operation with
      | submit span recurrentState =>
          refine ⟨h.settled, h.accepted_held, h.accepted_event, h.active_held,
            by simp [PdOperation.instructions], h.aborted_target, ?_,
            ⟨by simp [PdInstruction.tells], trivial⟩,
            by simp [PdOperation.instructions, PdInstruction.Addressed], h.owed, ?_⟩
          · intro instruction hmem room hroom
            obtain rfl := List.mem_singleton.1 hmem
            obtain rfl := Option.some.inj hroom
            exact ⟨rfl, honce htodo⟩
          · intro room hack
            obtain ⟨hroom, hheld, -⟩ := h.fenced room hack
            exact ⟨hroom, hheld, by simp [PdOperation.instructions]⟩
      | poll =>
          exact h.of_releases (.refl _) rfl (fun _ h => h) (fun _ _ h => h)
            (by simp [PdOperation.instructions, PdInstruction.submits])
            ⟨by simp [PdInstruction.tells], trivial⟩
            (by simp [PdOperation.instructions, PdInstruction.Addressed]) rfl rfl
      | cancel room =>
          refine h.of_releases (.refl _) rfl (fun _ h => h) (fun _ _ h => h)
            (by simp [PdOperation.instructions, dismissal, PdInstruction.submits]) ?_
            (by simp [PdOperation.instructions, dismissal, PdInstruction.Addressed]) rfl rfl
          have hcovered : Covered s.x.inner.Holds [] := trivial
          exact hcovered.dismissal room "prefill request canceled"
      | shutdown =>
          have hinstruction : ∀ instruction ∈ PdOperation.shutdown.instructions s.x,
              instruction.submits = none ∧
                instruction.Addressed s.x.bootstrapService.abortedRooms := by
            intro instruction hmem
            obtain hmem | hmem := List.mem_append.1 hmem
            · exact PdInstruction.mem_dismissals hmem _
            · obtain rfl := List.mem_singleton.1 hmem
              exact ⟨rfl, trivial⟩
          refine h.of_releases (.refl _) rfl (fun _ h => h) (fun _ _ h => h)
            (fun instruction hmem => (hinstruction instruction hmem).1) ?_
            (fun instruction hmem => (hinstruction instruction hmem).2) rfl rfl
          have hcovered : Covered s.x.inner.Holds [.shutdownInner] :=
            ⟨by simp [PdInstruction.tells], trivial⟩
          exact hcovered.dismissals _ _

theorem Orderly.step (h : Orderly told s) {event : PdEvent} (honce : s.OncePerRoom event) :
    Orderly told (s.step event) := by
  cases event with
  | start operation => exact h.start honce
  | advance fuel expired => exact h.advance fuel expired
  | deliver frames => exact h.deliver frames
  | acknowledge index => exact h.acknowledge index

/-! ### What is sent -/

/-- Rooms stay fenced off once their abort has been acknowledged. -/
theorem Orderly.run (h : Orderly told s) {events : List PdEvent}
    (honce : Transition.Along PdSystem.step PdSystem.OncePerRoom s events) :
    Orderly told (events.foldl PdSystem.step s) ∧
      ∀ room, abortAckFrames room ∈ Transition.emitted PdSystem.step PdSystem.sends s events →
        (events.foldl PdSystem.step s).Fenced room := by
  induction events generalizing s told with
  | nil => exact ⟨h, by simp [Transition.emitted]⟩
  | cons event events ih =>
      refine ⟨(ih (h.step honce.1) honce.2).1, fun room hroom => ?_⟩
      obtain hnow | hlater := List.mem_append.1 hroom
      · have hfenced := (h.sends hnow (.inl rfl)).2 rfl
        have htold := (h.insert hfenced).step honce.1
        exact (ih htold honce.2).1.fenced room (.inl (Finset.mem_insert_self _ _))
      · exact (ih (h.step honce.1) honce.2).2 room hlater

/-- An executor without transfers, and a service that has heard nothing. -/
def new (submitter : S) (layout : KvTransferLayout) (targetResolver : R) (lease : Option L)
    (network : N) : PdSystem (KvCacheTransferExecutor S R L) N where
  x :=
    { inner := { (KvCacheTransferExecutor.new submitter layout targetResolver :
        KvCacheTransferExecutor S R L) with localMemoryRegistration := lease }
      network }

omit [Sha256] [KvTransferTargetResolver R] [KvTransferSubmitter S] [KvTransferStatusReader S]
  [KvBatchReleaser S] [KvMemoryRegistrationLease L] [ControlSender N] in
theorem orderly_new (submitter : S) (layout : KvTransferLayout) (targetResolver : R)
    (lease : Option L) (network : N) :
    Orderly ∅ (new submitter layout targetResolver lease network) := by
  refine ⟨⟨by simp [new, KvCacheTransferExecutor.new], by simp [new, KvCacheTransferExecutor.new]⟩,
    ?_, by simp [new, KvCacheTransferExecutor.new], ?_, by simp [new], by simp [new],
    by simp [new], trivial, by simp [new], by simp [new], ?_⟩
  · simp [new, KvCacheTransferExecutor.new, KvCacheTransferExecutor.Holds]
  · simp [new, KvCacheTransferExecutor.new, KvCacheTransferExecutor.Holds]
  · rintro room (htold | ⟨ack, hack, -⟩)
    · simp at htold
    · simp [new] at hack

end PdSystem

/-- **Aborts are safe.** In every interleaving of messages with the steps of the executor in which
no room is submitted again after a submission that succeeded, a message upon which a decode worker
frees the memory of a room is sent only when the executor has no batch of the room that is not
released, and once an abort of a room has been acknowledged no span of it is handed on any more.

Source: `sglang-srt/src/transfer/pd_bootstrap.rs`, lines 143–308, 1283–1305. -/
theorem aborts_safe {S R L N : Type} [Sha256] [KvTransferTargetResolver R] [KvTransferSubmitter S]
    [KvTransferStatusReader S] [KvBatchReleaser S] [KvMemoryRegistrationLease L] [ControlSender N]
    (submitter : S) (layout : KvTransferLayout) (targetResolver : R) (lease : Option L)
    (network : N) (events : List PdEvent)
    (honce : Transition.Along PdSystem.step PdSystem.OncePerRoom
      (PdSystem.new submitter layout targetResolver lease network) events) :
    ∀ before event after, events = before ++ event :: after →
      let s := before.foldl PdSystem.step
        (PdSystem.new submitter layout targetResolver lease network)
      (∀ room message, message ∈ s.sends event → LetsGo room message → ¬ s.x.inner.Holds room) ∧
      ∀ room, abortAckFrames room ∈ Transition.emitted PdSystem.step PdSystem.sends
          (PdSystem.new submitter layout targetResolver lease network) before →
        ¬ s.Hands room event := by
  rintro before event after rfl
  obtain ⟨horderly, hfenced⟩ := (PdSystem.orderly_new submitter layout targetResolver lease
    network).run ((Transition.along_append ..).1 honce).1
  refine ⟨fun room message hmessage hgo => (horderly.sends hmessage hgo).1, fun room hack => ?_⟩
  cases event with
  | advance fuel expired =>
      rintro ⟨span, recurrentState, layouts, rest, htodo, hroom⟩
      exact (hfenced room hack).2.2 span recurrentState layouts (by rw [htodo]; simp) hroom
  | start operation => exact id
  | deliver frames => exact id
  | acknowledge index => exact id

/-- A span of room 5. -/
def abortedSpan : KvCacheTransferSpan where
  requestId := ⟨"r"⟩
  disaggregatedParams := ⟨"10.0.0.2", 8998, 5⟩
  dataParallelRank := 0
  tokenOffset := 0
  tokenCount := 1
  cachePages := [0]
  pageSize := 1
  pageIndices := [0]
  firstToken := some 3
  pageSize_pos := by decide

/-- A decode worker gives up a room that the executor waits for. -/
def abortedSubmission : List PdEvent :=
  [.start (.submit abortedSpan none), .deliver sampleAbort.frames, .acknowledge 0,
    .advance 0 true]

/-- The system before the acknowledgement. -/
def waitingSystem : PdSystem (KvCacheTransferExecutor PromptTransport OneTarget PlainLease)
    OneUnreachable :=
  (abortedSubmission.take 2).foldl PdSystem.step
    (PdSystem.new {} ⟨4096, 4, 0⟩ {} (some {}) ⟨"tcp://10.0.0.3:7000"⟩)

/-- The abort is acknowledged while the room has no transfers. -/
theorem aborts_safe_abortedSubmission :
    abortAckFrames 5 ∈ waitingSystem.sends (.acknowledge 0) ∧ ¬ waitingSystem.x.inner.Holds 5 := by
  have hmessage : abortAckFrames 5 ∈ waitingSystem.sends (.acknowledge 0) := by
    have hhead : sampleAbort.frames.head? = some (utf8 "ABORT") := rfl
    have hdeliver : ∀ state : PrefillBootstrapState, state.activeRooms = ∅ →
        handleMessage state sampleAbort.frames =
          .ok ((state.abort 5 (tcpEndpoint "10.0.0.1" 9)).1,
            some (tcpEndpoint "10.0.0.1" 9, abortAckFrames 5)) := by
      intro state hstate
      rw [handleMessage, if_pos hhead, readAbort_sampleAbort]
      simp [PrefillBootstrapState.abort, hstate]
    simp [waitingSystem, abortedSubmission, PdSystem.step, PdSystem.new, hdeliver, PdSystem.sends]
  have hsafe := aborts_safe (S := PromptTransport) {} ⟨4096, 4, 0⟩ ({} : OneTarget)
    (some ({} : PlainLease)) (⟨"tcp://10.0.0.3:7000"⟩ : OneUnreachable) abortedSubmission
    ⟨fun _ => by simp [PdSystem.new], trivial, trivial, trivial, trivial⟩
    (abortedSubmission.take 2) (.acknowledge 0) [.advance 0 true] rfl
  exact ⟨hmessage, hsafe.1 5 (abortAckFrames 5) hmessage (.inl rfl)⟩

end SglangRs
