import SglangRs.Transfer.Executor

/-!
# The bootstrap registry

The decode side learns from `DecodeBootstrapRegistry` whether the KV cache of a request has arrived:
the registry keeps one status for every bootstrap room (`sglang-srt/src/transfer/mod.rs`, lines
337–462). The status is written when a plan is executed, span by span (lines 1274–1300), and when
completion events are applied, event by event (lines 2419–2450), each write replacing the one
before. A request is ready to decode when the status of its room is `Success` (lines 1596–1616).

A map is a function from rooms to optional sessions. The backend that spans are submitted to is a
state machine `E` that answers as it likes.

## Main definitions

* `DecodeBootstrapRegistry`, `executeKvCacheTransferPlan`, `applyTransferCompletionEvents`,
  `registerPrefillBootstrapSessions`, `DecodeBootstrapRegistry.decodeRequestState`.
* `Notice`, `DecodeBootstrapRegistry.note`: a write of a status, and why it is made.
* `planNotices`, `eventNotices`: the writes of a plan and of the events of a poll.

## Main results

* `executeKvCacheTransferPlan_registry`, `applyTransferCompletionEvents_registry`: the registry
  after a plan or a poll is given by its writes.
-/

namespace SglangRs

inductive KvPoll where
  | failed
  | bootstrapping
  | waitingForInput
  | transferring
  | success
deriving DecidableEq, Repr

structure DecodeBootstrapSession where
  requestId : RequestId
  disaggregatedParams : DisaggregatedParams
  dataParallelRank : ℤ
  status : KvPoll
deriving DecidableEq, Repr

def DecodeBootstrapSession.new (requestId : RequestId) (disaggregatedParams : DisaggregatedParams)
    (dataParallelRank : ℤ) : DecodeBootstrapSession :=
  ⟨requestId, disaggregatedParams, dataParallelRank, .bootstrapping⟩

structure DecodeBootstrapRegistry where
  sessionsByRoom : BootstrapRoom → Option DecodeBootstrapSession := fun _ => none

namespace DecodeBootstrapRegistry

variable (registry : DecodeBootstrapRegistry)

def get (bootstrapRoom : BootstrapRoom) : Option DecodeBootstrapSession :=
  registry.sessionsByRoom bootstrapRoom

def register (session : DecodeBootstrapSession) :
    Except DecodeBootstrapRegistryError DecodeBootstrapRegistry :=
  let room := session.disaggregatedParams.bootstrapRoom
  if (registry.sessionsByRoom room).isSome then .error (.duplicateBootstrapRoom room)
  else .ok ⟨Function.update registry.sessionsByRoom room (some session)⟩

def updateStatus (bootstrapRoom : BootstrapRoom) (status : KvPoll) :
    Except DecodeBootstrapRegistryError DecodeBootstrapRegistry :=
  match registry.sessionsByRoom bootstrapRoom with
  | none => .error (.missingBootstrapRoom bootstrapRoom)
  | some session =>
      .ok ⟨Function.update registry.sessionsByRoom bootstrapRoom (some { session with status })⟩

def remove (bootstrapRoom : BootstrapRoom) : DecodeBootstrapRegistry :=
  ⟨Function.update registry.sessionsByRoom bootstrapRoom none⟩

/-- The status of a room. -/
def status? (bootstrapRoom : BootstrapRoom) : Option KvPoll :=
  (registry.get bootstrapRoom).map (·.status)

end DecodeBootstrapRegistry

/-- The backend that spans are submitted to. -/
class KvTransferBackend (E : Type) where
  submit : E → KvCacheTransferSpan → E × Except KvCacheTransferError Unit

instance {S R L : Type} [Sha256] [KvTransferTargetResolver R] [KvTransferSubmitter S] :
    KvTransferBackend (KvCacheTransferExecutor S R L) where
  submit x span := x.submit span

structure KvCacheTransferSummary where
  submittedSpans : ℕ := 0
  noopSpans : ℕ := 0
deriving DecidableEq, Repr

section Plans

variable {E : Type} [KvTransferBackend E]

/-- A span without tokens and without a first token has nothing to announce. -/
def KvCacheTransferSpan.isSkipped (span : KvCacheTransferSpan) : Bool :=
  span.isNoop && span.firstToken.isNone

/-- The loop over the spans of a plan. -/
def executeSpans : List KvCacheTransferSpan → KvCacheTransferSummary → DecodeBootstrapRegistry → E →
    DecodeBootstrapRegistry × E × Except KvCacheTransferError KvCacheTransferSummary
  | [], summary, registry, executor => (registry, executor, .ok summary)
  | span :: spans, summary, registry, executor =>
      if span.isSkipped then
        match registry.updateStatus span.bootstrapRoom .success with
        | .error error => (registry, executor, .error (.registry error))
        | .ok registry =>
            executeSpans spans { summary with noopSpans := summary.noopSpans + 1 } registry executor
      else
        match registry.updateStatus span.bootstrapRoom .transferring with
        | .error error => (registry, executor, .error (.registry error))
        | .ok registry =>
            match KvTransferBackend.submit executor span with
            | (executor, .error error) =>
                match registry.updateStatus span.bootstrapRoom .failed with
                | .error error => (registry, executor, .error (.registry error))
                | .ok registry => (registry, executor, .error error)
            | (executor, .ok ()) =>
                executeSpans spans { summary with submittedSpans := summary.submittedSpans + 1 }
                  registry executor

/-- Source: `transfer/mod.rs`, lines 1274–1300. -/
def executeKvCacheTransferPlan (registry : DecodeBootstrapRegistry) (executor : E)
    (plan : List KvCacheTransferSpan) :
    DecodeBootstrapRegistry × E × Except KvCacheTransferError KvCacheTransferSummary :=
  executeSpans plan {} registry executor

end Plans

/-- Checksums that are empty are not listed. -/
def pushChecksum (checksums : List String) (checksum : String) : List String :=
  if checksum.isEmpty then checksums else checksums ++ [checksum]

/-- The loop over the events of a poll. -/
def applyEvents : List KvTransferCompletionEvent → KvTransferPollSummary → DecodeBootstrapRegistry →
    DecodeBootstrapRegistry × Except KvCacheTransferError KvTransferPollSummary
  | [], summary, registry => (registry, .ok summary)
  | event :: events, summary, registry =>
      match event.status with
      | .completed =>
          match registry.updateStatus event.bootstrapRoom .success with
          | .error error => (registry, .error (.registry error))
          | .ok registry =>
              applyEvents events
                { summary with
                  completedBatches := summary.completedBatches + 1
                  completedDescriptorChecksums :=
                    pushChecksum summary.completedDescriptorChecksums event.descriptorChecksum }
                registry
      | .failed _ | .canceled =>
          match registry.updateStatus event.bootstrapRoom .failed with
          | .error error => (registry, .error (.registry error))
          | .ok registry =>
              applyEvents events
                { summary with
                  failedBatches := summary.failedBatches + 1
                  failedDescriptorChecksums :=
                    pushChecksum summary.failedDescriptorChecksums event.descriptorChecksum }
                registry

/-- Source: `transfer/mod.rs`, lines 2419–2450. -/
def applyTransferCompletionEvents (registry : DecodeBootstrapRegistry) (poll : KvTransferPoll) :
    DecodeBootstrapRegistry × Except KvCacheTransferError KvTransferPollSummary :=
  applyEvents poll.events { pendingBatches := poll.pendingTransfers } registry

/-- Source: `transfer/mod.rs`, lines 1685–1709. -/
def registerPrefillBootstrapSessions : List ScheduledRequest → DecodeBootstrapRegistry →
    DecodeBootstrapRegistry × Except DecodeBootstrapRegistryError Unit
  | [], registry => (registry, .ok ())
  | request :: requests, registry =>
      match request.disaggregatedParams with
      | none => registerPrefillBootstrapSessions requests registry
      | some params =>
          if (registry.get params.bootstrapRoom).isSome then
            registerPrefillBootstrapSessions requests registry
          else
            match registry.register (.new request.requestId params request.dataParallelRank) with
            | .error error => (registry, .error error)
            | .ok registry => registerPrefillBootstrapSessions requests registry

/-- Source: `transfer/mod.rs`, lines 1596–1616. -/
def DecodeBootstrapRegistry.decodeRequestState {W : Type} [WorkerExecutor W]
    (registry : DecodeBootstrapRegistry)
    (worker : W) (request : ScheduledRequest) :
    W × Except WorkerExecutionError DecodeRequestState :=
  match request.disaggregatedParams with
  | none => WorkerExecutor.decodeRequestState worker request
  | some params =>
      match registry.get params.bootstrapRoom with
      | none => (worker, .ok .pending)
      | some session =>
          match session.status with
          | .success => WorkerExecutor.decodeRequestState worker request
          | .failed =>
              (worker, .ok (.failed
                s!"KV transfer failed for bootstrap room {params.bootstrapRoom}"))
          | .bootstrapping | .waitingForInput | .transferring => (worker, .ok .pending)

/-! ### Writes -/

/-- A write of the status of a room: a span was handed to the backend, which accepted it or not; a
span had nothing to announce; an event was applied. -/
inductive Notice where
  | attempted (span : KvCacheTransferSpan) (accepted : Bool)
  | skipped (span : KvCacheTransferSpan)
  | applied (event : KvTransferCompletionEvent)
deriving DecidableEq

namespace Notice

def room : Notice → BootstrapRoom
  | attempted span _ => span.bootstrapRoom
  | skipped span => span.bootstrapRoom
  | applied event => event.bootstrapRoom

/-- The status written. -/
def status : Notice → KvPoll
  | attempted _ accepted => if accepted then .transferring else .failed
  | skipped _ => .success
  | applied event => if event.status = .completed then .success else .failed

end Notice

namespace DecodeBootstrapRegistry

/-- The write of a notice. -/
def note (registry : DecodeBootstrapRegistry) (notice : Notice) : DecodeBootstrapRegistry :=
  ⟨Function.update registry.sessionsByRoom notice.room
    ((registry.get notice.room).map fun session => { session with status := notice.status })⟩

variable {registry registry' : DecodeBootstrapRegistry}

@[simp] theorem status?_note_self (notice : Notice) :
    (registry.note notice).status? notice.room =
      (registry.status? notice.room).map fun _ => notice.status := by
  simp [status?, note, get, Function.comp_def]

theorem status?_note_of_ne {notice : Notice} {room : BootstrapRoom} (h : room ≠ notice.room) :
    (registry.note notice).status? room = registry.status? room := by
  simp [status?, note, get, Function.update_of_ne h]

theorem isSome_status?_note (registry : DecodeBootstrapRegistry) (notice : Notice)
    (room : BootstrapRoom) :
    ((registry.note notice).status? room).isSome = (registry.status? room).isSome := by
  by_cases h : room = notice.room
  · subst h
    simp
  · rw [status?_note_of_ne h]

/-- Whether a room is registered. -/
def known (registry : DecodeBootstrapRegistry) (room : BootstrapRoom) : Bool :=
  (registry.get room).isSome

@[simp] theorem known_note (notice : Notice) : (registry.note notice).known = registry.known := by
  funext room
  simpa [known, status?] using registry.isSome_status?_note notice room

theorem updateStatus_of_not_known {room : BootstrapRoom} (h : ¬ registry.known room)
    (status : KvPoll) :
    registry.updateStatus room status = .error (.missingBootstrapRoom room) := by
  have hnone : registry.sessionsByRoom room = none := by
    simpa [known, get] using h
  simp [updateStatus, hnone]

/-- A status that is written for a registered room. -/
theorem updateStatus_eq_note {registry : DecodeBootstrapRegistry} (notice : Notice)
    (h : registry.known notice.room) :
    registry.updateStatus notice.room notice.status = .ok (registry.note notice) := by
  obtain ⟨session, hsession⟩ := Option.isSome_iff_exists.mp h
  rw [get] at hsession
  simp [updateStatus, note, get, hsession]

/-- A write replaces the one before. -/
theorem note_note {first second : Notice} (h : first.room = second.room) :
    (registry.note first).note second = registry.note second := by
  simp [note, get, h, Function.comp_def]

end DecodeBootstrapRegistry

section Notices

variable {E : Type} [KvTransferBackend E] (known : BootstrapRoom → Bool)

/-- The writes of a plan. The plan ends at the first span of an unregistered room and at the first
span the backend does not accept. -/
def planNotices : List KvCacheTransferSpan → E → List Notice
  | [], _ => []
  | span :: spans, executor =>
      if known span.bootstrapRoom then
        if span.isSkipped then .skipped span :: planNotices spans executor
        else
          match KvTransferBackend.submit executor span with
          | (_, .error _) => [.attempted span false]
          | (executor, .ok ()) => .attempted span true :: planNotices spans executor
      else []

/-- The writes of the events of a poll, which end at the first event of an unregistered room. -/
def eventNotices (events : List KvTransferCompletionEvent) : List Notice :=
  (events.takeWhile fun event => known event.bootstrapRoom).map .applied

end Notices

theorem executeSpans_registry {E : Type} [KvTransferBackend E] (spans : List KvCacheTransferSpan)
    (summary : KvCacheTransferSummary) (registry : DecodeBootstrapRegistry) (executor : E) :
    (executeSpans spans summary registry executor).1 =
      (planNotices registry.known spans executor).foldl DecodeBootstrapRegistry.note registry := by
  induction spans generalizing summary registry executor with
  | nil => rfl
  | cons span spans ih =>
    by_cases hknown : registry.known span.bootstrapRoom
    · have hrest := fun notice summary => ih summary (registry.note notice)
      simp only [DecodeBootstrapRegistry.known_note] at hrest
      by_cases hskipped : span.isSkipped
      · have hupdate := DecodeBootstrapRegistry.updateStatus_eq_note (.skipped span) hknown
        simp only [Notice.room, Notice.status] at hupdate
        simp [executeSpans, planNotices, hskipped, hknown, hupdate, hrest]
      · have hupdate := DecodeBootstrapRegistry.updateStatus_eq_note (.attempted span true) hknown
        simp only [Notice.room, Notice.status, if_true] at hupdate
        cases hanswer : KvTransferBackend.submit executor span with
        | mk executor' answer =>
          cases answer with
          | error error =>
            -- the status is written twice, and the second write stands
            have hknown' : (registry.note (.attempted span true)).known span.bootstrapRoom := by
              simpa using hknown
            have hfailed := DecodeBootstrapRegistry.updateStatus_eq_note (.attempted span false)
              hknown'
            have hnote : (registry.note (.attempted span true)).note (.attempted span false) =
                registry.note (.attempted span false) := DecodeBootstrapRegistry.note_note rfl
            rw [hnote] at hfailed
            simp only [Notice.room, Notice.status, Bool.false_eq_true, if_false] at hfailed
            simp [executeSpans, planNotices, hskipped, hknown, hupdate, hanswer, hfailed]
          | ok _ =>
            simp [executeSpans, planNotices, hskipped, hknown, hupdate, hanswer, hrest]
    · have hupdate := DecodeBootstrapRegistry.updateStatus_of_not_known hknown
      by_cases hskipped : span.isSkipped <;>
        simp [executeSpans, planNotices, hskipped, hknown, hupdate]

/-- The registry after a plan. -/
theorem executeKvCacheTransferPlan_registry {E : Type} [KvTransferBackend E]
    (registry : DecodeBootstrapRegistry) (executor : E) (plan : List KvCacheTransferSpan) :
    (executeKvCacheTransferPlan registry executor plan).1 =
      (planNotices registry.known plan executor).foldl DecodeBootstrapRegistry.note registry :=
  executeSpans_registry plan {} registry executor

theorem applyEvents_registry (events : List KvTransferCompletionEvent)
    (summary : KvTransferPollSummary) (registry : DecodeBootstrapRegistry) :
    (applyEvents events summary registry).1 =
      (eventNotices registry.known events).foldl DecodeBootstrapRegistry.note registry := by
  induction events generalizing summary registry with
  | nil => rfl
  | cons event events ih =>
    by_cases hknown : registry.known event.bootstrapRoom
    · have hupdate := DecodeBootstrapRegistry.updateStatus_eq_note (.applied event) hknown
      have hnotices : eventNotices registry.known (event :: events) =
          .applied event :: eventNotices registry.known events := by
        simp [eventNotices, hknown]
      have hrest := fun summary => ih summary (registry.note (.applied event))
      rw [DecodeBootstrapRegistry.known_note] at hrest
      rw [hnotices, List.foldl_cons, applyEvents]
      simp only [Notice.room, Notice.status] at hupdate
      split
      · next hstatus =>
        rw [if_pos hstatus] at hupdate
        simp [hupdate, hrest]
      all_goals
        next hstatus =>
          rw [if_neg (by simp [hstatus])] at hupdate
          simp [hupdate, hrest]
    · have hupdate := DecodeBootstrapRegistry.updateStatus_of_not_known hknown
      have hnotices : eventNotices registry.known (event :: events) = [] := by
        simp [eventNotices, hknown]
      rw [hnotices, List.foldl_nil, applyEvents]
      split <;> simp [hupdate]

/-- The registry after the events of a poll. -/
theorem applyTransferCompletionEvents_registry (registry : DecodeBootstrapRegistry)
    (poll : KvTransferPoll) : (applyTransferCompletionEvents registry poll).1 =
      (eventNotices registry.known poll.events).foldl DecodeBootstrapRegistry.note registry :=
  applyEvents_registry poll.events _ registry

end SglangRs
