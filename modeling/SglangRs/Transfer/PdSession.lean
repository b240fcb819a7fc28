import SglangRs.Transfer.PdExecutor
import SglangRs.Wire.Sha256

/-!
# What becomes of the events of a prefill worker

The inner executor hands its events over to `PdBootstrapKvCacheTransferExecutor.poll` and forgets
them, and the same poll drains the rooms that were aborted, one event for each. The events are
returned only if nothing fails after they were taken over. This file follows the events through runs
of the executor: the inner executor is a `Session`, which remembers what it has returned, and a
`PdSession` remembers in addition what the polls of the prefill worker have returned.

## Main definitions

* `PdSession`, `PdSession.step`: the operations of the executor, interleaved with messages to the
  bootstrap service.
* `PdSession.PollKeeps`: a poll that either succeeds or fails before it has taken anything over.

## Main results

* `PdSession.pollLosesNothing_iff`: a poll that does not keep its events loses one.
* `completions_reported`: the run theorem for polls that keep their events.
-/

namespace SglangRs

section Prefill

variable {S R L N : Type} [Sha256] [KvTransferTargetResolver R] [KvTransferSubmitter S]
  [KvTransferStatusReader S] [KvBatchReleaser S] [KvMemoryRegistrationLease L]

/-- The inner executor with the record of its operations. -/
instance : KvInnerExecutor (Session S R L) where
  insertRemoteKvSessionLayout s room sessionId layout :=
    s.step (.insertRemoteKvSessionLayout room sessionId layout)
  submit s span := (s.step (.submit span), (s.executor.submit span).2)
  poll s := (s.step .poll, s.executor.pollSubmittedTransfers.2)
  cancel s fuel room :=
    (s.step (.cancel fuel room), (s.executor.cancelSubmittedTransfersForRoom fuel room).2)
  shutdown s fuel := (s.step (.shutdown fuel), (s.executor.shutdown fuel).2)

/-! ### Operations of the inner executor that return no events -/

namespace KvCacheTransferExecutor

variable (x : KvCacheTransferExecutor (Recorded S) R L) {event : KvTransferCompletionEvent}

omit [Sha256] [KvTransferTargetResolver R] [KvTransferSubmitter S] [KvMemoryRegistrationLease L] in
theorem completionEvents_drainRoom (fuel : ℕ) (room : BootstrapRoom) (n : ℕ) :
    (drainRoom fuel room n x).1.completionEvents = x.completionEvents := by
  induction n generalizing x with
  | zero => rfl
  | succ n ih =>
      rw [drainRoom]
      split
      · rfl
      · split
        · rfl
        · split
          · rfl
          · rfl
          · split
            · rfl
            · rw [ih]
              rfl

omit [Sha256] [KvTransferTargetResolver R] [KvTransferSubmitter S] [KvMemoryRegistrationLease L] in
/-- A cancellation keeps the queued events of the other rooms. -/
theorem queued_cancel (fuel : ℕ) (room : BootstrapRoom) (h : event ∈ x.completionEvents)
    (hne : event.bootstrapRoom ≠ room) :
    event ∈ (x.cancelSubmittedTransfersForRoom fuel room).1.completionEvents := by
  have hdrain := x.completionEvents_drainRoom fuel room x.submittedTransfers.length
  rw [cancelSubmittedTransfersForRoom]
  split
  · next hresult =>
      rw [hresult] at hdrain
      exact List.mem_filter.2 ⟨hdrain ▸ h, by simpa using hne⟩
  · next hresult =>
      rw [hresult] at hdrain
      exact hdrain ▸ h

omit [Sha256] [KvTransferTargetResolver R] [KvTransferSubmitter S] [KvMemoryRegistrationLease L] in
theorem queued_cancelRooms (fuel : ℕ) (rooms : List BootstrapRoom) (h : event ∈ x.completionEvents)
    (hne : event.bootstrapRoom ∉ rooms) :
    event ∈ (cancelRooms fuel rooms x).1.completionEvents := by
  induction rooms generalizing x with
  | nil => exact h
  | cons room rooms ih =>
      obtain ⟨hroom, hrooms⟩ := not_or.1 (mt List.mem_cons.2 hne)
      have hcancel := x.queued_cancel fuel room h hroom
      rw [cancelRooms]
      split
      · next hresult => exact ih _ (by rwa [hresult] at hcancel) hrooms
      · next hresult => rwa [hresult] at hcancel

omit [Sha256] [KvTransferTargetResolver R] [KvTransferSubmitter S] in
theorem queued_shutdown (fuel : ℕ) (h : event ∈ x.completionEvents)
    (hne : event.bootstrapRoom ∉ x.submittedTransfers.map (·.bootstrapRoom)) :
    event ∈ (x.shutdown fuel).1.completionEvents := by
  have hcancel := x.queued_cancelRooms fuel _ h hne
  rw [shutdown]
  split
  · next hresult =>
      rw [hresult] at hcancel
      split
      · exact hcancel
      · split <;> exact hcancel
  · next hresult => rwa [hresult] at hcancel

omit [KvTransferStatusReader S] [KvBatchReleaser S] [KvMemoryRegistrationLease L] in
theorem queued_submit (span : KvCacheTransferSpan) (h : event ∈ x.completionEvents) :
    event ∈ (x.submit span).1.completionEvents := by
  rw [submit]
  split
  · exact h
  · split
    · exact h
    · exact List.mem_append_left _ h
    · split <;> exact h

omit [Sha256] [KvTransferTargetResolver R] [KvTransferSubmitter S] [KvMemoryRegistrationLease L] in
/-- A poll returns the queued events. -/
theorem completionEvents_prefix_poll {poll : KvTransferPoll}
    (h : x.pollSubmittedTransfers.2 = .ok poll) : x.completionEvents <+: poll.events := by
  rw [pollSubmittedTransfers] at h
  split at h
  · simp at h
  · next z hfrom =>
      obtain rfl := Except.ok.inj h
      exact (pollFrom_ok hfrom (Nat.zero_add _).ge).1

end KvCacheTransferExecutor

/-- Operations that return no events and cancel transfers of the given rooms only. -/
structure Session.Cancels (rooms : List BootstrapRoom) (s s' : Session S R L) : Prop where
  reaches : ∃ calls : List (ExecutorCall L), s' = calls.foldl Session.step s
  returned_eq : s'.returned = s.returned
  cancelled : ∀ span ∈ s'.cancelled, span ∈ s.cancelled ∨ span.bootstrapRoom ∈ rooms
  queued : ∀ event ∈ s.executor.completionEvents, event.bootstrapRoom ∉ rooms →
    event ∈ s'.executor.completionEvents

namespace Session.Cancels

variable {rooms rooms' : List BootstrapRoom} {s s' s'' : Session S R L}

theorem refl (rooms : List BootstrapRoom) (s : Session S R L) : Cancels rooms s s :=
  ⟨⟨[], rfl⟩, rfl, fun _ h => .inl h, fun _ h _ => h⟩

theorem trans (h : Cancels rooms s s') (h' : Cancels rooms s' s'') : Cancels rooms s s'' := by
  obtain ⟨⟨calls, rfl⟩, hreturned, hcancelled, hqueued⟩ := h
  obtain ⟨⟨calls', rfl⟩, hreturned', hcancelled', hqueued'⟩ := h'
  refine ⟨⟨calls ++ calls', by rw [List.foldl_append]⟩, hreturned'.trans hreturned, ?_,
    fun event hevent hnot => hqueued' event (hqueued event hevent hnot) hnot⟩
  intro span hspan
  obtain hspan | hspan := hcancelled' span hspan
  · exact hcancelled span hspan
  · exact .inr hspan

theorem mono (h : Cancels rooms s s') (hsub : rooms ⊆ rooms') : Cancels rooms' s s' :=
  ⟨h.reaches, h.returned_eq, fun span hspan => (h.cancelled span hspan).imp_right (@hsub _),
    fun event hevent hnot => h.queued event hevent fun hmem => hnot (hsub hmem)⟩

theorem cancel (s : Session S R L) (fuel : ℕ) {room : BootstrapRoom} (hroom : room ∈ rooms) :
    Cancels rooms s (s.step (.cancel fuel room)) := by
  refine ⟨⟨[.cancel fuel room], rfl⟩, rfl, fun span hspan => ?_, fun event hevent hnot =>
    s.executor.queued_cancel fuel room hevent fun h => hnot (h ▸ hroom)⟩
  obtain hspan | hspan := List.mem_append.1 hspan
  · exact .inl hspan
  · obtain rfl : span.bootstrapRoom = room := by simpa using (List.mem_filter.1 hspan).2
    exact .inr hroom

theorem submit (s : Session S R L) (span : KvCacheTransferSpan) :
    Cancels rooms s (s.step (.submit span)) := by
  refine ⟨⟨[.submit span], rfl⟩, ?_, fun span' hspan => .inl ?_, fun event hevent _ => ?_⟩
  · simp only [Session.step]
    split <;> rfl
  · simp only [Session.step] at hspan
    split at hspan <;> exact hspan
  · have hqueued := s.executor.queued_submit span hevent
    simp only [Session.step]
    split
    · next hresult => rwa [hresult] at hqueued
    · next hresult => rwa [hresult] at hqueued

theorem insertLayouts (s : Session S R L) (room : BootstrapRoom) (layouts : SessionLayouts) :
    Cancels rooms s (layouts.foldl (fun inner entry =>
      KvInnerExecutor.insertRemoteKvSessionLayout inner room entry.1 entry.2) s) := by
  induction layouts generalizing s with
  | nil => exact refl rooms s
  | cons entry layouts ih =>
      refine trans ⟨⟨[.insertRemoteKvSessionLayout room entry.1 entry.2], rfl⟩, rfl, ?_, ?_⟩ (ih _)
      · exact fun span hspan => .inl hspan
      · exact fun event hevent _ => hevent

theorem shutdown (s : Session S R L) (fuel : ℕ)
    (hrooms : s.executor.submittedTransfers.map (·.bootstrapRoom) ⊆ rooms) :
    Cancels rooms s (s.step (.shutdown fuel)) := by
  refine ⟨⟨[.shutdown fuel], rfl⟩, rfl, fun span hspan => ?_, fun event hevent hnot =>
    s.executor.queued_shutdown fuel hevent fun h => hnot (hrooms h)⟩
  obtain hspan | hspan := List.mem_append.1 hspan
  · exact .inl hspan
  · exact .inr (hrooms (by simpa using (List.mem_filter.1 hspan).2))

end Session.Cancels

/-! ### Operations of the prefill worker -/

namespace PdBootstrapKvCacheTransferExecutor

variable [ControlSender N] (x : PdBootstrapKvCacheTransferExecutor (Session S R L) N)

variable {x} in
/-- What an operation that returns no events does: it cancels transfers of the given rooms only, and
the other rooms stay active. -/
structure Dismisses (rooms : List BootstrapRoom)
    (x y : PdBootstrapKvCacheTransferExecutor (Session S R L) N) : Prop where
  inner : x.inner.Cancels rooms y.inner
  aborted_eq : y.bootstrapService.abortedRooms = x.bootstrapService.abortedRooms
  active : ∀ room ∈ x.bootstrapService.activeRooms, room ∉ rooms →
    room ∈ y.bootstrapService.activeRooms

omit [ControlSender N] in
theorem Dismisses.refl (rooms : List BootstrapRoom) : Dismisses rooms x x :=
  ⟨.refl rooms _, rfl, fun _ h _ => h⟩

variable {x} {y z : PdBootstrapKvCacheTransferExecutor (Session S R L) N}
  {rooms rooms' : List BootstrapRoom}

omit [ControlSender N] in
theorem Dismisses.trans (h : Dismisses rooms x y) (h' : Dismisses rooms y z) :
    Dismisses rooms x z :=
  ⟨h.inner.trans h'.inner, h'.aborted_eq.trans h.aborted_eq,
    fun room hroom hnot => h'.active room (h.active room hroom hnot) hnot⟩

variable (x)

theorem dismisses_dismiss (fuel : ℕ) (room : BootstrapRoom) (reason : String)
    (hroom : room ∈ rooms) : Dismisses rooms x (x.dismiss fuel room reason).1 := by
  have hinner : x.inner.Cancels rooms (KvInnerExecutor.cancel x.inner fuel room).1 :=
    .cancel x.inner fuel hroom
  obtain ⟨network, result, -, hdismiss⟩ | ⟨network, hdismiss⟩ := x.dismiss_cases fuel room reason
  · rw [hdismiss]
    exact ⟨hinner, rfl, fun _ h _ => h⟩
  · rw [hdismiss]
    refine ⟨hinner, rfl, fun other hother hnot => Finset.mem_erase.2 ⟨?_, hother⟩⟩
    rintro rfl
    exact hnot hroom

theorem dismisses_cancelAll (fuel : ℕ) (keys : List BootstrapRoom) (hkeys : keys ⊆ rooms) :
    Dismisses rooms x (cancelAll fuel keys x).1 := by
  induction keys generalizing x with
  | nil => exact .refl x rooms
  | cons room keys ih =>
      have hfirst : Dismisses rooms x (x.cancel fuel room).1 :=
        x.dismisses_dismiss fuel room _ (hkeys List.mem_cons_self)
      rw [cancelAll]
      rcases hcancel : x.cancel fuel room with ⟨y, _ | error | ⟨⟩⟩
      · simpa only [hcancel] using hfirst
      · simpa only [hcancel] using hfirst
      · rw [hcancel] at hfirst
        exact hfirst.trans (ih y fun _ h => hkeys (List.mem_cons_of_mem _ h))

/-- The rooms that a shutdown cancels. -/
def shutdownRooms (fuel : ℕ) : List BootstrapRoom :=
  x.pendingTokens.keys ++
    (cancelAll fuel x.pendingTokens.keys x).1.inner.executor.submittedTransfers.map
      (·.bootstrapRoom)

theorem dismisses_shutdown (fuel : ℕ) : Dismisses (x.shutdownRooms fuel) x (x.shutdown fuel).1 := by
  have hall : Dismisses (x.shutdownRooms fuel) x (cancelAll fuel x.pendingTokens.keys x).1 :=
    x.dismisses_cancelAll fuel _ (List.subset_append_left _ _)
  have hrooms : (cancelAll fuel x.pendingTokens.keys x).1.inner.executor.submittedTransfers.map
      (·.bootstrapRoom) ⊆ x.shutdownRooms fuel := List.subset_append_right _ _
  rw [shutdown]
  rcases hcancel : cancelAll fuel x.pendingTokens.keys x with ⟨y, _ | error | ⟨⟩⟩
  · rwa [hcancel] at hall
  · rwa [hcancel] at hall
  · rw [hcancel] at hall hrooms
    exact hall.trans ⟨.shutdown y.inner fuel hrooms, rfl, fun _ h _ => h⟩

omit [ControlSender N] in
theorem dismisses_admit (span : KvCacheTransferSpan) (layouts : SessionLayouts) :
    Dismisses rooms x (x.admitted span layouts) :=
  ⟨.insertLayouts x.inner span.bootstrapRoom layouts, rfl,
    fun _ h _ => Finset.mem_insert_of_mem h⟩

/-- A submission that is accepted dismisses nothing. -/
theorem dismisses_submit (rooms : List BootstrapRoom) (fuel : ℕ) (span : KvCacheTransferSpan)
    (recurrentState : Option Bytes)
    (hrooms : (x.submit fuel span recurrentState).2 ≠ some (.ok ()) → span.bootstrapRoom ∈ rooms) :
    Dismisses rooms x (x.submit fuel span recurrentState).1 := by
  rw [submit] at hrooms ⊢
  cases hlayouts : x.remoteKvLayoutsForRoom span.bootstrapRoom with
  | error error => exact .refl x rooms
  | ok layouts =>
      simp only [hlayouts] at hrooms ⊢
      split_ifs at hrooms ⊢ with haborted
      · exact .refl x rooms
      · have hsubmit : Dismisses rooms x { x.admitted span layouts with
            inner := (KvInnerExecutor.submit (x.admitted span layouts).inner span).1 } :=
          (x.dismisses_admit span layouts).trans ⟨.submit _ span, rfl, fun _ h _ => h⟩
        rcases hresult : KvInnerExecutor.submit (x.admitted span layouts).inner span with
          ⟨inner, error | ⟨⟩⟩
        · simp only [hresult] at hrooms hsubmit ⊢
          have hremember : Dismisses rooms x (remember { x.admitted span layouts with inner } span
              recurrentState) := ⟨hsubmit.inner, hsubmit.aborted_eq, hsubmit.active⟩
          have hdismiss := hremember.trans ∘ dismisses_dismiss
            (remember { x.admitted span layouts with inner } span recurrentState) fuel
            span.bootstrapRoom error.display
          rcases hcase : dismiss (remember { x.admitted span layouts with inner } span recurrentState)
            fuel span.bootstrapRoom error.display with ⟨z, _ | failure | ⟨⟩⟩
          · simp only [hcase] at hrooms hdismiss ⊢
            exact hdismiss (hrooms (by simp))
          · simp only [hcase] at hrooms hdismiss ⊢
            exact hdismiss (hrooms (by simp))
          · simp only [hcase] at hrooms hdismiss ⊢
            exact hdismiss (hrooms (by simp))
        · simp only [hresult] at hsubmit ⊢
          exact ⟨hsubmit.inner, hsubmit.aborted_eq, hsubmit.active⟩

/-! ### Polls -/

/-- What draining the rooms that were aborted does: some of them, `done`, are drained and forgotten,
and draining the next one has failed unless there is none. -/
theorem drainAborted_spec (fuel : ℕ) (aborted : List BootstrapRoom)
    (canceled : List KvTransferCompletionEvent) :
    ∃ done rest y result, aborted = done ++ rest ∧
      drainAborted fuel aborted canceled x = (y, canceled ++ done.map canceledEvent, result) ∧
      (result = some (.ok ()) ↔ rest = []) ∧
      (∀ room ∈ aborted.head?, done = [] ↔
        (x.dismiss fuel room "decode aborted the transfer").2 ≠ some (.ok ())) ∧
      x.inner.Cancels aborted y.inner ∧
      y.bootstrapService.abortedRooms = x.bootstrapService.abortedRooms ∧
      y.bootstrapService.activeRooms = x.bootstrapService.activeRooms \ done.toFinset := by
  induction aborted generalizing x canceled with
  | nil =>
      refine ⟨[], [], x, some (.ok ()), rfl, ?_, by simp, by simp, .refl _ _, rfl, by simp⟩
      simp [drainAborted]
  | cons room aborted ih =>
      have hinner : x.inner.Cancels (room :: aborted) (KvInnerExecutor.cancel x.inner fuel room).1 :=
        .cancel x.inner fuel List.mem_cons_self
      obtain ⟨network, result, hresult, hdismiss⟩ | ⟨network, hdismiss⟩ :=
        x.dismiss_cases fuel room "decode aborted the transfer"
      · have hdrain : drainAborted fuel (room :: aborted) canceled x =
            ((x.dismiss fuel room "decode aborted the transfer").1, canceled, result) := by
          rw [drainAborted, hdismiss]
          rcases result with _ | _ | ⟨⟨⟩⟩
          · rfl
          · rfl
          · exact absurd rfl hresult
        refine ⟨[], room :: aborted, _, result, rfl, by simpa using hdrain, by simpa using hresult, ?_⟩
        rw [List.head?_cons, hdismiss]
        exact ⟨by simp [hdismiss, hresult], hinner, rfl, by simp⟩
      · obtain ⟨done, rest, y, result, rfl, hdrain, hresult, -, hcancels, haborted, hactive⟩ :=
          ih (clearRoom { x with inner := (KvInnerExecutor.cancel x.inner fuel room).1, network } room)
            (canceled ++ [canceledEvent room])
        refine ⟨room :: done, rest, y, result, rfl, ?_, hresult, by simp [hdismiss],
          hinner.trans (hcancels.mono fun _ h => List.mem_cons_of_mem _ h), haborted, ?_⟩
        · rw [drainAborted, hdismiss]
          simp [hdrain]
        · rw [hactive]
          ext other
          simp only [clearRoom, List.toFinset_cons, Finset.mem_sdiff, Finset.mem_erase,
            Finset.mem_insert]
          tauto

omit [KvTransferTargetResolver R] [KvTransferSubmitter S] [KvTransferStatusReader S]
  [KvBatchReleaser S] [KvMemoryRegistrationLease L] [Sha256] in
/-- Notifying the rooms of events changes no transfer. -/
theorem notifyEvents_spec (events : List KvTransferCompletionEvent) :
    (notifyEvents events x).1.inner = x.inner ∧
      (notifyEvents events x).1.bootstrapService.abortedRooms = x.bootstrapService.abortedRooms ∧
      (notifyEvents events x).1.bootstrapService.activeRooms ⊆ x.bootstrapService.activeRooms := by
  induction events generalizing x with
  | nil => exact ⟨rfl, rfl, subset_rfl⟩
  | cons event events ih =>
      rw [notifyEvents]
      obtain ⟨network, failure, hnotify⟩ | ⟨network, hnotify⟩ :=
        x.notifyRoom_cases event.bootstrapRoom (eventError event.status)
      · rw [hnotify]
        exact ⟨rfl, rfl, subset_rfl⟩
      · rw [hnotify]
        obtain ⟨hinner, haborted, hactive⟩ := ih (clearRoom { x with network } event.bootstrapRoom)
        exact ⟨hinner, haborted, hactive.trans (Finset.erase_subset _ _)⟩

/-- The first thing that the poll does to the transfers fails: to drain the first of the active
rooms that were aborted or, if there is none, to poll the inner executor. -/
def FailsFirst (fuel : ℕ) : Prop :=
  match x.abortedActive with
  | [] => ∃ error, (KvInnerExecutor.poll x.inner).2 = .error error
  | room :: _ => (x.dismiss fuel room "decode aborted the transfer").2 ≠ some (.ok ())

/-- Nothing that the poll does fails: the active rooms that were aborted are drained, the inner
executor is polled, and the rooms of all its events are notified. -/
def Unobstructed (fuel : ℕ) : Prop :=
  ∃ y canceled inner poll z, drainAborted fuel x.abortedActive [] x = (y, canceled, some (.ok ())) ∧
    KvInnerExecutor.poll y.inner = (inner, .ok poll) ∧
    notifyEvents poll.events { y with inner } = (z, .ok ())

/-- The events that a poll returns. -/
def pollEvents : Option (Except KvCacheTransferError KvTransferPoll) →
    List KvTransferCompletionEvent
  | some (.ok poll) => poll.events
  | _ => []

/-- What a poll does: the inner executor has returned the events `handed` to it. -/
structure Polls (x y : PdBootstrapKvCacheTransferExecutor (Session S R L) N)
    (handed : List KvTransferCompletionEvent) : Prop where
  reaches : ∃ calls : List (ExecutorCall L), y.inner = calls.foldl Session.step x.inner
  returned_eq : y.inner.returned = x.inner.returned ++ handed
  cancelled : ∀ span ∈ y.inner.cancelled,
    span ∈ x.inner.cancelled ∨ span.bootstrapRoom ∈ x.abortedActive
  aborted_eq : y.bootstrapService.abortedRooms = x.bootstrapService.abortedRooms

omit [ControlSender N] in
theorem Polls.of_cancels {x y : PdBootstrapKvCacheTransferExecutor (Session S R L) N}
    (h : x.inner.Cancels x.abortedActive y.inner)
    (haborted : y.bootstrapService.abortedRooms = x.bootstrapService.abortedRooms) :
    Polls x y [] :=
  ⟨h.reaches, by simp [h.returned_eq], h.cancelled, haborted⟩

theorem step_poll_of_ok {s : Session S R L} {poll : KvTransferPoll}
    (h : s.executor.pollSubmittedTransfers.2 = .ok poll) :
    (s.step .poll).returned = s.returned ++ poll.events ∧
      (s.step .poll).cancelled = s.cancelled := by
  simp only [Session.step]
  rcases hpoll : s.executor.pollSubmittedTransfers with ⟨executor, error | poll'⟩
  · simp [hpoll] at h
  · rw [hpoll] at h
    obtain rfl : poll' = poll := by simpa using h
    exact ⟨rfl, rfl⟩

theorem step_poll_of_error {s : Session S R L} {error : KvCacheTransferError}
    (h : s.executor.pollSubmittedTransfers.2 = .error error) :
    (s.step .poll).returned = s.returned ∧ (s.step .poll).cancelled = s.cancelled := by
  simp only [Session.step]
  rcases hpoll : s.executor.pollSubmittedTransfers with ⟨executor, error' | poll⟩
  · exact ⟨rfl, rfl⟩
  · simp [hpoll] at h

omit [ControlSender N] in
/-- A drained executor and a poll of its inner executor. -/
theorem Polls.of_step {x y z : PdBootstrapKvCacheTransferExecutor (Session S R L) N}
    {handed : List KvTransferCompletionEvent} (h : x.inner.Cancels x.abortedActive y.inner)
    (hinner : z.inner = y.inner.step .poll)
    (hstep : (y.inner.step .poll).returned = y.inner.returned ++ handed ∧
      (y.inner.step .poll).cancelled = y.inner.cancelled)
    (haborted : z.bootstrapService.abortedRooms = x.bootstrapService.abortedRooms) :
    Polls x z handed := by
  obtain ⟨calls, hcalls⟩ := h.reaches
  refine ⟨⟨calls ++ [.poll], ?_⟩, ?_, ?_, haborted⟩
  · rw [hinner, hcalls, List.foldl_append]
    rfl
  · rw [hinner, hstep.1, h.returned_eq]
  · rw [hinner, hstep.2]
    exact h.cancelled

/-- **What becomes of the events of a poll.** If nothing fails they are returned, with an event for
every room that was drained. If the first thing fails nothing has been taken over, and the rooms to
be drained are still there. In all other cases a room has been drained, or events have been taken
over, and nothing is returned. -/
theorem poll_cases (fuel : ℕ) : ∃ y result handed, x.poll fuel = (y, result) ∧ Polls x y handed ∧
    ((x.Unobstructed fuel ∧ pollEvents result = handed ++ x.abortedActive.map canceledEvent) ∨
      (x.FailsFirst fuel ∧ handed = [] ∧ pollEvents result = [] ∧
        ∀ room ∈ x.abortedActive, room ∈ y.bootstrapService.activeRooms) ∨
      (¬ x.Unobstructed fuel ∧ ¬ x.FailsFirst fuel ∧ pollEvents result = [] ∧
        (handed ≠ [] ∨ ∃ room ∈ x.abortedActive, room ∉ y.bootstrapService.activeRooms))) := by
  obtain ⟨done, rest, y, result, hsplit, hdrain, hresult, hfirst, hcancels, haborted, hactive⟩ :=
    x.drainAborted_spec fuel x.abortedActive []
  rw [List.nil_append] at hdrain
  -- a room that was drained is not active after the poll
  have hgone : ∀ z : PdBootstrapKvCacheTransferExecutor (Session S R L) N,
      z.bootstrapService.activeRooms ⊆ y.bootstrapService.activeRooms → done ≠ [] →
        ∃ room ∈ x.abortedActive, room ∉ z.bootstrapService.activeRooms := by
    intro z hz hne
    obtain ⟨room, hroom⟩ := List.exists_mem_of_ne_nil done hne
    refine ⟨room, by simp [hsplit, hroom], fun hmem => ?_⟩
    have := hz hmem
    rw [hactive] at this
    simp [hroom] at this
  have hfails : x.FailsFirst fuel ↔
      done = [] ∧ (rest ≠ [] ∨ ∃ error, (KvInnerExecutor.poll x.inner).2 = .error error) := by
    rw [FailsFirst]
    cases hhead : x.abortedActive with
    | nil =>
        obtain ⟨rfl, rfl⟩ := List.append_eq_nil_iff.1 (hsplit.symm.trans hhead)
        simp
    | cons room rooms =>
        refine (hfirst room (by simp [hhead])).symm.trans ⟨fun h => ⟨h, .inl ?_⟩, And.left⟩
        rintro rfl
        simp [hhead, h] at hsplit
  by_cases hrest : rest = []
  · -- all rooms that were aborted are drained
    subst hrest
    rw [List.append_nil] at hsplit
    obtain rfl := hresult.2 rfl
    have hsame : done = [] → y = x := by
      intro h
      rw [hsplit, h] at hdrain
      exact (congrArg Prod.fst hdrain).symm
    have hpoll : x.poll fuel = ((y.pollInner (done.map canceledEvent)).1,
        some (y.pollInner (done.map canceledEvent)).2) := by
      rw [poll, hdrain]
    rw [pollInner] at hpoll
    rcases hinner : KvInnerExecutor.poll y.inner with ⟨inner, error | poll⟩
    · have hstep := step_poll_of_error (congrArg Prod.snd hinner)
      rw [hinner] at hpoll
      refine ⟨_, _, [], hpoll, .of_step hcancels (congrArg Prod.fst hinner).symm (by simpa using hstep)
        haborted, ?_⟩
      by_cases hdone : done = []
      · refine .inr (.inl ⟨hfails.2 ⟨hdone, .inr ⟨error, ?_⟩⟩, rfl, rfl, ?_⟩)
        · rw [← hsame hdone, hinner]
        · simp [hsplit, hdone]
      · refine .inr (.inr ⟨?_, fun h => hdone (hfails.1 h).1, rfl, .inr (hgone _ subset_rfl hdone)⟩)
        rintro ⟨y', canceled, inner', poll, z, hdrain', hinner', -⟩
        obtain ⟨rfl, -⟩ := Prod.mk.inj (hdrain.symm.trans hdrain')
        simp [hinner] at hinner'
    · have hstep := step_poll_of_ok (congrArg Prod.snd hinner)
      obtain ⟨hninner, hnaborted, hnactive⟩ := notifyEvents_spec { y with inner } poll.events
      rw [hinner] at hpoll
      have hpolls : Polls x (notifyEvents poll.events { y with inner }).1 poll.events :=
        .of_step hcancels (hninner.trans (congrArg Prod.fst hinner).symm) hstep
          (hnaborted.trans haborted)
      rcases hnotify : notifyEvents poll.events { y with inner } with ⟨z, error | ⟨⟩⟩
      · rw [hnotify] at hpolls hnactive
        simp only [hnotify] at hpoll
        refine ⟨z, _, poll.events, hpoll, hpolls, .inr (.inr ⟨?_, ?_, rfl, .inl ?_⟩)⟩
        · rintro ⟨y', canceled, inner', poll', z', hdrain', hinner', hnotify'⟩
          obtain ⟨rfl, -⟩ := Prod.mk.inj (hdrain.symm.trans hdrain')
          obtain ⟨rfl, hpoll'⟩ := Prod.mk.inj (hinner.symm.trans hinner')
          obtain rfl : poll = poll' := by simpa using hpoll'
          simp [hnotify] at hnotify'
        · rw [hfails]
          rintro ⟨hdone, h | ⟨error, h⟩⟩
          · exact h rfl
          · rw [← hsame hdone, hinner] at h
            simp at h
        · intro hempty
          rw [hempty] at hnotify
          simp [notifyEvents] at hnotify
      · rw [hnotify] at hpolls
        simp only [hnotify] at hpoll
        refine ⟨z, _, poll.events, hpoll, hpolls, .inl ⟨?_, ?_⟩⟩
        · exact ⟨y, _, inner, poll, z, hdrain, hinner, hnotify⟩
        · rw [hsplit]
          rfl
  · have hpoll : ∃ failure, x.poll fuel = (y, failure) ∧ pollEvents failure = [] := by
      rw [poll, hdrain]
      rcases result with _ | error | ⟨⟨⟩⟩
      · exact ⟨none, rfl, rfl⟩
      · exact ⟨some (.error error), rfl, rfl⟩
      · exact absurd (hresult.1 rfl) hrest
    obtain ⟨failure, hpoll, hevents⟩ := hpoll
    refine ⟨y, failure, [], hpoll, .of_cancels hcancels haborted, .inr ?_⟩
    by_cases hdone : done = []
    · refine .inl ⟨hfails.2 ⟨hdone, .inl hrest⟩, rfl, hevents, fun room hroom => ?_⟩
      rw [hactive, hdone]
      simpa using ((x.mem_abortedActive).1 hroom).1
    · refine .inr ⟨?_, fun h => hdone (hfails.1 h).1, hevents, .inr (hgone y subset_rfl hdone)⟩
      rintro ⟨y', canceled, inner, poll, z, hdrain', -⟩
      have hok : result = some (.ok ()) :=
        congrArg (fun r => r.2.2) (hdrain.symm.trans hdrain')
      exact hrest (hresult.1 hok)

end PdBootstrapKvCacheTransferExecutor

/-! ### Runs -/

/-- The calls that the executor of a prefill worker receives, and the messages that its bootstrap
service receives in between. -/
inductive PdCall (L : Type) where
  | register (registration : Except KvCacheTransferError L)
  | message (message : Received)
  | submit (fuel : ℕ) (span : KvCacheTransferSpan) (recurrentState : Option Bytes)
  | poll (fuel : ℕ)
  | cancel (fuel : ℕ) (room : BootstrapRoom)
  | shutdown (fuel : ℕ)

/-- An executor with the events that its polls have returned, the rooms that a poll has found
aborted, and the rooms that were cancelled otherwise: by the caller, or after a submission that
failed. -/
structure PdSession (S R L N : Type) where
  executor : PdBootstrapKvCacheTransferExecutor (Session S R L) N
  returned : List KvTransferCompletionEvent := []
  drained : List BootstrapRoom := []
  dismissed : List BootstrapRoom := []

namespace PdSession

open PdBootstrapKvCacheTransferExecutor

variable [ControlSender N]

/-- One call. -/
def step (s : PdSession S R L N) : PdCall L → PdSession S R L N
  | .register registration =>
      { s with executor :=
          { s.executor with inner := s.executor.inner.step (.register registration) } }
  | .message message =>
      { s with executor :=
          { s.executor with bootstrapService := s.executor.bootstrapService.handled message } }
  | .submit fuel span recurrentState =>
      { s with
        executor := (s.executor.submit fuel span recurrentState).1
        dismissed := match (s.executor.submit fuel span recurrentState).2 with
          | some (.ok ()) => s.dismissed
          | _ => s.dismissed ++ [span.bootstrapRoom] }
  | .poll fuel =>
      { s with
        executor := (s.executor.poll fuel).1
        returned := s.returned ++ pollEvents (s.executor.poll fuel).2
        drained := s.drained ++ s.executor.abortedActive }
  | .cancel fuel room =>
      { s with
        executor := (s.executor.cancel fuel room).1
        dismissed := s.dismissed ++ [room] }
  | .shutdown fuel =>
      { s with
        executor := (s.executor.shutdown fuel).1
        dismissed := s.dismissed ++ s.executor.shutdownRooms fuel }

/-- Nothing fails in a poll, or the first thing that it does fails. -/
def PollKeeps (s : PdSession S R L N) : PdCall L → Prop
  | .poll fuel => s.executor.Unobstructed fuel ∨ s.executor.FailsFirst fuel
  | _ => True

/-- All events that the poll takes over are returned by it, and every active room that was aborted
stays active or has its event returned. -/
def PollLosesNothing (s : PdSession S R L N) (fuel : ℕ) : Prop :=
  ∃ handed new,
    (s.step (.poll fuel)).executor.inner.returned = s.executor.inner.returned ++ handed ∧
    (s.step (.poll fuel)).returned = s.returned ++ new ∧ handed ⊆ new ∧
    ∀ room ∈ s.executor.abortedActive,
      room ∈ (s.step (.poll fuel)).executor.bootstrapService.activeRooms ∨ canceledEvent room ∈ new

/-- **Which polls lose an event.** A poll that fails after it has drained a room or has been handed
events loses something, and every other poll loses nothing. -/
theorem pollLosesNothing_iff (s : PdSession S R L N) (fuel : ℕ) :
    s.PollLosesNothing fuel ↔ s.PollKeeps (.poll fuel) := by
  obtain ⟨y, result, handed, hpoll, hpolls, hcases⟩ := s.executor.poll_cases fuel
  have hexecutor : (s.step (.poll fuel)).executor = y := by simp [step, hpoll]
  have hreturned : (s.step (.poll fuel)).returned = s.returned ++ pollEvents result := by
    simp [step, hpoll]
  rw [PollLosesNothing, hexecutor, hreturned, hpolls.returned_eq]
  simp only [List.append_cancel_left_eq]
  constructor
  · rintro ⟨_, _, rfl, rfl, hsub, hrooms⟩
    obtain ⟨h, -⟩ | ⟨h, -⟩ | ⟨-, -, hevents, hlost⟩ := hcases
    · exact .inl h
    · exact .inr h
    · rw [hevents] at hsub hrooms
      obtain hne | ⟨room, hroom, hnot⟩ := hlost
      · exact absurd (List.subset_nil.1 hsub) hne
      · obtain h | h := hrooms room hroom
        · exact absurd h hnot
        · simp at h
  · intro hkeeps
    refine ⟨handed, pollEvents result, rfl, rfl, ?_⟩
    obtain ⟨-, hevents⟩ | ⟨-, rfl, -, hactive⟩ | ⟨h₁, h₂, -⟩ := hcases
    · rw [hevents]
      exact ⟨List.subset_append_left _ _, fun room hroom =>
        .inr (List.mem_append_right _ (List.mem_map_of_mem hroom))⟩
    · exact ⟨List.nil_subset _, fun room hroom => .inl (hactive room hroom)⟩
    · exact (hkeeps.elim h₁ h₂).elim

/-- The events that the inner executor has returned were returned by polls, and the transfers that
were cancelled belong to rooms whose event was returned, that are still to be drained, or that were
cancelled by the caller. -/
structure Reported (s : PdSession S R L N) : Prop where
  accounts : ∃ c, s.executor.inner.Accounts c
  returned : (s.executor.inner.returned : Multiset KvTransferCompletionEvent) ≤ s.returned
  cancelled : ∀ span ∈ s.executor.inner.cancelled,
    span.bootstrapRoom ∈ s.drained ∨ span.bootstrapRoom ∈ s.dismissed
  drained : ∀ room ∈ s.drained, canceledEvent room ∈ s.returned ∨
    room ∈ s.executor.abortedActive ∨ room ∈ s.dismissed

variable {s : PdSession S R L N}

omit [ControlSender N] in
theorem Reported.dismisses (h : s.Reported) {rooms : List BootstrapRoom}
    {y : PdBootstrapKvCacheTransferExecutor (Session S R L) N}
    (hy : Dismisses rooms s.executor y) :
    Reported { s with executor := y, dismissed := s.dismissed ++ rooms } := by
  obtain ⟨c, hc⟩ := h.accounts
  obtain ⟨calls, hcalls⟩ := hy.inner.reaches
  refine ⟨?_, ?_, fun span hspan => ?_, fun room hroom => ?_⟩
  · show ∃ c, y.inner.Accounts c
    rw [hcalls]
    exact Session.accounts_run _ c hc calls
  · show (y.inner.returned : Multiset KvTransferCompletionEvent) ≤ s.returned
    rw [hy.inner.returned_eq]
    exact h.returned
  · obtain hspan | hspan := hy.inner.cancelled span hspan
    · exact (h.cancelled span hspan).imp_right (List.mem_append_left _)
    · exact .inr (List.mem_append_right _ hspan)
  · obtain hroom | hroom | hroom := h.drained room hroom
    · exact .inl hroom
    · obtain ⟨hactive, haborted⟩ := (mem_abortedActive _).1 hroom
      by_cases hmem : room ∈ rooms
      · exact .inr (.inr (List.mem_append_right _ hmem))
      · refine .inr (.inl ((mem_abortedActive _).2 ⟨hy.active room hactive hmem, ?_⟩))
        show room ∈ y.bootstrapService.abortedRooms
        rwa [hy.aborted_eq]
    · exact .inr (.inr (List.mem_append_left _ hroom))

theorem Reported.message (h : s.Reported) (message : Received) :
    (s.step (.message message)).Reported := by
  obtain ⟨hactive, haborted⟩ := s.executor.bootstrapService.handled_spec message
  refine ⟨h.accounts, h.returned, h.cancelled, fun room hroom => ?_⟩
  refine (h.drained room hroom).imp_right (Or.imp_left fun hmem => ?_)
  obtain ⟨h₁, h₂⟩ := (mem_abortedActive _).1 hmem
  exact (mem_abortedActive _).2 ⟨hactive.symm ▸ h₁, haborted h₂⟩

theorem Reported.poll (h : s.Reported) {fuel : ℕ} (hkeeps : s.PollKeeps (.poll fuel)) :
    (s.step (.poll fuel)).Reported := by
  obtain ⟨c, hc⟩ := h.accounts
  obtain ⟨y, result, handed, hpoll, hpolls, hcases⟩ := s.executor.poll_cases fuel
  have hstep : s.step (.poll fuel) = { s with
      executor := y
      returned := s.returned ++ pollEvents result
      drained := s.drained ++ s.executor.abortedActive } := by
    simp [step, hpoll]
  rw [hstep]
  obtain ⟨calls, hcalls⟩ := hpolls.reaches
  have hevents : ∃ more, pollEvents result = handed ++ more := by
    obtain ⟨-, hevents⟩ | ⟨-, rfl, hevents, -⟩ | ⟨h₁, h₂, -⟩ := hcases
    · exact ⟨_, hevents⟩
    · exact ⟨[], hevents⟩
    · exact (hkeeps.elim h₁ h₂).elim
  have hrooms : ∀ room ∈ s.executor.abortedActive, canceledEvent room ∈ pollEvents result ∨
      room ∈ y.abortedActive := by
    intro room hroom
    obtain ⟨-, hevents⟩ | ⟨-, -, -, hactive⟩ | ⟨h₁, h₂, -⟩ := hcases
    · rw [hevents]
      exact .inl (List.mem_append_right _ (List.mem_map_of_mem hroom))
    · refine .inr (y.mem_abortedActive.2 ⟨hactive room hroom, ?_⟩)
      rw [hpolls.aborted_eq]
      exact (s.executor.mem_abortedActive.1 hroom).2
    · exact (hkeeps.elim h₁ h₂).elim
  refine ⟨?_, ?_, fun span hspan => ?_, fun room hroom => ?_⟩
  · show ∃ c, y.inner.Accounts c
    rw [hcalls]
    exact Session.accounts_run _ c hc calls
  · obtain ⟨more, hmore⟩ := hevents
    show (y.inner.returned : Multiset KvTransferCompletionEvent) ≤
      (s.returned ++ pollEvents result : List KvTransferCompletionEvent)
    rw [hpolls.returned_eq, hmore, ← List.append_assoc, ← Multiset.coe_add, ← Multiset.coe_add,
      ← Multiset.coe_add]
    exact (add_le_add_left h.returned _).trans (Multiset.le_add_right _ _)
  · obtain hspan | hspan := hpolls.cancelled span hspan
    · exact (h.cancelled span hspan).imp_left (List.mem_append_left _)
    · exact .inl (List.mem_append_right _ hspan)
  · have hcase : canceledEvent room ∈ s.returned ∨ room ∈ s.executor.abortedActive ∨
        room ∈ s.dismissed := by
      obtain hroom | hroom := List.mem_append.1 hroom
      · exact h.drained room hroom
      · exact .inr (.inl hroom)
    obtain hroom | hroom | hroom := hcase
    · exact .inl (List.mem_append_left _ hroom)
    · obtain hroom | hroom := hrooms room hroom
      · exact .inl (List.mem_append_right _ hroom)
      · exact .inr (.inl hroom)
    · exact .inr (.inr hroom)

/-- Every call whose poll keeps its events keeps the account. -/
theorem Reported.step (h : s.Reported) (call : PdCall L) (hkeeps : s.PollKeeps call) :
    (s.step call).Reported := by
  cases call with
  | register registration =>
      obtain ⟨c, hc⟩ := h.accounts
      exact ⟨hc.step (.register registration), h.returned, h.cancelled, h.drained⟩
  | message message => exact h.message message
  | submit fuel span recurrentState =>
      have hsubmit := fun rooms => s.executor.dismisses_submit rooms fuel span recurrentState
      simp only [PdSession.step]
      split
      · next hok =>
          have := h.dismisses (hsubmit [] fun hne => absurd hok hne)
          simpa using this
      · exact h.dismisses (hsubmit [span.bootstrapRoom] fun _ => List.mem_singleton_self _)
  | poll fuel => exact h.poll hkeeps
  | cancel fuel room =>
      exact h.dismisses (s.executor.dismisses_dismiss fuel room _ (List.mem_singleton_self _))
  | shutdown fuel => exact h.dismisses (s.executor.dismisses_shutdown fuel)

/-- A new executor over the given transport and sockets. -/
def new (submitter : S) (layout : KvTransferLayout) (targetResolver : R) (network : N) :
    PdSession S R L N :=
  { executor := { inner := Session.new submitter layout targetResolver, network } }

omit [ControlSender N] [KvTransferTargetResolver R] [KvTransferSubmitter S]
  [KvTransferStatusReader S] [KvBatchReleaser S] [KvMemoryRegistrationLease L] in
theorem reported_new (submitter : S) (layout : KvTransferLayout) (targetResolver : R)
    (network : N) : (new submitter layout targetResolver network : PdSession S R L N).Reported :=
  ⟨⟨_, Session.accounts_new submitter layout targetResolver⟩, le_rfl, by simp [new, Session.new],
    by simp [new]⟩

/-- A poll that succeeds returns an event for every room that it drains, and the queued events of
the other rooms. -/
theorem poll_returns {fuel : ℕ} {y : PdBootstrapKvCacheTransferExecutor (Session S R L) N}
    {poll : KvTransferPoll} (h : s.executor.poll fuel = (y, some (.ok poll))) :
    (∀ room ∈ s.executor.abortedActive, canceledEvent room ∈ poll.events) ∧
      ∀ event ∈ s.executor.inner.executor.completionEvents,
        event.bootstrapRoom ∉ s.executor.abortedActive → event ∈ poll.events := by
  obtain ⟨done, rest, z, result, hsplit, hdrain, hresult, -, hcancels, -, -⟩ :=
    s.executor.drainAborted_spec fuel s.executor.abortedActive []
  rw [PdBootstrapKvCacheTransferExecutor.poll, hdrain] at h
  rcases result with _ | error | ⟨⟨⟩⟩
  · simp at h
  · simp at h
  · obtain rfl := hresult.1 rfl
    rcases hinner : KvInnerExecutor.poll z.inner with ⟨inner, error | inner_poll⟩
    · simp [pollInner, hinner] at h
    · rcases hnotify : notifyEvents inner_poll.events { z with inner } with ⟨w, error | ⟨⟩⟩
      · simp [pollInner, hinner, hnotify] at h
      · simp only [pollInner, hinner, hnotify, Prod.mk.injEq, Option.some.injEq,
          Except.ok.injEq] at h
        obtain ⟨-, rfl⟩ := h
        refine ⟨fun room hroom => ?_, fun event hevent hnot => ?_⟩
        · rw [List.append_nil] at hsplit
          exact List.mem_append_right _ (List.mem_map_of_mem (hsplit ▸ hroom))
        · have hqueued := hcancels.queued event hevent hnot
          exact List.mem_append_left _
            ((z.inner.executor.completionEvents_prefix_poll (congrArg Prod.snd hinner)).subset hqueued)

end PdSession

section Runs

open PdBootstrapKvCacheTransferExecutor

variable [ControlSender N]

/-- **What becomes of completions.** In any state a poll loses nothing if and only if it succeeds or
the first thing that it does fails. In a run in which every poll is such, the spans that the inner
executor has accepted divide into those whose batch is with the transport, those whose event is
queued, those whose event was returned by a poll of the prefill worker, and those that were
cancelled; and for a cancelled one an event of its room was returned, or the room is still to be
drained by the next poll, or it was cancelled by the caller or after a submission that failed. The
next poll that succeeds returns an event for every room to be drained and all queued events of the
other rooms.

Source: `sglang-srt/src/transfer/pd_bootstrap.rs`, lines 181–308. -/
theorem completions_reported (submitter : S) (layout : KvTransferLayout) (targetResolver : R)
    (network : N) :
    (∀ (s : PdSession S R L N) (fuel : ℕ), s.PollLosesNothing fuel ↔ s.PollKeeps (.poll fuel)) ∧
    ∀ calls : List (PdCall L),
      Transition.Along PdSession.step PdSession.PollKeeps
        (PdSession.new submitter layout targetResolver network) calls →
      let s := calls.foldl PdSession.step (PdSession.new submitter layout targetResolver network)
      (∃ c : SpanCustody,
        c.held + c.settled.map Prod.fst + c.delivered.map Prod.fst + c.withdrawn = c.items ∧
        c.items.map Parcel.span = s.executor.inner.submitted ∧
        c.held.map Parcel.batch? =
          (s.executor.inner.executor.submittedTransfers : Multiset KvSubmittedBatch).map some ∧
        c.settled.map (fun d => d.1.event d.2) = s.executor.inner.executor.completionEvents ∧
        c.delivered.map (fun d => d.1.event d.2) ≤ s.returned ∧
        ∀ p ∈ c.withdrawn, canceledEvent p.room ∈ s.returned ∨
          p.room ∈ s.executor.abortedActive ∨ p.room ∈ s.dismissed) ∧
      ∀ fuel y poll, s.executor.poll fuel = (y, some (.ok poll)) →
        (∀ room ∈ s.executor.abortedActive, canceledEvent room ∈ poll.events) ∧
        ∀ event ∈ s.executor.inner.executor.completionEvents,
          event.bootstrapRoom ∉ s.executor.abortedActive → event ∈ poll.events := by
  refine ⟨PdSession.pollLosesNothing_iff, fun calls hkeeps => ?_⟩
  intro s
  have hs : s.Reported := Transition.foldl_invariant (I := PdSession.Reported)
    (fun s call hcall hs => hs.step call hcall) hkeeps
    (PdSession.reported_new submitter layout targetResolver network)
  obtain ⟨c, hc⟩ := hs.accounts
  refine ⟨⟨c, ?_, hc.submitted_eq, hc.accounted.held_eq, hc.accounted.settled_eq, ?_, ?_⟩,
    fun fuel y poll hpoll => PdSession.poll_returns hpoll⟩
  · rw [Ledger.Custody.items, Ledger.Custody.released, ← add_assoc, ← add_assoc]
  · rw [hc.returned_eq]
    exact hs.returned
  · intro p hp
    have hspan : p.span ∈ s.executor.inner.cancelled :=
      Multiset.mem_coe.1 (Multiset.mem_of_le hc.cancelled_le (Multiset.mem_map_of_mem _ hp))
    obtain hroom | hroom := hs.cancelled p.span hspan
    · exact hs.drained p.room hroom
    · exact .inr (.inr hroom)

end Runs

end Prefill

/-! ### Two transfers that end in one poll -/

/-- The hash function of the crate `sha2`. -/
instance sha2 : Sha256 where
  digest message := Vector.ofFn fun i => (Sha.sha256 message).getD i 0

/-- A transport on which every transfer is completed. -/
structure PromptTransport where

instance : KvTransferSubmitter PromptTransport where
  submitTransfer s _ := (s, .ok 0)

instance : KvTransferStatusReader PromptTransport where
  transferStatus s _ _ := (s, .ok ⟨4, 0⟩)

instance : KvBatchReleaser PromptTransport where
  freeBatch s _ := (s, .ok ())

/-- A resolver that knows one target. -/
structure OneTarget where

instance : KvTransferTargetResolver OneTarget where
  resolveTarget r _ := (r, .ok ⟨0⟩)
  resolveSessionTarget r _ _ := (r, .ok ⟨0⟩)

structure PlainLease where

instance : KvMemoryRegistrationLease PlainLease where
  unregister l := (l, .ok ())

/-- Sockets that reach every endpoint but one. -/
structure OneUnreachable where
  endpoint : String

instance : ControlSender OneUnreachable where
  sendFrames n endpoint _ :=
    (n, if endpoint = n.endpoint then .error "PD control connect timed out" else .ok ())

/-- A room with one session, at the given host. -/
def sampleRoom (room : BootstrapRoom) (endpoint : String) : PdTransferRoom where
  requiredDstInfoNum := 1
  status := .waitingForInput
  decodePrefixLen := some 0
  transfers := SortedMap.empty.insert "s"
    { room, endpoint, dstPort := 7000, sessionId := "s", dstKvIndices := [3], dstAuxIndex := some 0,
      dstStateIndices := [], requiredDstInfoNum := 1, isDummy := false, decodePrefixLen := some 0 }

/-- Two rooms whose transfers have ended, the decode worker of the second being unreachable. -/
def twoTransfers : PdSession PromptTransport OneTarget PlainLease OneUnreachable where
  executor :=
    { bootstrapService :=
        { transferRooms := Function.update (Function.update (fun _ => none) 1
            (some (sampleRoom 1 "10.0.0.1"))) 2 (some (sampleRoom 2 "10.0.0.2"))
          activeRooms := {1, 2} }
      inner :=
        { executor :=
            { localMemoryRegistration := some {}
              submitter := ⟨{}, []⟩
              layout := ⟨4096, 4, 0⟩
              targetResolver := {}
              remoteKvLayoutsByRoom := fun _ => none
              submittedBatches := [1, 2]
              submittedTransfers := [⟨1, 1, 1, "c1"⟩, ⟨2, 2, 1, "c2"⟩]
              completionEvents := [] } }
      network := ⟨"tcp://10.0.0.2:7000"⟩
      pendingTokens := (SortedMap.empty.insert 1 5).insert 2 6 }

/-- The events of the two transfers. -/
def twoEvents : List KvTransferCompletionEvent := [⟨1, "c1", .completed⟩, ⟨2, "c2", .completed⟩]

theorem abortedActive_twoTransfers : twoTransfers.executor.abortedActive = [] := by
  simp [PdBootstrapKvCacheTransferExecutor.abortedActive, twoTransfers]

theorem innerPoll_twoTransfers :
    (KvInnerExecutor.poll twoTransfers.executor.inner).2 = .ok ⟨twoEvents, 0⟩ := by
  rfl

theorem notifyEvents_twoTransfers (inner : Session PromptTransport OneTarget PlainLease) :
    (PdBootstrapKvCacheTransferExecutor.notifyEvents twoEvents
      { twoTransfers.executor with inner }).2 =
        .error (.runtime "PD control connect timed out") := by
  rfl

/-- One send that fails takes the completion of the other room with it: the events of both transfers
have left the inner executor, and no poll returns them. -/
theorem exists_completion_lost :
    (twoTransfers.executor.poll 1).2 = some (.error (.runtime "PD control connect timed out")) ∧
    (twoTransfers.step (.poll 1)).executor.inner.returned = twoEvents ∧
    (twoTransfers.step (.poll 1)).executor.inner.executor.completionEvents = [] ∧
    (twoTransfers.step (.poll 1)).returned = [] ∧
    ¬ twoTransfers.PollLosesNothing 1 := by
  have hdrain : PdBootstrapKvCacheTransferExecutor.drainAborted 1 twoTransfers.executor.abortedActive []
      twoTransfers.executor = (twoTransfers.executor, [], some (.ok ())) := by
    rw [abortedActive_twoTransfers]
    rfl
  have hpoll : twoTransfers.executor.poll 1 = ((twoTransfers.executor.pollInner []).1,
      some (twoTransfers.executor.pollInner []).2) := by
    rw [PdBootstrapKvCacheTransferExecutor.poll, hdrain]
  refine ⟨?_, ?_, ?_, ?_, ?_⟩
  · rw [hpoll]
    rfl
  · rw [PdSession.step, hpoll]
    rfl
  · rw [PdSession.step, hpoll]
    rfl
  · rw [PdSession.step, hpoll]
    rfl
  · rw [PdSession.pollLosesNothing_iff]
    rintro (⟨y, canceled, inner, poll, z, hy, hinner, hnotify⟩ | hfails)
    · obtain ⟨rfl, -⟩ := Prod.mk.inj (hdrain.symm.trans hy)
      have hevents := (congrArg Prod.snd hinner).symm.trans innerPoll_twoTransfers
      obtain rfl : poll = ⟨twoEvents, 0⟩ := by simpa using hevents
      have := (notifyEvents_twoTransfers inner).symm.trans (congrArg Prod.snd hnotify)
      simp at this
    · rw [PdBootstrapKvCacheTransferExecutor.FailsFirst, abortedActive_twoTransfers] at hfails
      obtain ⟨error, herror⟩ := hfails
      have := innerPoll_twoTransfers.symm.trans herror
      simp at this

/-- A span of two pages. -/
def polledSpan : KvCacheTransferSpan :=
  ⟨⟨"a"⟩, ⟨"10.0.0.9", 8998, 1⟩, 0, 0, 4, [0, 1, 2, 3], 2, [0, 1], some 5, Nat.zero_lt_two⟩

/-- A decode worker registers and announces its pages, and the span is submitted. -/
def sampleCalls : List (PdCall PlainLease) :=
  [.register (.ok {}), .message ⟨(sampleRegistration "s").toFrame, .ok ()⟩,
    .message ⟨(sampleMetadata []).frameWith (packI32s [3, 4]) (utf8 "0") (packI32Lists []), .ok ()⟩,
    .submit 1 polledSpan none]

def newSession : PdSession PromptTransport OneTarget PlainLease OneUnreachable :=
  .new {} ⟨4096, 128, 0⟩ {} ⟨"tcp://10.0.0.2:7000"⟩

def sampleSession : PdSession PromptTransport OneTarget PlainLease OneUnreachable :=
  sampleCalls.foldl PdSession.step newSession

theorem pollLosesNothing_sampleSession : sampleSession.PollLosesNothing 1 := by
  have hinner : sampleSession.executor.inner.returned = [] := by decide +kernel
  have hreturned : sampleSession.returned = [] := by decide +kernel
  have hsame : (sampleSession.step (.poll 1)).executor.inner.returned =
      (sampleSession.step (.poll 1)).returned := by decide +kernel
  have haborted : sampleSession.executor.bootstrapService.abortedRooms = ∅ := by decide +kernel
  refine ⟨(sampleSession.step (.poll 1)).returned, _, by rw [hinner, List.nil_append, hsame],
    by rw [hreturned, List.nil_append], List.Subset.refl _, fun room hroom => ?_⟩
  simp [PdBootstrapKvCacheTransferExecutor.abortedActive, haborted] at hroom

/-- The theorem applied to a run in which a transfer is submitted and polled: the poll loses
nothing, and the span is no longer with the transport or queued. -/
theorem completions_reported_of_run :
    sampleSession.PollKeeps (.poll 1) ∧ ∃ c : SpanCustody,
      c.delivered.map Prod.fst + c.withdrawn = c.items ∧
      c.items.map Parcel.span = [polledSpan] ∧
      c.delivered.map (fun d => d.1.event d.2) ≤
        ((sampleCalls ++ [PdCall.poll 1]).foldl PdSession.step newSession).returned := by
  obtain ⟨hpolls, hruns⟩ := completions_reported (S := PromptTransport) (R := OneTarget)
    (L := PlainLease) (N := OneUnreachable) {} ⟨4096, 128, 0⟩ {} ⟨"tcp://10.0.0.2:7000"⟩
  have hkeeps := (hpolls sampleSession 1).1 pollLosesNothing_sampleSession
  have halong : Transition.Along PdSession.step PdSession.PollKeeps newSession
      (sampleCalls ++ [PdCall.poll 1]) := (Transition.along_append _ sampleCalls _).mpr
    ⟨⟨trivial, trivial, trivial, trivial, trivial⟩, hkeeps, trivial⟩
  obtain ⟨⟨c, hsum, hitems, hheld, hsettled, hdelivered, -⟩, -⟩ := hruns _ halong
  refine ⟨hkeeps, c, ?_, ?_, hdelivered⟩
  · have hnone : ((sampleCalls ++ [PdCall.poll 1]).foldl PdSession.step
        newSession).executor.inner.executor.submittedTransfers = [] := by decide +kernel
    have hempty : ((sampleCalls ++ [PdCall.poll 1]).foldl PdSession.step
        newSession).executor.inner.executor.completionEvents = [] := by decide +kernel
    rw [newSession] at hnone hempty
    rw [hnone] at hheld
    rw [hempty] at hsettled
    rw [← hsum, Multiset.map_eq_zero.mp hheld, Multiset.map_eq_zero.mp hsettled, Multiset.map_zero,
      zero_add, zero_add]
  · rw [hitems]
    exact congrArg _ (by decide +kernel)

end SglangRs
