import SglangRs.Ledger.Custody
import SglangRs.Transfer.Recorder
import SglangRs.Transition.Run

/-!
# What becomes of a span

The executor is a carrier in the sense of `Ledger.Custody`: a submitted span is held while its batch
is with the transport, settled when the batch has been released and its event is queued, delivered
when a poll has returned the event, and withdrawn when a cancellation has released the batch or
dropped the event. Every operation moves spans between these parts, whatever the transport answers
and wherever an error ends the operation, so no event is lost or made twice. Every call that
releases a batch follows a full sweep that found no task under way.

## Main definitions

* `Parcel`, `Parcel.event`: a span with its batch, and the event it yields.
* `Lawful`: every release follows a sweep that found all tasks ended.
* `KvCacheTransferExecutor.Accounted`: the division of the spans agrees with the executor.
* `Session`, `Session.step`: the operations of an executor, with what they take in and return.

## Main results

* `transfers_accounted`: the account of all spans after every sequence of operations.
-/

namespace SglangRs

open Ledger

/-! ### Spans and their batches -/

/-- The status of the event for a batch whose tasks have ended. -/
def KvPolledBatchState.eventStatus : KvPolledBatchState → KvTransferEventStatus
  | .failed message => .failed message
  | _ => .completed

def KvSubmittedBatch.key (transfer : KvSubmittedBatch) : BootstrapRoom × String :=
  (transfer.bootstrapRoom, transfer.descriptorChecksum)

def KvTransferCompletionEvent.key (event : KvTransferCompletionEvent) : BootstrapRoom × String :=
  (event.bootstrapRoom, event.descriptorChecksum)

/-- A span taken in, with the id and the number of tasks of its batch. A span with nothing to
transfer has no batch. -/
structure Parcel where
  span : KvCacheTransferSpan
  carrier : Option (KvBatchId × ℕ)

namespace Parcel

variable (p : Parcel)

def room : BootstrapRoom := p.span.bootstrapRoom

/-- What the executor knows a span by. -/
def key [Sha256] (p : Parcel) : BootstrapRoom × String :=
  (p.span.bootstrapRoom, p.span.descriptorChecksum)

def batchId? : Option KvBatchId := p.carrier.map Prod.fst

/-- The entry of the executor for the batch. -/
def batch? [Sha256] (p : Parcel) : Option KvSubmittedBatch :=
  p.carrier.map fun carrier => .fromSpan p.span carrier.1 carrier.2

/-- The status of the event when the tasks of the batch have ended with the given answers. -/
def status (answers : List KvTransferStatus) : KvTransferEventStatus :=
  match p.carrier with
  | none => .completed
  | some (batchId, taskCount) =>
      ((TaskSweep.after batchId 0 {} answers).state taskCount).eventStatus

/-- The event when the tasks of the batch have ended with the given answers. -/
def event [Sha256] (p : Parcel) (answers : List KvTransferStatus) : KvTransferCompletionEvent :=
  ⟨p.span.bootstrapRoom, p.span.descriptorChecksum, p.status answers⟩

/-- The tasks of the batch have ended with the given answers, and the batch was released then. -/
def ReleasedIn (calls : List TransportCall) (answers : List KvTransferStatus) : Prop :=
  match p.carrier with
  | none => answers = []
  | some (batchId, taskCount) =>
      answers.length = taskCount ∧ Ended answers ∧
        ∃ before after, calls =
          before ++ sweepCalls batchId answers ++ .free batchId (.ok ()) :: after

variable {p} {calls : List TransportCall} {answers : List KvTransferStatus}

theorem ReleasedIn.append (h : p.ReleasedIn calls answers) (more : List TransportCall) :
    p.ReleasedIn (calls ++ more) answers := by
  unfold ReleasedIn at h ⊢
  split at h
  · exact h
  · obtain ⟨hlength, hended, before, after, rfl⟩ := h
    exact ⟨hlength, hended, before, after ++ more, by simp⟩

/-- **Failed events.** The event of a span reports a failure iff a task of its batch has failed. -/
theorem ReleasedIn.status_eq_failed (h : p.ReleasedIn calls answers) :
    (∃ message, p.status answers = .failed message) ↔ ∃ answer ∈ answers, answer.Failure := by
  rcases hp : p.carrier with _ | ⟨batchId, taskCount⟩
  · have hanswers : answers = [] := by simpa only [ReleasedIn, hp] using h
    simp [status, hp, hanswers]
  · obtain ⟨rfl, hended, -⟩ : answers.length = taskCount ∧ Ended answers ∧ _ := by
      simpa only [ReleasedIn, hp] using h
    rw [← TaskSweep.state_after_eq_failed batchId hended]
    simp only [status, hp]
    cases (TaskSweep.after batchId 0 {} answers).state answers.length <;>
      simp [KvPolledBatchState.eventStatus]

/-- An event reports completion or failure. -/
theorem status_eq_completed_or_failed (p : Parcel) (answers : List KvTransferStatus) :
    p.status answers = .completed ∨ ∃ message, p.status answers = .failed message := by
  rw [status]
  split
  · exact .inl rfl
  · next batchId taskCount _ =>
    cases (TaskSweep.after batchId 0 {} answers).state taskCount with
    | completed => exact .inl rfl
    | pending => exact .inl rfl
    | failed message => exact .inr ⟨message, rfl⟩

end Parcel

/-! ### Lawful calls -/

/-- The batches that the calls have created, in order. -/
def submittedIds (calls : List TransportCall) : List KvBatchId :=
  calls.filterMap TransportCall.submittedId?

/-- The batches that the calls have released, in order. -/
def freedIds (calls : List TransportCall) : List KvBatchId :=
  calls.filterMap TransportCall.freedId?

/-- A batch may be released after the given calls: the last of them are a full sweep over the tasks
it was created with, which found all of them ended, and the batch has been created more often than
it has been released. -/
def MayFree (calls : List TransportCall) (batchId : KvBatchId) : Prop :=
  (∃ earlier requests answers, calls = earlier ++ sweepCalls batchId answers ∧ Ended answers ∧
      .submit requests (.ok batchId) ∈ earlier ∧ requests.length = answers.length) ∧
    (freedIds calls).count batchId < (submittedIds calls).count batchId

/-- Every attempt to release a batch was made when the batch might be released. -/
def Lawful (calls : List TransportCall) : Prop :=
  ∀ before batchId answer after, calls = before ++ .free batchId answer :: after →
    MayFree before batchId

variable {calls more : List TransportCall}

@[simp] theorem submittedIds_append (calls more : List TransportCall) :
    submittedIds (calls ++ more) = submittedIds calls ++ submittedIds more :=
  List.filterMap_append

@[simp] theorem freedIds_append (calls more : List TransportCall) :
    freedIds (calls ++ more) = freedIds calls ++ freedIds more :=
  List.filterMap_append

@[simp] theorem submittedIds_free (batchId : KvBatchId) (answer : Except String Unit) :
    submittedIds [.free batchId answer] = [] := rfl

@[simp] theorem freedIds_free_error (batchId : KvBatchId) (error : String) :
    freedIds [.free batchId (.error error)] = [] := rfl

@[simp] theorem freedIds_free_ok (batchId : KvBatchId) :
    freedIds [.free batchId (.ok ())] = [batchId] := rfl

@[simp] theorem submittedIds_submit_error (requests : List KvTransferRequest) (error : String) :
    submittedIds [.submit requests (.error error)] = [] := rfl

@[simp] theorem submittedIds_submit_ok (requests : List KvTransferRequest) (batchId : KvBatchId) :
    submittedIds [.submit requests (.ok batchId)] = [batchId] := rfl

@[simp] theorem freedIds_submit (requests : List KvTransferRequest)
    (answer : Except String KvBatchId) : freedIds [.submit requests answer] = [] := rfl

theorem submittedIds_of_isPassive (h : ∀ call ∈ more, call.IsPassive) : submittedIds more = [] :=
  List.filterMap_eq_nil_iff.mpr fun call hcall => (h call hcall).submittedId?_eq

theorem freedIds_of_isPassive (h : ∀ call ∈ more, call.IsPassive) : freedIds more = [] :=
  List.filterMap_eq_nil_iff.mpr fun call hcall => (h call hcall).freedId?_eq

theorem isPassive_of_mem_sweepCalls {batchId : KvBatchId} {answers : List KvTransferStatus}
    {call : TransportCall} (h : call ∈ sweepCalls batchId answers) : call.IsPassive := by
  obtain ⟨answer, -, rfl⟩ := List.mem_map.mp h
  trivial

theorem lawful_nil : Lawful [] := by
  intro before batchId answer after h
  simp at h

theorem Lawful.concat (h : Lawful calls) {call : TransportCall}
    (hcall : ∀ batchId answer, call = .free batchId answer → MayFree calls batchId) :
    Lawful (calls ++ [call]) := by
  intro before batchId answer after heq
  rcases List.eq_nil_or_concat after with rfl | ⟨after', last, rfl⟩
  · obtain ⟨rfl, hlast⟩ := List.append_inj' heq rfl
    exact hcall batchId answer (List.singleton_inj.mp hlast)
  · rw [List.concat_eq_append, ← List.cons_append, ← List.append_assoc] at heq
    obtain ⟨rfl, -⟩ := List.append_inj' heq rfl
    exact h before batchId answer after' rfl

theorem Lawful.append (h : Lawful calls) (hmore : ∀ call ∈ more, call.IsPassive) :
    Lawful (calls ++ more) := by
  induction more generalizing calls with
  | nil => simpa using h
  | cons call more ih =>
    obtain ⟨hfirst, hrest⟩ := List.forall_mem_cons.mp hmore
    rw [← List.singleton_append, ← List.append_assoc]
    exact ih (h.concat fun batchId answer heq => (heq ▸ hfirst :).elim) hrest

/-! ### The account of an executor -/

/-- The account of a carrier of spans: the settled spans are kept with the last answers for their
tasks. -/
abbrev SpanCustody := Custody Parcel (List KvTransferStatus)

/-- What an operation that neither takes in spans nor hands events over may do to the account: it
settles spans, and withdraws spans of the given rooms only. -/
structure SpanCustody.Moved (rooms : List BootstrapRoom) (c c' : SpanCustody) : Prop where
  items_eq : c'.items = c.items
  delivered_eq : c'.delivered = c.delivered
  withdrawn : ∃ new : Multiset Parcel, c'.withdrawn = new + c.withdrawn ∧ ∀ p ∈ new, p.room ∈ rooms

namespace SpanCustody.Moved

variable {rooms : List BootstrapRoom} {c c' c'' : SpanCustody}

theorem refl (rooms : List BootstrapRoom) (c : SpanCustody) : Moved rooms c c :=
  ⟨rfl, rfl, 0, (zero_add _).symm, by simp⟩

theorem trans (h : Moved rooms c c') (h' : Moved rooms c' c'') : Moved rooms c c'' := by
  obtain ⟨new, hnew, hrooms⟩ := h.withdrawn
  obtain ⟨new', hnew', hrooms'⟩ := h'.withdrawn
  refine ⟨h'.items_eq.trans h.items_eq, h'.delivered_eq.trans h.delivered_eq, new' + new, ?_, ?_⟩
  · rw [hnew', hnew, add_assoc]
  · intro p hp
    exact (Multiset.mem_add.mp hp).elim (hrooms' p) (hrooms p)

theorem mono {rooms' : List BootstrapRoom} (h : Moved rooms c c') (hsub : rooms ⊆ rooms') :
    Moved rooms' c c' := by
  obtain ⟨new, hnew, hrooms⟩ := h.withdrawn
  exact ⟨h.items_eq, h.delivered_eq, new, hnew, fun p hp => hsub (hrooms p hp)⟩

theorem withdrawn_eq (h : Moved [] c c') : c'.withdrawn = c.withdrawn := by
  obtain ⟨new, hnew, hrooms⟩ := h.withdrawn
  rw [hnew, Multiset.eq_zero_of_forall_notMem fun p hp => List.not_mem_nil (hrooms p hp), zero_add]

/-- The spans that a cancellation withdraws were with the transport or queued, in its rooms. Here
`f` is what is recorded of spans, and `found` what was recorded of those. -/
theorem map_withdrawn_le {α : Type} {f : Parcel → α} {m : Multiset Parcel}
    {found cancelled : List α} {q : α → Prop} [DecidablePred q] (h : Moved rooms c c')
    (hm : c.held + c.settled.map Prod.fst ≤ m) (hfound : m.map f = found)
    (hq : ∀ p : Parcel, p.room ∈ rooms → q (f p)) (hcancelled : c.withdrawn.map f ≤ cancelled) :
    c'.withdrawn.map f ≤ (cancelled ++ found.filter q : List α) := by
  obtain ⟨new, hnew, hrooms⟩ := h.withdrawn
  have hle := (Custody.le_held_add_settled h.items_eq h.delivered_eq hnew).trans hm
  have hthere : new ≤ m.filter fun p => q (f p) :=
    Multiset.le_filter.mpr ⟨hle, fun p hp => hq p (hrooms p hp)⟩
  rw [hnew, Multiset.map_add, ← Multiset.coe_add, add_comm, ← Multiset.filter_coe, ← hfound,
    Multiset.filter_map]
  exact add_le_add hcancelled (Multiset.map_le_map hthere)

end SpanCustody.Moved

namespace KvCacheTransferExecutor

variable {S R L : Type} [Sha256]

/-- The division `c` of the spans agrees with the executor and with the calls its transport has
received. -/
structure Accounted (x : KvCacheTransferExecutor (Recorded S) R L) (c : SpanCustody) : Prop where
  aligned : x.submittedBatches = x.submittedTransfers.map (·.batchId)
  held_eq : c.held.map Parcel.batch? = (x.submittedTransfers : Multiset KvSubmittedBatch).map some
  settled_eq : c.settled.map (fun d => d.1.event d.2) = x.completionEvents
  releasedIn : ∀ d ∈ c.settled + c.delivered, d.1.ReleasedIn x.submitter.calls d.2
  submitted_eq : c.items.filterMap Parcel.batchId? = submittedIds x.submitter.calls
  freed_eq : c.released.filterMap Parcel.batchId? = freedIds x.submitter.calls
  created : ∀ transfer ∈ x.submittedTransfers, ∃ requests,
    .submit requests (.ok transfer.batchId) ∈ x.submitter.calls ∧
      requests.length = transfer.taskCount
  lawful : Lawful x.submitter.calls

variable {x : KvCacheTransferExecutor (Recorded S) R L} {c : SpanCustody} {s : Recorded S}

theorem accounted_new (submitter : S) (layout : KvTransferLayout) (targetResolver : R) :
    Accounted (new ⟨submitter, []⟩ layout targetResolver : KvCacheTransferExecutor _ R L) {} where
  aligned := rfl
  held_eq := rfl
  settled_eq := rfl
  releasedIn := by simp
  submitted_eq := rfl
  freed_eq := rfl
  created := by simp [new]
  lawful := lawful_nil

/-- Calls that neither create nor release a batch change nothing. -/
theorem Accounted.observe (h : x.Accounted c) (hs : x.submitter.Observes s) :
    Accounted { x with submitter := s } c := by
  obtain ⟨calls, hcalls, hpassive⟩ := hs
  constructor
  case aligned => exact h.aligned
  case held_eq => exact h.held_eq
  case settled_eq => exact h.settled_eq
  case releasedIn =>
    intro d hd
    rw [hcalls]
    exact (h.releasedIn d hd).append calls
  case submitted_eq =>
    rw [hcalls, submittedIds_append, submittedIds_of_isPassive hpassive, List.append_nil]
    exact h.submitted_eq
  case freed_eq =>
    rw [hcalls, freedIds_append, freedIds_of_isPassive hpassive, List.append_nil]
    exact h.freed_eq
  case created =>
    intro transfer htransfer
    obtain ⟨requests, hmem, hlength⟩ := h.created transfer htransfer
    exact ⟨requests, hcalls ▸ List.mem_append_left calls hmem, hlength⟩
  case lawful => exact hcalls ▸ h.lawful.append hpassive

/-- A change of the registration, the layouts or the resolver changes nothing. -/
theorem Accounted.congr (h : x.Accounted c) {y : KvCacheTransferExecutor (Recorded S) R L}
    (hsubmitter : y.submitter = x.submitter) (hbatches : y.submittedBatches = x.submittedBatches)
    (htransfers : y.submittedTransfers = x.submittedTransfers)
    (hevents : y.completionEvents = x.completionEvents) : y.Accounted c where
  aligned := by rw [hbatches, htransfers, h.aligned]
  held_eq := by rw [htransfers, h.held_eq]
  settled_eq := by rw [hevents, h.settled_eq]
  releasedIn := by rw [hsubmitter]; exact h.releasedIn
  submitted_eq := by rw [hsubmitter, h.submitted_eq]
  freed_eq := by rw [hsubmitter, h.freed_eq]
  created := by rw [hsubmitter, htransfers]; exact h.created
  lawful := by rw [hsubmitter]; exact h.lawful

/-- The transfer at a position belongs to a held parcel. -/
theorem Accounted.exists_held (h : x.Accounted c) {index : ℕ} {transfer : KvSubmittedBatch}
    (ht : x.submittedTransfers[index]? = some transfer) :
    ∃ p rest, c.held = p ::ₘ rest ∧ p.batch? = some transfer ∧
      rest.map Parcel.batch? =
        (x.submittedTransfers.eraseIdx index : Multiset KvSubmittedBatch).map some := by
  obtain ⟨hlt, rfl⟩ := List.getElem?_eq_some_iff.mp ht
  have hperm := Multiset.coe_eq_coe.mpr (List.getElem_cons_eraseIdx_perm hlt)
  have hheld := h.held_eq
  rw [← hperm, ← Multiset.cons_coe, Multiset.map_cons] at hheld
  exact exists_cons_of_map_eq hheld

/-- The batch of a held parcel has been created more often than released. -/
theorem Accounted.count_lt (h : x.Accounted c) {p : Parcel} {rest : Multiset Parcel}
    (hheld : c.held = p ::ₘ rest) {batchId : KvBatchId} (hp : p.batchId? = some batchId) :
    (freedIds x.submitter.calls).count batchId <
      (submittedIds x.submitter.calls).count batchId := by
  rw [← Multiset.coe_count, ← Multiset.coe_count, ← h.freed_eq, ← h.submitted_eq, Custody.items,
    hheld, Multiset.cons_add, Multiset.filterMap_cons_some _ _ _ hp, Multiset.filterMap_add,
    Multiset.count_cons_self, Multiset.count_add]
  omega

/-- After a sweep that found all tasks of a transfer ended, its batch may be released. -/
theorem Accounted.mayFree (h : x.Accounted c) {index : ℕ} {transfer : KvSubmittedBatch}
    (ht : x.submittedTransfers[index]? = some transfer) {answers : List KvTransferStatus}
    (hlength : answers.length = transfer.taskCount) (hended : Ended answers) :
    MayFree (x.submitter.calls ++ sweepCalls transfer.batchId answers) transfer.batchId := by
  obtain ⟨requests, hmem, hrequests⟩ := h.created transfer (List.mem_of_getElem? ht)
  obtain ⟨p, rest, hheld, hp, -⟩ := h.exists_held ht
  have hid : p.batchId? = some transfer.batchId := by
    obtain ⟨carrier, hcarrier, rfl⟩ := Option.map_eq_some_iff.mp hp
    simp [Parcel.batchId?, hcarrier, KvSubmittedBatch.fromSpan]
  have hpassive : ∀ call ∈ sweepCalls transfer.batchId answers, call.IsPassive :=
    fun _ => isPassive_of_mem_sweepCalls
  refine ⟨⟨_, requests, answers, rfl, hended, hmem, hrequests.trans hlength.symm⟩, ?_⟩
  rw [freedIds_append, submittedIds_append, freedIds_of_isPassive hpassive,
    submittedIds_of_isPassive hpassive, List.append_nil, List.append_nil]
  exact h.count_lt hheld hid

/-! ### Releases -/

/-- A failed attempt to release a batch after a sweep that found all its tasks ended. -/
theorem Accounted.freeFails (h : x.Accounted c) {index : ℕ} {transfer : KvSubmittedBatch}
    (ht : x.submittedTransfers[index]? = some transfer) {answers : List KvTransferStatus}
    (hlength : answers.length = transfer.taskCount) (hended : Ended answers) {error : String}
    (hs : s.calls = x.submitter.calls ++ sweepCalls transfer.batchId answers ++
      [.free transfer.batchId (.error error)]) : Accounted { x with submitter := s } c := by
  have hpassive : ∀ call ∈ sweepCalls transfer.batchId answers, call.IsPassive :=
    fun _ => isPassive_of_mem_sweepCalls
  have hmay := h.mayFree ht hlength hended
  constructor
  case aligned => exact h.aligned
  case held_eq => exact h.held_eq
  case settled_eq => exact h.settled_eq
  case releasedIn =>
    intro d hd
    rw [hs, List.append_assoc]
    exact (h.releasedIn d hd).append _
  case submitted_eq =>
    rw [hs, submittedIds_append, submittedIds_append, submittedIds_of_isPassive hpassive]
    simpa using h.submitted_eq
  case freed_eq =>
    rw [hs, freedIds_append, freedIds_append, freedIds_of_isPassive hpassive]
    simpa using h.freed_eq
  case created =>
    intro transfer' htransfer
    obtain ⟨requests, hmem, hrequests⟩ := h.created transfer' htransfer
    exact ⟨requests, by simp [hs, hmem], hrequests⟩
  case lawful =>
    rw [hs]
    refine (h.lawful.append hpassive).concat fun batchId answer heq => ?_
    obtain ⟨rfl, -⟩ := TransportCall.free.inj heq
    exact hmay

/-- A batch is released after a sweep that found all its tasks ended, and its parcel leaves the held
ones for another part of the account. -/
theorem Accounted.free (h : x.Accounted c) {index : ℕ} {transfer : KvSubmittedBatch}
    (ht : x.submittedTransfers[index]? = some transfer) {answers : List KvTransferStatus}
    (hlength : answers.length = transfer.taskCount) (hended : Ended answers)
    (hs : s.calls = x.submitter.calls ++ sweepCalls transfer.batchId answers ++
      [.free transfer.batchId (.ok ())]) {events : List KvTransferCompletionEvent}
    {c' : SpanCustody} {p : Parcel} {rest : Multiset Parcel} (hheld : c.held = p ::ₘ rest)
    (hp : p.batch? = some transfer)
    (hrest : rest.map Parcel.batch? =
      (x.submittedTransfers.eraseIdx index : Multiset KvSubmittedBatch).map some)
    (hheld' : c'.held = rest) (hreleased : c'.released = p ::ₘ c.released)
    (hevents : c'.settled.map (fun d => d.1.event d.2) = events)
    (hmem : ∀ d ∈ c'.settled + c'.delivered, d ∈ c.settled + c.delivered ∨ d = (p, answers)) :
    Accounted (({ x with submitter := s, completionEvents := events } :
      KvCacheTransferExecutor (Recorded S) R L).removeAt index) c' := by
  have hpassive : ∀ call ∈ sweepCalls transfer.batchId answers, call.IsPassive :=
    fun _ => isPassive_of_mem_sweepCalls
  have hmay := h.mayFree ht hlength hended
  obtain ⟨carrier, hcarrier, htransfer⟩ := Option.map_eq_some_iff.mp hp
  have hid : carrier.1 = transfer.batchId := congrArg KvSubmittedBatch.batchId htransfer
  have hcount : carrier.2 = transfer.taskCount := congrArg KvSubmittedBatch.taskCount htransfer
  have hbatchId : p.batchId? = some transfer.batchId := by simp [Parcel.batchId?, hcarrier, hid]
  have hitems : c'.items = c.items := by
    rw [Custody.items, hheld', hreleased, Custody.items, hheld, Multiset.add_cons,
      Multiset.cons_add]
  constructor
  case aligned =>
    show x.submittedBatches.eraseIdx index = (x.submittedTransfers.eraseIdx index).map (·.batchId)
    rw [h.aligned, List.eraseIdx_map]
  case held_eq => exact hheld' ▸ hrest
  case settled_eq => exact hevents
  case releasedIn =>
    intro d hd
    show d.1.ReleasedIn s.calls d.2
    rcases hmem d hd with hold | rfl
    · rw [hs, List.append_assoc]
      exact (h.releasedIn d hold).append _
    · simp only [Parcel.ReleasedIn, hcarrier]
      exact ⟨hlength.trans hcount.symm, hended, x.submitter.calls, [], by rw [hid, hs]⟩
  case submitted_eq =>
    show c'.items.filterMap Parcel.batchId? = submittedIds s.calls
    rw [hitems, hs, submittedIds_append, submittedIds_append, submittedIds_of_isPassive hpassive]
    simpa using h.submitted_eq
  case freed_eq =>
    show c'.released.filterMap Parcel.batchId? = freedIds s.calls
    rw [hreleased, Multiset.filterMap_cons_some _ _ _ hbatchId, h.freed_eq, hs, freedIds_append,
      freedIds_append, freedIds_of_isPassive hpassive, List.append_nil, freedIds_free_ok,
      Multiset.cons_coe]
    exact Multiset.coe_eq_coe.mpr (List.perm_append_singleton _ _).symm
  case created =>
    intro transfer' htransfer'
    obtain ⟨requests, hcreated, hrequests⟩ :=
      h.created transfer' (List.mem_of_mem_eraseIdx htransfer')
    refine ⟨requests, ?_, hrequests⟩
    show _ ∈ s.calls
    simp [hs, hcreated]
  case lawful =>
    show Lawful s.calls
    rw [hs]
    refine (h.lawful.append hpassive).concat fun batchId answer heq => ?_
    obtain ⟨rfl, -⟩ := TransportCall.free.inj heq
    exact hmay

/-! ### Polls and cancellations -/

section Operations

variable [KvTransferStatusReader S] [KvBatchReleaser S]

/-- A batch whose tasks have ended is released, and its event is queued. -/
theorem Accounted.settleAt (h : x.Accounted c) {index : ℕ} {transfer : KvSubmittedBatch}
    (ht : x.submittedTransfers[index]? = some transfer) {state : KvPolledBatchState}
    (hpoll : pollKvSubmittedBatch x.submitter transfer = (s, .ok state)) (hne : state ≠ .pending) :
    ∃ c', Accounted ((settleAt { x with submitter := s } index transfer state.eventStatus).1) c' ∧
      SpanCustody.Moved [] c c' := by
  obtain ⟨answers, hlength, hcalls, hstate, -, hended⟩ := pollKvSubmittedBatch_spec hpoll
  rw [KvCacheTransferExecutor.settleAt]
  split
  · next s' error hfree =>
    have hs' := Recorded.calls_freeBatch hfree
    rw [hcalls] at hs'
    exact ⟨c, h.freeFails ht hlength (hended hne) hs', .refl _ _⟩
  · next s' hfree =>
    have hs' := Recorded.calls_freeBatch hfree
    rw [hcalls] at hs'
    obtain ⟨p, rest, hheld, hp, hrest⟩ := h.exists_held ht
    have hevent : p.event answers =
        ⟨transfer.bootstrapRoom, transfer.descriptorChecksum, state.eventStatus⟩ := by
      obtain ⟨carrier, hcarrier, rfl⟩ := Option.map_eq_some_iff.mp hp
      simp [Parcel.event, Parcel.status, hcarrier, KvSubmittedBatch.fromSpan, hstate]
    refine ⟨c.settle p answers rest, ?_, Custody.items_settle hheld answers, rfl,
      0, (zero_add _).symm, by simp⟩
    refine h.free ht hlength (hended hne) hs' hheld hp hrest rfl
      (c.released_settle p answers rest) ?_ ?_
    · show ((p, answers) ::ₘ c.settled).map (fun d => d.1.event d.2) = _
      rw [Multiset.map_cons, h.settled_eq, hevent]
      exact Multiset.coe_eq_coe.mpr (List.perm_append_singleton _ _).symm
    · intro d hd
      have hd' : d ∈ (p, answers) ::ₘ c.settled + c.delivered := hd
      rw [Multiset.cons_add, Multiset.mem_cons] at hd'
      exact hd'.symm

theorem Accounted.pollFrom (h : x.Accounted c) (n index : ℕ) :
    ∃ c', Accounted (pollFrom n index x).1 c' ∧ SpanCustody.Moved [] c c' := by
  induction n generalizing index x c with
  | zero => exact ⟨c, h, .refl _ _⟩
  | succ n ih =>
    rw [KvCacheTransferExecutor.pollFrom]
    split
    · exact ⟨c, h, .refl _ _⟩
    · next transfer ht =>
      have hobserve : ∀ {s result}, pollKvSubmittedBatch x.submitter transfer = (s, result) →
          Accounted { x with submitter := s } c := by
        intro s result hpoll
        refine h.observe ?_
        have hobserves := observes_poll (s := x.submitter) transfer
        rwa [hpoll] at hobserves
      split
      · next hpoll => exact ⟨c, hobserve hpoll, .refl _ _⟩
      · next hpoll => exact ih (hobserve hpoll) (index + 1)
      all_goals
        next hpoll =>
          obtain ⟨c', hc', hmoved⟩ := h.settleAt ht hpoll (by simp)
          simp only [KvPolledBatchState.eventStatus] at hc'
          split
          · next hsettle =>
            rw [hsettle] at hc'
            exact ⟨c', hc', hmoved⟩
          · next hsettle =>
            rw [hsettle] at hc'
            obtain ⟨c'', hc'', hmoved'⟩ := ih hc' index
            exact ⟨c'', hc'', hmoved.trans hmoved'⟩

/-- The transfers of a room are withdrawn one by one. -/
theorem Accounted.drainRoom (h : x.Accounted c) (fuel : ℕ) (room : BootstrapRoom) (n : ℕ) :
    ∃ c', Accounted (drainRoom fuel room n x).1 c' ∧ SpanCustody.Moved [room] c c' := by
  induction n generalizing x c with
  | zero => exact ⟨c, h, .refl _ _⟩
  | succ n ih =>
    rw [KvCacheTransferExecutor.drainRoom]
    split
    · exact ⟨c, h, .refl _ _⟩
    · next index hindex =>
      split
      · exact ⟨c, h, .refl _ _⟩
      · next transfer ht =>
        have hroom : transfer.bootstrapRoom = room := by
          obtain ⟨hlt, hfound, -⟩ := List.findIdx?_eq_some_iff_getElem.mp hindex
          rw [List.getElem?_eq_getElem hlt, Option.some.injEq] at ht
          simpa [ht] using hfound
        have hobserve : ∀ {s result}, awaitBatch transfer fuel x.submitter = (s, result) →
            Accounted { x with submitter := s } c := by
          intro s result hawait
          refine h.observe ?_
          have hobserves := observes_awaitBatch transfer fuel x.submitter
          rwa [hawait] at hobserves
        split
        · next hawait => exact ⟨c, hobserve hawait, .refl _ _⟩
        · next hawait => exact ⟨c, hobserve hawait, .refl _ _⟩
        · next s hawait =>
          obtain ⟨s₁, answers, hobserves, hlength, hcalls, hended⟩ := awaitBatch_spec hawait
          have h₁ := h.observe hobserves
          split
          · next s' error hfree =>
            have hs' := Recorded.calls_freeBatch hfree
            rw [hcalls] at hs'
            exact ⟨c, h₁.freeFails ht hlength hended hs', .refl _ _⟩
          · next s' hfree =>
            have hs' := Recorded.calls_freeBatch hfree
            rw [hcalls] at hs'
            obtain ⟨p, rest, hheld, hp, hrest⟩ := h₁.exists_held ht
            have hproom : p.room = room := by
              obtain ⟨carrier, -, rfl⟩ := Option.map_eq_some_iff.mp hp
              exact hroom
            have hfree' : Accounted _ (c.withdraw p rest) :=
              h₁.free ht hlength hended hs' hheld hp hrest rfl (c.released_withdraw p rest)
                h.settled_eq (fun d hd => .inl hd)
            obtain ⟨c', hc', hmoved⟩ := ih hfree'
            have hwithdraw : SpanCustody.Moved [room] c (c.withdraw p rest) :=
              ⟨Custody.items_withdraw hheld, rfl, {p}, rfl, by simp [hproom]⟩
            exact ⟨c', hc', hwithdraw.trans hmoved⟩

/-- The transfers of a room are withdrawn, and if all of them could be, its queued events too. -/
theorem Accounted.cancel (h : x.Accounted c) (fuel : ℕ) (room : BootstrapRoom) :
    ∃ c', Accounted (x.cancelSubmittedTransfersForRoom fuel room).1 c' ∧
      SpanCustody.Moved [room] c c' := by
  obtain ⟨c', hc', hmoved⟩ := h.drainRoom fuel room x.submittedTransfers.length
  rw [cancelSubmittedTransfersForRoom]
  split
  · next y hdrain =>
    rw [hdrain] at hc'
    refine ⟨c'.withdrawSettled fun p => p.room = room, ?_,
      hmoved.trans ⟨c'.items_withdrawSettled _, rfl, _, rfl, ?_⟩⟩
    · constructor
      case aligned => exact hc'.aligned
      case held_eq => exact hc'.held_eq
      case settled_eq =>
        have hfilter := congrArg
          (Multiset.filter fun event : KvTransferCompletionEvent => event.bootstrapRoom ≠ room)
          hc'.settled_eq
        rw [Multiset.filter_map, Multiset.filter_coe] at hfilter
        exact hfilter
      case releasedIn =>
        intro d hd
        refine hc'.releasedIn d ?_
        have hle : c'.settled.filter (fun d => ¬ d.1.room = room) + c'.delivered ≤
            c'.settled + c'.delivered := by
          gcongr
          exact Multiset.filter_le _ _
        exact Multiset.mem_of_le hle hd
      case submitted_eq =>
        rw [c'.items_withdrawSettled]
        exact hc'.submitted_eq
      case freed_eq =>
        rw [c'.released_withdrawSettled]
        exact hc'.freed_eq
      case created => exact hc'.created
      case lawful => exact hc'.lawful
    · intro p hp
      obtain ⟨d, hd, rfl⟩ := Multiset.mem_map.mp hp
      simp [(Multiset.mem_filter.mp hd).2]
  · next y result _ hdrain =>
    rw [hdrain] at hc'
    exact ⟨c', hc', hmoved⟩

theorem Accounted.cancelRooms (h : x.Accounted c) (fuel : ℕ) (rooms : List BootstrapRoom) :
    ∃ c', Accounted (cancelRooms fuel rooms x).1 c' ∧ SpanCustody.Moved rooms c c' := by
  induction rooms generalizing x c with
  | nil => exact ⟨c, h, .refl _ _⟩
  | cons room rooms ih =>
    obtain ⟨c', hc', hmoved⟩ := h.cancel fuel room
    have hmoved : SpanCustody.Moved (room :: rooms) c c' := hmoved.mono (by simp)
    rw [KvCacheTransferExecutor.cancelRooms]
    split
    · next y hcancel =>
      rw [hcancel] at hc'
      obtain ⟨c'', hc'', hmoved'⟩ := ih hc'
      exact ⟨c'', hc'', hmoved.trans (hmoved'.mono (List.subset_cons_self room rooms))⟩
    · next y result _ hcancel =>
      rw [hcancel] at hc'
      exact ⟨c', hc', hmoved⟩

theorem Accounted.shutdown [KvMemoryRegistrationLease L] (h : x.Accounted c) (fuel : ℕ) :
    ∃ c', Accounted (x.shutdown fuel).1 c' ∧
      SpanCustody.Moved (x.submittedTransfers.map (·.bootstrapRoom)) c c' := by
  obtain ⟨c', hc', hmoved⟩ := h.cancelRooms fuel (x.submittedTransfers.map (·.bootstrapRoom))
  refine ⟨c', ?_, hmoved⟩
  rw [KvCacheTransferExecutor.shutdown]
  split
  · next y hcancel =>
    rw [hcancel] at hc'
    split
    · exact hc'
    · split
      all_goals exact hc'.congr rfl rfl rfl rfl
  · next hcancel =>
    rw [hcancel] at hc'
    exact hc'

end Operations

/-! ### Submissions -/

/-- The transport has accepted a batch for a span. -/
theorem Accounted.accept (h : x.Accounted c) {span : KvCacheTransferSpan}
    {requests : List KvTransferRequest} {batchId : KvBatchId}
    (hs : s.calls = x.submitter.calls ++ [.submit requests (.ok batchId)]) (resolver : R) :
    Accounted { x with
      targetResolver := resolver
      submitter := s
      submittedBatches := x.submittedBatches ++ [batchId]
      submittedTransfers := x.submittedTransfers ++ [.fromSpan span batchId requests.length] }
      (c.receive ⟨span, some (batchId, requests.length)⟩) := by
  constructor
  case aligned => simp [h.aligned, KvSubmittedBatch.fromSpan]
  case held_eq =>
    show (_ ::ₘ c.held).map Parcel.batch? = _
    rw [Multiset.map_cons, h.held_eq, ← Multiset.coe_add, Multiset.map_add, add_comm]
    rfl
  case settled_eq => exact h.settled_eq
  case releasedIn =>
    intro d hd
    rw [hs]
    exact (h.releasedIn d hd).append _
  case submitted_eq =>
    rw [c.items_receive, Multiset.filterMap_cons_some _ _ _ (by rfl), h.submitted_eq, hs,
      submittedIds_append, submittedIds_submit_ok, Multiset.cons_coe]
    exact Multiset.coe_eq_coe.mpr (List.perm_append_singleton _ _).symm
  case freed_eq =>
    rw [c.released_receive, h.freed_eq, hs, freedIds_append, freedIds_submit, List.append_nil]
  case created =>
    intro transfer htransfer
    rcases List.mem_append.mp htransfer with hold | hnew
    · obtain ⟨requests', hcreated, hrequests⟩ := h.created transfer hold
      exact ⟨requests', by simp [hs, hcreated], hrequests⟩
    · obtain rfl := List.mem_singleton.mp hnew
      exact ⟨requests, by simp [hs, KvSubmittedBatch.fromSpan], rfl⟩
  case lawful =>
    rw [hs]
    exact h.lawful.concat fun _ _ heq => by cases heq

/-- There is nothing to transfer for a span, and its event is queued at once. -/
theorem Accounted.acceptEmpty (h : x.Accounted c) (span : KvCacheTransferSpan) (resolver : R) :
    Accounted { x with
      targetResolver := resolver
      completionEvents := x.completionEvents ++
        [⟨span.bootstrapRoom, span.descriptorChecksum, .completed⟩] }
      (c.receiveSettled ⟨span, none⟩ []) := by
  constructor
  case aligned => exact h.aligned
  case held_eq => exact h.held_eq
  case settled_eq =>
    show ((⟨span, none⟩, []) ::ₘ c.settled).map (fun d => d.1.event d.2) = _
    rw [Multiset.map_cons, h.settled_eq]
    exact Multiset.coe_eq_coe.mpr (List.perm_append_singleton _ _).symm
  case releasedIn =>
    intro d hd
    have hd' : d ∈ (⟨span, none⟩, []) ::ₘ c.settled + c.delivered := hd
    rw [Multiset.cons_add, Multiset.mem_cons] at hd'
    rcases hd' with rfl | hold
    · rfl
    · exact h.releasedIn d hold
  case submitted_eq =>
    rw [c.items_receiveSettled, Multiset.filterMap_cons_none _ _ (by rfl)]
    exact h.submitted_eq
  case freed_eq =>
    rw [c.released_receiveSettled, Multiset.filterMap_cons_none _ _ (by rfl)]
    exact h.freed_eq
  case created => exact h.created
  case lawful => exact h.lawful

/-- A submission that succeeds takes in its span, one that fails takes in nothing. -/
theorem Accounted.submit [KvTransferTargetResolver R] [KvTransferSubmitter S] (h : x.Accounted c)
    (span : KvCacheTransferSpan) :
    ((x.submit span).2 = .ok () ∧ ∃ (p : Parcel) (c' : SpanCustody), p.span = span ∧
      Accounted (x.submit span).1 c' ∧ c'.items = p ::ₘ c.items ∧
      c'.delivered = c.delivered ∧ c'.withdrawn = c.withdrawn) ∨
    (∃ error, (x.submit span).2 = .error error) ∧ Accounted (x.submit span).1 c := by
  rw [KvCacheTransferExecutor.submit]
  split
  · exact .inr ⟨⟨_, rfl⟩, h⟩
  · split
    · exact .inr ⟨⟨_, rfl⟩, h.congr rfl rfl rfl rfl⟩
    · next resolver _ =>
      exact .inl ⟨rfl, ⟨span, none⟩, _, rfl, h.acceptEmpty span resolver,
        c.items_receiveSettled _ _, rfl, rfl⟩
    · next resolver requests _ _ =>
      split
      · next s error hsubmit =>
        have hobserve := h.observe (s := s)
          ⟨_, Recorded.calls_submitTransfer hsubmit, by simp [TransportCall.IsPassive]⟩
        exact .inr ⟨⟨_, rfl⟩, hobserve.congr rfl rfl rfl rfl⟩
      · next s batchId hsubmit =>
        exact .inl ⟨rfl, _, _, rfl, h.accept (Recorded.calls_submitTransfer hsubmit) resolver,
          c.items_receive _, rfl, rfl⟩

/-! ### Polls -/

/-- A poll that succeeds hands over the queued events and the new ones, one that fails keeps them
queued. -/
theorem Accounted.poll [KvTransferStatusReader S] [KvBatchReleaser S] (h : x.Accounted c) :
    (∃ poll c', x.pollSubmittedTransfers.2 = .ok poll ∧ Accounted x.pollSubmittedTransfers.1 c' ∧
      c'.items = c.items ∧ c'.withdrawn = c.withdrawn ∧
      c'.delivered.map (fun d => d.1.event d.2) =
        c.delivered.map (fun d => d.1.event d.2) + poll.events) ∨
    ∃ error c', x.pollSubmittedTransfers.2 = .error error ∧
      Accounted x.pollSubmittedTransfers.1 c' ∧ SpanCustody.Moved [] c c' := by
  obtain ⟨c', hc', hmoved⟩ := h.pollFrom x.submittedTransfers.length 0
  rw [pollSubmittedTransfers]
  split
  · next hpoll =>
    rw [hpoll] at hc'
    exact .inr ⟨_, c', rfl, hc', hmoved⟩
  · next y hpoll =>
    rw [hpoll] at hc'
    refine .inl ⟨_, c'.deliver, rfl, ?_, c'.items_deliver.trans hmoved.items_eq, ?_, ?_⟩
    · constructor
      case aligned => exact hc'.aligned
      case held_eq => exact hc'.held_eq
      case settled_eq => rfl
      case releasedIn =>
        intro d hd
        refine hc'.releasedIn d ?_
        have hd' : d ∈ 0 + (c'.delivered + c'.settled) := hd
        rwa [zero_add, add_comm] at hd'
      case submitted_eq => exact c'.items_deliver ▸ hc'.submitted_eq
      case freed_eq => exact c'.released_deliver ▸ hc'.freed_eq
      case created => exact hc'.created
      case lawful => exact hc'.lawful
    · exact hmoved.withdrawn_eq
    · show (c'.delivered + c'.settled).map _ = _
      rw [Multiset.map_add, hmoved.delivered_eq, hc'.settled_eq]

end KvCacheTransferExecutor

/-! ### Runs -/

/-- The calls an executor receives, a cancellation and a shutdown with the number of polls that each
wait for a batch gets. -/
inductive ExecutorCall (L : Type) where
  | register (registration : Except KvCacheTransferError L)
  | insertRemoteKvSessionLayout (bootstrapRoom : BootstrapRoom) (sessionId : String)
      (layout : KvRemoteLayout)
  | submit (span : KvCacheTransferSpan)
  | poll
  | cancel (fuel : ℕ) (bootstrapRoom : BootstrapRoom)
  | shutdown (fuel : ℕ)

/-- The rooms and checksums of the transfers with the transport and of the queued events. -/
def KvCacheTransferExecutor.outstanding {S R L : Type} (x : KvCacheTransferExecutor S R L) :
    List (BootstrapRoom × String) :=
  x.submittedTransfers.map KvSubmittedBatch.key ++ x.completionEvents.map (·.key)

/-- The spans that are held or settled are those that the executor knows. -/
theorem KvCacheTransferExecutor.Accounted.map_key_eq {S R L : Type} [Sha256]
    {x : KvCacheTransferExecutor (Recorded S) R L} {c : SpanCustody} (h : x.Accounted c) :
    (c.held + c.settled.map Prod.fst).map Parcel.key = x.outstanding := by
  have hheld : c.held.map Parcel.key = x.submittedTransfers.map KvSubmittedBatch.key := by
    have hmap := congrArg (Multiset.map (Option.map KvSubmittedBatch.key)) h.held_eq
    rw [Multiset.map_map, Multiset.map_map] at hmap
    refine Multiset.map_injective (Option.some_injective _) ?_
    rw [Multiset.map_map]
    refine (Multiset.map_congr rfl fun p hp => ?_).trans (hmap.trans ?_)
    · have hmem := Multiset.mem_map_of_mem Parcel.batch? hp
      rw [h.held_eq] at hmem
      obtain ⟨transfer, -, hbatch⟩ := Multiset.mem_map.mp hmem
      obtain ⟨carrier, -, rfl⟩ := Option.map_eq_some_iff.mp hbatch.symm
      exact congrArg (Option.map KvSubmittedBatch.key) hbatch
    · rw [Multiset.map_coe, Multiset.map_coe, List.map_map]
      rfl
  have hsettled := congrArg (Multiset.map KvTransferCompletionEvent.key) h.settled_eq
  rw [Multiset.map_map] at hsettled
  rw [Multiset.map_add, Multiset.map_map, hheld, outstanding, ← Multiset.coe_add]
  exact congrArg _ hsettled

/-- An executor with the spans it has accepted, the events its polls have returned, the spans that
were there when their room was cancelled, and the rooms and checksums of those that were still
outstanding then. -/
structure Session (S R L : Type) where
  executor : KvCacheTransferExecutor (Recorded S) R L
  submitted : List KvCacheTransferSpan := []
  returned : List KvTransferCompletionEvent := []
  cancelled : List KvCacheTransferSpan := []
  found : List (BootstrapRoom × String) := []

namespace Session

variable {S R L : Type}

/-- A new executor over the given transport. -/
def new (submitter : S) (layout : KvTransferLayout) (targetResolver : R) : Session S R L :=
  { executor := KvCacheTransferExecutor.new ⟨submitter, []⟩ layout targetResolver }

variable [Sha256]

/-- The spans of a session, each with its batch, by what has become of them. -/
structure Accounts (s : Session S R L) (c : SpanCustody) : Prop where
  accounted : s.executor.Accounted c
  submitted_eq : c.items.map Parcel.span = s.submitted
  returned_eq : c.delivered.map (fun d => d.1.event d.2) = s.returned
  cancelled_le : c.withdrawn.map Parcel.span ≤ s.cancelled
  found_le : c.withdrawn.map Parcel.key ≤ s.found

theorem accounts_new (submitter : S) (layout : KvTransferLayout) (targetResolver : R) :
    (new submitter layout targetResolver : Session S R L).Accounts {} :=
  ⟨KvCacheTransferExecutor.accounted_new submitter layout targetResolver, rfl, rfl, le_rfl, le_rfl⟩

variable [KvTransferTargetResolver R] [KvTransferSubmitter S] [KvTransferStatusReader S]
  [KvBatchReleaser S] [KvMemoryRegistrationLease L]

/-- One call. -/
def step (s : Session S R L) : ExecutorCall L → Session S R L
  | .register registration => { s with executor := (s.executor.register registration).1 }
  | .insertRemoteKvSessionLayout room sessionId layout =>
      { s with executor := s.executor.insertRemoteKvSessionLayout room sessionId layout }
  | .submit span =>
      match s.executor.submit span with
      | (executor, .ok ()) => { s with executor, submitted := s.submitted ++ [span] }
      | (executor, .error _) => { s with executor }
  | .poll =>
      match s.executor.pollSubmittedTransfers with
      | (executor, .ok poll) => { s with executor, returned := s.returned ++ poll.events }
      | (executor, .error _) => { s with executor }
  | .cancel fuel room =>
      { s with
        executor := (s.executor.cancelSubmittedTransfersForRoom fuel room).1
        cancelled := s.cancelled ++ s.submitted.filter fun span => span.bootstrapRoom ∈ [room]
        found := s.found ++ s.executor.outstanding.filter fun key => key.1 ∈ [room] }
  | .shutdown fuel =>
      { s with
        executor := (s.executor.shutdown fuel).1
        cancelled := s.cancelled ++ s.submitted.filter fun span =>
          span.bootstrapRoom ∈ s.executor.submittedTransfers.map (·.bootstrapRoom)
        found := s.found ++ s.executor.outstanding.filter fun key =>
          key.1 ∈ s.executor.submittedTransfers.map (·.bootstrapRoom) }

variable {s : Session S R L} {c : SpanCustody}

/-- Every call keeps account. -/
theorem Accounts.step (h : s.Accounts c) (call : ExecutorCall L) :
    ∃ c', (s.step call).Accounts c' := by
  obtain ⟨haccounted, hsubmitted, hreturned, hcancelled, hfound⟩ := h
  have hle : c.held + c.settled.map Prod.fst ≤ c.items := by
    rw [Custody.items, Custody.released, add_assoc, ← add_assoc]
    exact Multiset.le_add_right _ _
  cases call with
  | register registration =>
    refine ⟨c, ?_, hsubmitted, hreturned, hcancelled, hfound⟩
    show KvCacheTransferExecutor.Accounted (s.executor.register registration).1 c
    unfold KvCacheTransferExecutor.register
    split
    · exact haccounted
    · split
      · exact haccounted
      · exact haccounted.congr rfl rfl rfl rfl
  | insertRemoteKvSessionLayout room sessionId layout =>
    exact ⟨c, haccounted.congr rfl rfl rfl rfl, hsubmitted, hreturned, hcancelled, hfound⟩
  | submit span =>
    rw [Session.step]
    rcases haccounted.submit span with ⟨hok, p, c', hp, hc', hitems, hdelivered, hwithdrawn⟩ |
      ⟨⟨error, herror⟩, hc⟩
    · split
      · next hresult =>
        rw [hresult] at hc'
        refine ⟨c', hc', ?_, hdelivered ▸ hreturned, hwithdrawn ▸ hcancelled, hwithdrawn ▸ hfound⟩
        rw [hitems, Multiset.map_cons, hsubmitted, hp]
        exact Multiset.coe_eq_coe.mpr (List.perm_append_singleton _ _).symm
      · next hresult => simp [hresult] at hok
    · split
      · next hresult => simp [hresult] at herror
      · next hresult =>
        rw [hresult] at hc
        exact ⟨c, hc, hsubmitted, hreturned, hcancelled, hfound⟩
  | poll =>
    rw [Session.step]
    rcases haccounted.poll with ⟨poll, c', hok, hc', hitems, hwithdrawn, hevents⟩ |
      ⟨error, c', herror, hc', hmoved⟩
    · split
      · next hresult =>
        rw [hresult] at hok hc'
        obtain rfl := Except.ok.inj hok
        refine ⟨c', hc', hitems ▸ hsubmitted, ?_, hwithdrawn ▸ hcancelled, hwithdrawn ▸ hfound⟩
        rw [hevents, hreturned, Multiset.coe_add]
      · next hresult => simp [hresult] at hok
    · split
      · next hresult => simp [hresult] at herror
      · next hresult =>
        rw [hresult] at hc'
        have hwithdrawn : c'.withdrawn = c.withdrawn := hmoved.withdrawn_eq
        exact ⟨c', hc', hmoved.items_eq ▸ hsubmitted, hmoved.delivered_eq ▸ hreturned,
          hwithdrawn ▸ hcancelled, hwithdrawn ▸ hfound⟩
  | cancel fuel room =>
    obtain ⟨c', hc', hmoved⟩ := haccounted.cancel fuel room
    exact ⟨c', hc', hmoved.items_eq ▸ hsubmitted, hmoved.delivered_eq ▸ hreturned,
      hmoved.map_withdrawn_le hle hsubmitted (fun _ => id) hcancelled,
      hmoved.map_withdrawn_le le_rfl haccounted.map_key_eq (fun _ => id) hfound⟩
  | shutdown fuel =>
    obtain ⟨c', hc', hmoved⟩ := haccounted.shutdown fuel
    exact ⟨c', hc', hmoved.items_eq ▸ hsubmitted, hmoved.delivered_eq ▸ hreturned,
      hmoved.map_withdrawn_le hle hsubmitted (fun _ => id) hcancelled,
      hmoved.map_withdrawn_le le_rfl haccounted.map_key_eq (fun _ => id) hfound⟩

theorem accounts_run (s : Session S R L) (c : SpanCustody) (h : s.Accounts c)
    (calls : List (ExecutorCall L)) : ∃ c', (calls.foldl Session.step s).Accounts c' := by
  refine Transition.foldl_invariant (P := fun _ _ => True) (I := fun s => ∃ c', Accounts s c') ?_
    (Transition.along_of_forall (fun _ _ => trivial) s calls) ⟨c, h⟩
  rintro s call - ⟨c, hc⟩
  exact hc.step call

end Session

section

variable {S R L : Type} [Sha256] [KvTransferTargetResolver R] [KvTransferSubmitter S]
  [KvTransferStatusReader S] [KvBatchReleaser S] [KvMemoryRegistrationLease L]

/-- **The account of the transfers.** After every sequence of calls, whatever the transport answers:
the two vectors are aligned; every attempt to release a batch followed a full sweep that found none
of its tasks under way, and no batch is released more often than it was created; and the spans
accepted so far divide into those whose batch is with the transport, those whose event is queued,
those whose event has been returned by a poll, and some of those that a cancellation found with the
transport or queued, each event being a failure iff a task of its batch has failed. The next poll
that succeeds returns all queued events, and leaves only batches with a task under way. -/
theorem transfers_accounted (submitter : S) (layout : KvTransferLayout) (targetResolver : R)
    (calls : List (ExecutorCall L)) :
    let s := calls.foldl Session.step (Session.new submitter layout targetResolver)
    let x := s.executor
    x.submittedBatches = x.submittedTransfers.map (·.batchId) ∧
    Lawful x.submitter.calls ∧
    (∃ c : SpanCustody,
      c.held + c.settled.map Prod.fst + c.delivered.map Prod.fst + c.withdrawn = c.items ∧
      c.items.map Parcel.span = s.submitted ∧
      c.held.map Parcel.batch? = (x.submittedTransfers : Multiset KvSubmittedBatch).map some ∧
      c.settled.map (fun d => d.1.event d.2) = x.completionEvents ∧
      c.delivered.map (fun d => d.1.event d.2) = s.returned ∧
      c.withdrawn.map Parcel.span ≤ s.cancelled ∧
      c.withdrawn.map Parcel.key ≤ s.found ∧
      c.released.filterMap Parcel.batchId? = freedIds x.submitter.calls ∧
      ∀ d ∈ c.settled + c.delivered, d.1.ReleasedIn x.submitter.calls d.2 ∧
        ((d.1.event d.2).status = .completed ∨ ∃ message, (d.1.event d.2).status = .failed message) ∧
        ((∃ message, (d.1.event d.2).status = .failed message) ↔ ∃ answer ∈ d.2, answer.Failure)) ∧
    ∀ y poll, x.pollSubmittedTransfers = (y, .ok poll) →
      x.completionEvents <+: poll.events ∧ y.completionEvents = [] ∧
      poll.pendingTransfers = y.submittedTransfers.length ∧
      ∃ more, y.submitter.calls = x.submitter.calls ++ more ∧
        ∀ transfer ∈ y.submittedTransfers,
          KvCacheTransferExecutor.FoundActive more transfer := by
  intro s x
  obtain ⟨c, hc⟩ := Session.accounts_run _ _
    (Session.accounts_new (L := L) submitter layout targetResolver) calls
  have hx := hc.accounted
  refine ⟨hx.aligned, hx.lawful, ⟨c, ?_, hc.submitted_eq, hx.held_eq, hx.settled_eq, hc.returned_eq,
    hc.cancelled_le, hc.found_le, hx.freed_eq, fun d hd => ⟨hx.releasedIn d hd,
      d.1.status_eq_completed_or_failed d.2, (hx.releasedIn d hd).status_eq_failed⟩⟩, ?_⟩
  · rw [Custody.items, Custody.released, ← add_assoc, ← add_assoc]
  · intro y poll hpoll
    rw [KvCacheTransferExecutor.pollSubmittedTransfers] at hpoll
    split at hpoll
    · simp at hpoll
    · next z hfrom =>
      obtain ⟨rfl, hresult⟩ := Prod.mk.inj hpoll
      obtain rfl := Except.ok.inj hresult
      obtain ⟨hevents, more, passed, hcalls, htransfers, hpassed⟩ :=
        KvCacheTransferExecutor.pollFrom_ok hfrom (Nat.zero_add _).ge
      refine ⟨hevents, rfl, rfl, more, hcalls, fun transfer hmem => hpassed transfer ?_⟩
      simpa [htransfers] using hmem

end

end SglangRs
