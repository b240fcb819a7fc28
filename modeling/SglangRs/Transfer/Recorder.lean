import Mathlib.Data.List.InsertIdx
import SglangRs.Transfer.Executor

/-!
# The calls a transport receives

A `Recorded` transport answers as the transport it wraps and keeps the list of calls with their
answers. The executor is generic in its transport, so its dealings with any transport are those with
the recorded one, and the record shows them. A status sweep over a batch appears in the record as
the calls `sweepCalls`, one for each task, in the order of the tasks.

## Main definitions

* `TransportCall`, `Recorded`: the record of a transport.
* `KvTransferStatus.Active`, `KvTransferStatus.Failure`: what an answer says about a task.
* `TaskSweep.after`: what a sweep finds when the transport gives the answers.

## Main results

* `pollKvSubmittedBatch_spec`: the calls of a sweep, and what the sweep finds.
* `awaitBatch_spec`: the calls of the polls of a cancellation.
* `KvCacheTransferExecutor.pollFrom_ok`: what a poll leaves behind.
-/

namespace SglangRs

/-- A call of the transport with its answer. -/
inductive TransportCall where
  | submit (requests : List KvTransferRequest) (answer : Except String KvBatchId)
  | status (batchId : KvBatchId) (taskId : ℕ) (answer : Except String KvTransferStatus)
  | free (batchId : KvBatchId) (answer : Except String Unit)

namespace TransportCall

/-- The batch a call has created. -/
def submittedId? : TransportCall → Option KvBatchId
  | .submit _ (.ok batchId) => some batchId
  | _ => none

/-- The batch a call has released. -/
def freedId? : TransportCall → Option KvBatchId
  | .free batchId (.ok ()) => some batchId
  | _ => none

/-- The call neither creates a batch nor tries to release one. -/
def IsPassive : TransportCall → Prop
  | .status _ _ _ => True
  | .submit _ (.error _) => True
  | _ => False

theorem IsPassive.submittedId?_eq {call : TransportCall} (h : call.IsPassive) :
    call.submittedId? = none := by
  unfold IsPassive at h
  split at h
  · rfl
  · rfl
  · exact h.elim

theorem IsPassive.freedId?_eq {call : TransportCall} (h : call.IsPassive) :
    call.freedId? = none := by
  unfold IsPassive at h
  split at h
  · rfl
  · rfl
  · exact h.elim

end TransportCall

/-- A transport with the calls it has received, in order. -/
structure Recorded (S : Type) where
  transport : S
  calls : List TransportCall := []

namespace Recorded

variable {S : Type}

instance [KvTransferSubmitter S] : KvTransferSubmitter (Recorded S) where
  submitTransfer s requests :=
    let (transport, answer) := submitTransfer s.transport requests
    (⟨transport, s.calls ++ [.submit requests answer]⟩, answer)

instance [KvTransferStatusReader S] : KvTransferStatusReader (Recorded S) where
  transferStatus s batchId taskId :=
    let (transport, answer) := transferStatus s.transport batchId taskId
    (⟨transport, s.calls ++ [.status batchId taskId answer]⟩, answer)

instance [KvBatchReleaser S] : KvBatchReleaser (Recorded S) where
  freeBatch s batchId :=
    let (transport, answer) := freeBatch s.transport batchId
    (⟨transport, s.calls ++ [.free batchId answer]⟩, answer)

theorem calls_submitTransfer [KvTransferSubmitter S] {s s' : Recorded S}
    {requests : List KvTransferRequest} {answer : Except String KvBatchId}
    (h : submitTransfer s requests = (s', answer)) :
    s'.calls = s.calls ++ [.submit requests answer] := by
  simp only [submitTransfer, Prod.mk.injEq] at h
  obtain ⟨rfl, rfl⟩ := h
  rfl

theorem calls_transferStatus [KvTransferStatusReader S] {s s' : Recorded S} {batchId : KvBatchId}
    {taskId : ℕ} {answer : Except String KvTransferStatus}
    (h : transferStatus s batchId taskId = (s', answer)) :
    s'.calls = s.calls ++ [.status batchId taskId answer] := by
  simp only [transferStatus, Prod.mk.injEq] at h
  obtain ⟨rfl, rfl⟩ := h
  rfl

theorem calls_freeBatch [KvBatchReleaser S] {s s' : Recorded S} {batchId : KvBatchId}
    {answer : Except String Unit} (h : freeBatch s batchId = (s', answer)) :
    s'.calls = s.calls ++ [.free batchId answer] := by
  simp only [freeBatch, Prod.mk.injEq] at h
  obtain ⟨rfl, rfl⟩ := h
  rfl

/-- The record has grown by calls that neither create nor release a batch. -/
def Observes (s s' : Recorded S) : Prop :=
  ∃ calls : List TransportCall, s'.calls = s.calls ++ calls ∧ ∀ call ∈ calls, call.IsPassive

theorem Observes.refl (s : Recorded S) : s.Observes s := ⟨[], by simp, by simp⟩

theorem Observes.trans {s s' s'' : Recorded S} (h : s.Observes s') (h' : s'.Observes s'') :
    s.Observes s'' := by
  obtain ⟨first, hfirst, hpassive⟩ := h
  obtain ⟨second, hsecond, hpassive'⟩ := h'
  refine ⟨first ++ second, by rw [hsecond, hfirst, List.append_assoc], fun call hcall => ?_⟩
  exact (List.mem_append.mp hcall).elim (hpassive call) (hpassive' call)

end Recorded

/-! ### Answers -/

namespace KvTransferStatus

/-- The task has not ended. -/
def Active (answer : KvTransferStatus) : Prop :=
  ∃ code, KvTransferStatusCode.tryFrom answer.status = .ok code ∧ code.isActive

/-- The task has ended without transferring its data. -/
def Failure (answer : KvTransferStatus) : Prop :=
  ∃ code, KvTransferStatusCode.tryFrom answer.status = .ok code ∧ code.isFailure

/-- The code is a known one. -/
def Known (answer : KvTransferStatus) : Prop :=
  ∃ code, KvTransferStatusCode.tryFrom answer.status = .ok code

end KvTransferStatus

/-- The calls of a sweep, from the given task on. -/
def sweepCalls (batchId : KvBatchId) (answers : List KvTransferStatus) (start : ℕ := 0) :
    List TransportCall :=
  (answers.zipIdx start).map fun answer => .status batchId answer.2 (.ok answer.1)

/-- Every task of a batch has ended, and the transport has said so with a known code. -/
def Ended (answers : List KvTransferStatus) : Prop :=
  ∀ answer ∈ answers, answer.Known ∧ ¬ answer.Active

namespace TaskSweep

/-- What a sweep has found after the given answers, from the given task on. -/
def after (batchId : KvBatchId) : ℕ → TaskSweep → List KvTransferStatus → TaskSweep
  | _, sweep, [] => sweep
  | taskId, sweep, answer :: answers =>
      match KvTransferStatusCode.tryFrom answer.status with
      | .error _ => sweep
      | .ok code => after batchId (taskId + 1) (sweep.record batchId taskId answer.status code) answers

variable (batchId : KvBatchId) {answers : List KvTransferStatus}

theorem pending_record (sweep : TaskSweep) (taskId : ℕ) (status : ℤ) (code : KvTransferStatusCode) :
    (sweep.record batchId taskId status code).pending = (sweep.pending || code.isActive) := by
  cases code <;> simp [record, KvTransferStatusCode.isActive]

theorem isSome_failure_record (sweep : TaskSweep) (taskId : ℕ) (status : ℤ)
    (code : KvTransferStatusCode) : (sweep.record batchId taskId status code).failure.isSome =
      (sweep.failure.isSome || code.isFailure) := by
  cases code <;>
    simp [record, KvTransferStatusCode.isActive, KvTransferStatusCode.isFailure]

theorem completedTasks_record (sweep : TaskSweep) (taskId : ℕ) (status : ℤ)
    (code : KvTransferStatusCode) (hactive : ¬ code.isActive) (hfailure : ¬ code.isFailure) :
    (sweep.record batchId taskId status code).completedTasks = sweep.completedTasks + 1 := by
  cases code <;>
    simp [record, KvTransferStatusCode.isActive, KvTransferStatusCode.isFailure] at *

/-- A sweep finds a task that has not ended iff there is one. -/
theorem pending_after (hknown : ∀ answer ∈ answers, answer.Known) (start : ℕ) (sweep : TaskSweep) :
    (after batchId start sweep answers).pending ↔
      sweep.pending ∨ ∃ answer ∈ answers, answer.Active := by
  induction answers generalizing start sweep with
  | nil => simp [after]
  | cons answer answers ih =>
    obtain ⟨⟨code, hcode⟩, hrest⟩ := List.forall_mem_cons.mp hknown
    simp only [after, hcode]
    rw [ih hrest, pending_record]
    have hactive : answer.Active ↔ code.isActive = true := by
      simp [KvTransferStatus.Active, hcode]
    simp [hactive, or_assoc]

/-- A sweep finds a failure iff a task has failed. -/
theorem isSome_failure_after (hknown : ∀ answer ∈ answers, answer.Known) (start : ℕ)
    (sweep : TaskSweep) : (after batchId start sweep answers).failure.isSome ↔
      sweep.failure.isSome ∨ ∃ answer ∈ answers, answer.Failure := by
  induction answers generalizing start sweep with
  | nil => simp [after]
  | cons answer answers ih =>
    obtain ⟨⟨code, hcode⟩, hrest⟩ := List.forall_mem_cons.mp hknown
    simp only [after, hcode]
    rw [ih hrest, isSome_failure_record]
    have hfailure : answer.Failure ↔ code.isFailure = true := by
      simp [KvTransferStatus.Failure, hcode]
    simp [hfailure, or_assoc]

/-- If no task is under way and none has failed, all have completed. -/
theorem completedTasks_after (hended : Ended answers)
    (hfailure : ¬ ∃ answer ∈ answers, answer.Failure) (start : ℕ) (sweep : TaskSweep) :
    (after batchId start sweep answers).completedTasks = sweep.completedTasks + answers.length := by
  induction answers generalizing start sweep with
  | nil => simp [after]
  | cons answer answers ih =>
    obtain ⟨⟨⟨code, hcode⟩, hactive⟩, hrest⟩ := List.forall_mem_cons.mp hended
    have hnot : ¬ answer.Failure := fun h => hfailure ⟨answer, List.mem_cons_self, h⟩
    have htail : ¬ ∃ answer ∈ answers, answer.Failure :=
      fun ⟨a, ha, h⟩ => hfailure ⟨a, List.mem_cons_of_mem _ ha, h⟩
    have hcompleted := completedTasks_record batchId sweep start answer.status code
      (fun h => hactive ⟨code, hcode, h⟩) (fun h => hnot ⟨code, hcode, h⟩)
    simp only [after, hcode]
    rw [ih hrest htail, hcompleted, List.length_cons]
    omega

/-- A batch is pending iff one of its tasks has not ended. -/
theorem state_after_eq_pending (hknown : ∀ answer ∈ answers, answer.Known) :
    (after batchId 0 {} answers).state answers.length = .pending ↔
      ∃ answer ∈ answers, answer.Active := by
  have hpending := pending_after batchId hknown 0 {}
  have hfailure := isSome_failure_after batchId hknown 0 {}
  simp only [Bool.false_eq_true, Option.isSome_none, false_or] at hpending hfailure
  by_cases hactive : ∃ answer ∈ answers, answer.Active
  · simp [state, hpending.mpr hactive, hactive]
  · have hnot : ¬ (after batchId 0 {} answers).pending = true := fun h => hactive (hpending.mp h)
    simp only [state, if_neg hnot, hactive, iff_false]
    by_cases hfailed : ∃ answer ∈ answers, answer.Failure
    · obtain ⟨message, hmessage⟩ := Option.isSome_iff_exists.mp (hfailure.mpr hfailed)
      simp [hmessage]
    · have hnone : (after batchId 0 {} answers).failure = none := by
        rw [← Option.not_isSome_iff_eq_none]
        exact fun h => hfailed (hfailure.mp h)
      have hended : Ended answers := fun a ha => ⟨hknown a ha, fun h => hactive ⟨a, ha, h⟩⟩
      have hcount := completedTasks_after batchId hended hfailed 0 {}
      simp [hnone, hcount]

/-- A batch all of whose tasks have ended has failed iff one of them has. -/
theorem state_after_eq_failed (hended : Ended answers) :
    (∃ message, (after batchId 0 {} answers).state answers.length = .failed message) ↔
      ∃ answer ∈ answers, answer.Failure := by
  have hknown : ∀ answer ∈ answers, answer.Known := fun a ha => (hended a ha).1
  have hpending := pending_after batchId hknown 0 {}
  have hfailure := isSome_failure_after batchId hknown 0 {}
  simp only [Bool.false_eq_true, Option.isSome_none, false_or] at hpending hfailure
  have hnot : ¬ (after batchId 0 {} answers).pending = true :=
    fun h => (hpending.mp h).elim fun a ha => (hended a ha.1).2 ha.2
  rw [← hfailure]
  simp only [state, if_neg hnot]
  cases (after batchId 0 {} answers).failure with
  | none =>
    simp only [Option.isSome_none, Bool.false_eq_true, iff_false, not_exists]
    intro message
    split <;> simp
  | some message => simp

end TaskSweep

/-! ### Sweeps -/

section Sweeps

variable {S : Type} [KvTransferStatusReader S] {s s' : Recorded S}

theorem sweepTasks_spec {batchId : KvBatchId} {n start : ℕ} {sweep sweep' : TaskSweep}
    (h : sweepTasks batchId (List.range' start n) sweep s = (s', .ok sweep')) :
    ∃ answers : List KvTransferStatus, answers.length = n ∧
      (∀ answer ∈ answers, answer.Known) ∧ s'.calls = s.calls ++ sweepCalls batchId answers start ∧
      sweep' = sweep.after batchId start answers := by
  induction n generalizing start sweep s with
  | zero =>
    simp only [List.range'_zero, sweepTasks, Prod.mk.injEq, Except.ok.injEq] at h
    obtain ⟨rfl, rfl⟩ := h
    exact ⟨[], rfl, by simp, by simp [sweepCalls], rfl⟩
  | succ n ih =>
    rw [List.range'_succ, sweepTasks] at h
    split at h
    · simp at h
    · next s₁ status hpassive =>
      split at h
      · simp at h
      · next code hcode =>
        obtain ⟨answers, hlength, hknown, hcalls, rfl⟩ := ih h
        refine ⟨status :: answers, by simp [hlength], ?_, ?_, by simp [TaskSweep.after, hcode]⟩
        · exact List.forall_mem_cons.mpr ⟨⟨code, hcode⟩, hknown⟩
        · rw [hcalls, Recorded.calls_transferStatus hpassive]
          simp [sweepCalls]

theorem observes_sweepTasks (s : Recorded S) (batchId : KvBatchId) (tasks : List ℕ)
    (sweep : TaskSweep) : s.Observes (sweepTasks batchId tasks sweep s).1 := by
  induction tasks generalizing sweep s with
  | nil => exact Recorded.Observes.refl s
  | cons taskId tasks ih =>
    rw [sweepTasks]
    have hstep : ∀ {s₁ : Recorded S} {answer}, transferStatus s batchId taskId = (s₁, answer) →
        s.Observes s₁ := fun h =>
      ⟨[_], Recorded.calls_transferStatus h, by simp [TransportCall.IsPassive]⟩
    split
    · next h => exact hstep h
    · next h =>
      split
      · exact hstep h
      · exact (hstep h).trans (ih _ _)

theorem observes_poll (batch : KvSubmittedBatch) : s.Observes (pollKvSubmittedBatch s batch).1 := by
  have hsweep := observes_sweepTasks s batch.batchId (List.range batch.taskCount) {}
  rw [pollKvSubmittedBatch]
  split
  all_goals
    next h =>
      rw [h] at hsweep
      exact hsweep

/-- A sweep that comes to an end has asked for the status of every task once. The batch is pending
iff a task has not ended. -/
theorem pollKvSubmittedBatch_spec {batch : KvSubmittedBatch} {state : KvPolledBatchState}
    (h : pollKvSubmittedBatch s batch = (s', .ok state)) :
    ∃ answers : List KvTransferStatus, answers.length = batch.taskCount ∧
      s'.calls = s.calls ++ sweepCalls batch.batchId answers ∧
      state = (TaskSweep.after batch.batchId 0 {} answers).state batch.taskCount ∧
      (state = .pending ↔ ∃ answer ∈ answers, answer.Active) ∧ (state ≠ .pending → Ended answers) := by
  rw [pollKvSubmittedBatch, List.range_eq_range'] at h
  split at h
  · simp at h
  · next s₁ sweep hsweep =>
    obtain ⟨rfl, hstate⟩ := Prod.mk.inj h
    obtain ⟨answers, hlength, hknown, hcalls, rfl⟩ := sweepTasks_spec hsweep
    have hstate := Except.ok.inj hstate
    have hpending : state = .pending ↔ ∃ answer ∈ answers, answer.Active := by
      rw [← hstate, ← hlength]
      exact TaskSweep.state_after_eq_pending batch.batchId hknown
    refine ⟨answers, hlength, hcalls, hstate.symm, hpending, fun hne a ha => ⟨hknown a ha, ?_⟩⟩
    exact fun hactive => hne (hpending.mpr ⟨a, ha, hactive⟩)

theorem observes_awaitBatch (batch : KvSubmittedBatch) (fuel : ℕ) (s : Recorded S) :
    s.Observes (awaitBatch batch fuel s).1 := by
  induction fuel generalizing s with
  | zero => exact Recorded.Observes.refl s
  | succ fuel ih =>
    have hpoll := observes_poll (s := s) batch
    rw [awaitBatch]
    split
    all_goals
      next h =>
        rw [h] at hpoll
        first
        | exact hpoll
        | exact hpoll.trans (ih _)

/-- The polls of a cancellation end with a sweep that finds every task ended. -/
theorem awaitBatch_spec {batch : KvSubmittedBatch} {fuel : ℕ}
    (h : awaitBatch batch fuel s = (s', some (.ok ()))) :
    ∃ (s₁ : Recorded S) (answers : List KvTransferStatus), s.Observes s₁ ∧
      answers.length = batch.taskCount ∧
      s'.calls = s₁.calls ++ sweepCalls batch.batchId answers ∧ Ended answers := by
  induction fuel generalizing s with
  | zero => simp [awaitBatch] at h
  | succ fuel ih =>
    rw [awaitBatch] at h
    split at h
    · simp at h
    · next s₁ hpoll =>
      have hobserves := observes_poll (s := s) batch
      rw [hpoll] at hobserves
      obtain ⟨s₂, answers, hobserves', hrest⟩ := ih h
      exact ⟨s₂, answers, hobserves.trans hobserves', hrest⟩
    all_goals
      next s₁ hpoll =>
        obtain ⟨rfl, -⟩ := Prod.mk.inj h
        obtain ⟨answers, hlength, hcalls, -, -, hended⟩ := pollKvSubmittedBatch_spec hpoll
        exact ⟨s, answers, Recorded.Observes.refl s, hlength, hcalls, hended (by simp)⟩

end Sweeps

/-! ### Polls that come to an end -/

namespace KvCacheTransferExecutor

variable {S R L : Type}

/-- In the given calls a sweep has found a task of the transfer under way. -/
def FoundActive (calls : List TransportCall) (transfer : KvSubmittedBatch) : Prop :=
  ∃ before answers after, calls = before ++ sweepCalls transfer.batchId answers ++ after ∧
    answers.length = transfer.taskCount ∧ ∃ answer ∈ answers, answer.Active

theorem FoundActive.cons {calls : List TransportCall} {transfer : KvSubmittedBatch}
    (h : FoundActive calls transfer) (earlier : List TransportCall) :
    FoundActive (earlier ++ calls) transfer := by
  obtain ⟨before, answers, after, rfl, hlength, hactive⟩ := h
  exact ⟨earlier ++ before, answers, after, by simp, hlength, hactive⟩

/-- A poll that comes to an end keeps the queued events, and passes a transfer only if one of its
tasks is under way. -/
theorem pollFrom_ok [KvTransferStatusReader S] [KvBatchReleaser S]
    {x y : KvCacheTransferExecutor (Recorded S) R L} {n index : ℕ}
    (h : pollFrom n index x = (y, .ok ()))
    (hn : x.submittedTransfers.length ≤ index + n) :
    x.completionEvents <+: y.completionEvents ∧ ∃ calls passed,
      y.submitter.calls = x.submitter.calls ++ calls ∧
      y.submittedTransfers = x.submittedTransfers.take index ++ passed ∧
      ∀ transfer ∈ passed, FoundActive calls transfer := by
  induction n generalizing index x with
  | zero =>
    obtain ⟨rfl, -⟩ := Prod.mk.inj h
    have hle : x.submittedTransfers.length ≤ index := hn
    exact ⟨List.prefix_rfl, [], [], by simp, by simp [List.take_of_length_le hle], by simp⟩
  | succ n ih =>
    rw [pollFrom] at h
    split at h
    · next hnone =>
      obtain ⟨rfl, -⟩ := Prod.mk.inj h
      have hle := List.getElem?_eq_none_iff.mp hnone
      exact ⟨List.prefix_rfl, [], [], by simp, by simp [List.take_of_length_le hle], by simp⟩
    · next transfer ht =>
      obtain ⟨hlt, hget⟩ := List.getElem?_eq_some_iff.mp ht
      split at h
      · simp at h
      · next s hpoll =>
        obtain ⟨answers, hlength, hcalls, -, hactive, -⟩ := pollKvSubmittedBatch_spec hpoll
        obtain ⟨hevents, calls, passed, hcalls', htransfers, hpassed⟩ :=
          ih h (by simpa [Nat.add_assoc, Nat.add_comm 1] using hn)
        refine ⟨hevents, sweepCalls transfer.batchId answers ++ calls, transfer :: passed, ?_, ?_,
          List.forall_mem_cons.mpr ⟨?_, fun t hmem => ?_⟩⟩
        · rw [hcalls', hcalls, List.append_assoc]
        · rw [htransfers, ← List.take_append_getElem hlt, hget]
          simp
        · exact ⟨[], answers, calls, by simp, hlength, hactive.mp rfl⟩
        · exact (hpassed t hmem).cons _
      all_goals
        next s hpoll =>
          split at h
          · simp at h
          · next z hsettle =>
            rw [settleAt] at hsettle
            split at hsettle
            · simp at hsettle
            · next s' hfree =>
              obtain ⟨rfl, -⟩ := Prod.mk.inj hsettle
              obtain ⟨answers, -, hcalls, -⟩ := pollKvSubmittedBatch_spec hpoll
              have hshorter : (x.submittedTransfers.eraseIdx index).length ≤ index + n := by
                rw [List.length_eraseIdx_of_lt hlt]
                omega
              obtain ⟨hevents, calls, passed, hcalls', htransfers, hpassed⟩ := ih h hshorter
              have hs' := Recorded.calls_freeBatch hfree
              rw [hcalls] at hs'
              refine ⟨(List.prefix_append _ _).trans hevents, sweepCalls transfer.batchId answers ++
                [.free transfer.batchId (.ok ())] ++ calls, passed, ?_, ?_, fun t hmem => ?_⟩
              · rw [hcalls']
                show s'.calls ++ calls = _
                rw [hs']
                simp
              · rw [htransfers]
                congr 1
                exact List.take_eraseIdx_eq_take_of_le _ _ _ (Nat.le_refl index)
              · exact (hpassed t hmem).cons _

end KvCacheTransferExecutor

end SglangRs
