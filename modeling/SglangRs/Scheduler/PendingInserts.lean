import SglangRs.Scheduler.Operations
import SglangRs.Transition.Run

/-!
# Pending inserts into the prefix cache

The pages of a disaggregated prompt may be published only when their transfer is done. Until then
the request is kept in `pending_prefix_cache_inserts`, and `reconcile_pending_prefix_cache_inserts`
asks the worker for the state of each of them (`scheduler.rs`, lines 1235–1265). It takes the list
out of the scheduler and walks it: what is ready is published, what is pending is put back, and what
has failed is released once the worker has finished it, or else put back.

An error of the worker in `decode_request_state` returns from the middle of the walk. The request it
was asked for and all those behind it are then in no list any more. To say what became of the
requests, the walk is run with a record of those that it published and those that it released.

## Main definitions

* `Reconciliation`: the scheduler in the walk, with the record.
* `Reconciliation.round`, `Reconciliation.walk`: one round, and the walk.
* `Scheduler.StatesAnswered`: no question of the walk is answered with an error.

## Main results

* `Reconciliation.walk_eq`: the walk is the one of the scheduler.
* `Reconciliation.exists_handled`: the requests that an error does not cut off are accounted for.
* `pending_inserts_kept_iff`: when all requests are accounted for.
-/

namespace SglangRs

open Transition

variable {W : Type}

/-- The scheduler in the walk over the pending inserts, the requests that were published, and those
whose slots were released after the worker had finished them. -/
structure Reconciliation (W : Type) where
  scheduler : Scheduler W
  published : List ScheduledRequest
  released : List ScheduledRequest

namespace Reconciliation

/-- The requests that are accounted for: published, released, or pending again. -/
def accounted (c : Reconciliation W) : List ScheduledRequest :=
  c.published ++ c.released ++ c.scheduler.pendingPrefixCacheInserts

theorem pendingPrefixCacheInserts_publish (s : Scheduler W) (request : ScheduledRequest) (k : ℕ) :
    (s.publishPrefillChunkCachePages request k).pendingPrefixCacheInserts =
      s.pendingPrefixCacheInserts := by
  rw [Scheduler.publishPrefillChunkCachePages_eq]

variable [WorkerExecutor W] (c : Reconciliation W)

/-- The worker tells the state of the request. -/
def Answered (request : ScheduledRequest) : Prop :=
  ∃ state, (WorkerExecutor.decodeRequestState c.scheduler.worker request).2 = .ok state

/-- One round of the walk. -/
def round (request : ScheduledRequest) : Reconciliation W :=
  match WorkerExecutor.decodeRequestState c.scheduler.worker request with
  | (worker, .error _) => { c with scheduler := { c.scheduler with worker } }
  | (worker, .ok .ready) =>
      { c with
        scheduler := { c.scheduler with worker }.publishPrefillChunkCachePages request
          request.promptTokensProcessed
        published := c.published ++ [request] }
  | (worker, .ok .pending) =>
      { c with
        scheduler :=
          { c.scheduler with
            worker
            pendingPrefixCacheInserts := c.scheduler.pendingPrefixCacheInserts ++ [request] } }
  | (worker, .ok (.failed _)) =>
      { c with
        scheduler := { c.scheduler with worker }.releaseFailedPendingPrefixCache request
        released :=
          match WorkerExecutor.finishRequest worker request with
          | (_, .error _) => c.released
          | (_, .ok ()) => c.released ++ [request] }

/-- The walk: round after round, until there is an error. -/
def walk : Reconciliation W → List ScheduledRequest →
    Reconciliation W × Except KvCacheTransferError Unit
  | c, [] => (c, .ok ())
  | c, request :: pending =>
      match (WorkerExecutor.decodeRequestState c.scheduler.worker request).2 with
      | .error error => (c.round request, .error (.runtime error.display))
      | .ok _ => (c.round request).walk pending

/-- **The record changes nothing.** The walk is that of the scheduler. -/
theorem walk_eq (pending : List ScheduledRequest) :
    Scheduler.reconcilePending pending c.scheduler =
      ((c.walk pending).1.scheduler, (c.walk pending).2) := by
  induction pending generalizing c with
  | nil => rfl
  | cons request pending ih =>
    rw [walk, Scheduler.reconcilePending]
    rcases hans : WorkerExecutor.decodeRequestState c.scheduler.worker request with
      ⟨worker, error | (_ | _ | message)⟩
    · simp only [round, hans]
    all_goals
      rw [← ih, round, hans]

variable {c}

/-- Releasing a failed insert: it is put back, or its slots are released and it is gone. -/
theorem releaseFailedPendingPrefixCache_cases (s : Scheduler W) (request : ScheduledRequest) :
    (∃ worker error, WorkerExecutor.finishRequest s.worker request = (worker, .error error) ∧
      (s.releaseFailedPendingPrefixCache request).pendingPrefixCacheInserts =
        s.pendingPrefixCacheInserts ++ [request] ∧
      (s.releaseFailedPendingPrefixCache request).cachePageAllocator = s.cachePageAllocator) ∨
    (∃ worker, WorkerExecutor.finishRequest s.worker request = (worker, .ok ()) ∧
      (s.releaseFailedPendingPrefixCache request).pendingPrefixCacheInserts =
        s.pendingPrefixCacheInserts ∧
      (s.releaseFailedPendingPrefixCache request).cachePageAllocator =
        s.cachePageAllocator.map fun a => a.release request.allocatedCachePages) := by
  unfold Scheduler.releaseFailedPendingPrefixCache
  rcases hans : WorkerExecutor.finishRequest s.worker request with ⟨worker, error | _⟩
  · exact .inl ⟨worker, error, rfl, rfl, rfl⟩
  · refine .inr ⟨worker, rfl, ?_⟩
    dsimp only
    split <;> exact ⟨rfl, rfl⟩

theorem prefixCache_releaseFailedPendingPrefixCache (s : Scheduler W)
    (request : ScheduledRequest) :
    (s.releaseFailedPendingPrefixCache request).prefixCache = s.prefixCache := by
  unfold Scheduler.releaseFailedPendingPrefixCache
  split
  · rfl
  · dsimp only
    split <;> rfl

/-- A round that gets an answer accounts for its request. -/
theorem perm_accounted_round {request : ScheduledRequest} (h : c.Answered request) :
    (c.round request).accounted.Perm (c.accounted ++ [request]) := by
  obtain ⟨state, hstate⟩ := h
  refine List.perm_iff_count.mpr fun r => ?_
  unfold round
  rcases hans : WorkerExecutor.decodeRequestState c.scheduler.worker request with
    ⟨worker, error | (_ | _ | message)⟩
  · rw [hans] at hstate
    cases hstate
  · simp only [accounted, pendingPrefixCacheInserts_publish, List.count_append]
    omega
  · simp only [accounted, List.append_assoc]
  · rcases releaseFailedPendingPrefixCache_cases { c.scheduler with worker } request with
      ⟨_, _, hfinish, hpending, -⟩ | ⟨_, hfinish, hpending, -⟩
    · simp only [accounted, hpending, hfinish, List.append_assoc]
    · simp only [accounted, hpending, hfinish, List.count_append]
      omega

/-- A round that gets an error accounts for nothing. -/
theorem accounted_round_of_not_answered {request : ScheduledRequest} (h : ¬ c.Answered request) :
    (c.round request).accounted = c.accounted := by
  unfold round
  rcases hans : WorkerExecutor.decodeRequestState c.scheduler.worker request with
    ⟨worker, error | state⟩
  · rfl
  · exact absurd ⟨state, by rw [hans]⟩ h

/-- **What is accounted for.** A walk accounts for the requests up to the first error. -/
theorem exists_handled (pending : List ScheduledRequest) (c : Reconciliation W) :
    ∃ handled, handled <+: pending ∧ (c.walk pending).1.accounted.Perm (c.accounted ++ handled) ∧
      (handled.length = pending.length ↔ Along round Answered c pending) := by
  induction pending generalizing c with
  | nil => exact ⟨[], List.prefix_rfl, by simp [walk], by simp⟩
  | cons request pending ih =>
    rcases hans : (WorkerExecutor.decodeRequestState c.scheduler.worker request).2 with
      error | state
    · have hnot : ¬ c.Answered request := fun ⟨state, hstate⟩ => by simp [hans] at hstate
      refine ⟨[], List.nil_prefix, ?_, iff_of_false (by simp) fun h => hnot h.1⟩
      simp only [walk, hans, accounted_round_of_not_answered hnot, List.append_nil]
      exact .rfl
    · have hanswered : c.Answered request := ⟨state, hans⟩
      obtain ⟨handled, hbegins, hperm, hiff⟩ := ih (c.round request)
      refine ⟨request :: handled, (List.prefix_cons_inj request).mpr hbegins, ?_, ?_⟩
      · simp only [walk, hans]
        have hround := (perm_accounted_round hanswered).append_right handled
        rw [List.append_assoc] at hround
        exact hperm.trans hround
      · rw [along_cons, List.length_cons, List.length_cons, Nat.succ_inj, hiff]
        exact (and_iff_right hanswered).symm

/-- The record is true of the caches: since `s` the published prompts were inserted into the prefix
cache and the slots of the released requests were given back, and nothing else happened to them. -/
structure Recorded (s : Scheduler W) (c : Reconciliation W) : Prop where
  prefixCache_eq : c.scheduler.prefixCache = c.published.foldl
    (fun cache request => cache.published request request.promptTokensProcessed) s.prefixCache
  allocator_eq : c.scheduler.cachePageAllocator = c.released.foldl
    (fun allocator request => allocator.map fun a => a.release request.allocatedCachePages)
    s.cachePageAllocator

theorem Recorded.round {s : Scheduler W} (h : Recorded s c) (request : ScheduledRequest) :
    Recorded s (c.round request) := by
  unfold Reconciliation.round
  rcases hans : WorkerExecutor.decodeRequestState c.scheduler.worker request with
    ⟨worker, error | (_ | _ | message)⟩
  · exact ⟨h.prefixCache_eq, h.allocator_eq⟩
  · constructor
    · simp only [Scheduler.publishPrefillChunkCachePages_eq, List.foldl_append, List.foldl_cons,
        List.foldl_nil, h.prefixCache_eq]
    · simp only [Scheduler.publishPrefillChunkCachePages_eq, h.allocator_eq]
  · exact ⟨h.prefixCache_eq, h.allocator_eq⟩
  · refine ⟨(prefixCache_releaseFailedPendingPrefixCache _ _).trans h.prefixCache_eq, ?_⟩
    rcases releaseFailedPendingPrefixCache_cases { c.scheduler with worker } request with
      ⟨_, _, hfinish, -, hallocator⟩ | ⟨_, hfinish, -, hallocator⟩
    · simp only [hfinish]
      exact hallocator.trans h.allocator_eq
    · simp only [hfinish, List.foldl_append, List.foldl_cons, List.foldl_nil]
      rw [← h.allocator_eq]
      exact hallocator

theorem Recorded.walk {s : Scheduler W} (h : Recorded s c) (pending : List ScheduledRequest) :
    Recorded s (c.walk pending).1 := by
  induction pending generalizing c with
  | nil => exact h
  | cons request pending ih =>
    rw [Reconciliation.walk]
    split
    · exact h.round request
    · exact ih (h.round request)

end Reconciliation

namespace Scheduler

variable [WorkerExecutor W] (s : Scheduler W)

/-- The walk starts with the list taken out of the scheduler. -/
def taken : Reconciliation W := ⟨{ s with pendingPrefixCacheInserts := [] }, [], []⟩

/-- The record of the walk over the pending inserts. -/
def reconciliation : Reconciliation W := (s.taken.walk s.pendingPrefixCacheInserts).1

/-- The worker tells the state of every request that it is asked for in the walk. -/
def StatesAnswered : Prop :=
  Along Reconciliation.round Reconciliation.Answered s.taken s.pendingPrefixCacheInserts

/-- Every pending insert is published or released in the walk, or is pending in the scheduler that
is left, each of them once. -/
def KeepsInserts (s' : Scheduler W) : Prop :=
  s.pendingPrefixCacheInserts.Perm
    (s.reconciliation.published ++ s.reconciliation.released ++ s'.pendingPrefixCacheInserts)

/-- The scheduler once the worker has polled its transfers. -/
def polled : Scheduler W := { s with worker := (WorkerExecutor.pollTransfers s.worker).1 }

theorem fst_reconcilePendingPrefixCacheInserts :
    s.reconcilePendingPrefixCacheInserts.1 = s.reconciliation.scheduler := by
  rw [reconcilePendingPrefixCacheInserts, reconciliation]
  exact congrArg Prod.fst (s.taken.walk_eq s.pendingPrefixCacheInserts)

theorem fst_pollTransfers :
    s.pollTransfers.1 = s.polled.reconcilePendingPrefixCacheInserts.1 := by
  unfold pollTransfers
  dsimp only
  split
  case h_1 s' error heq => exact congrArg Prod.fst heq.symm
  case h_2 s' heq => exact congrArg Prod.fst heq.symm

/-- The record of the walk is true of the caches. -/
theorem recorded_reconciliation : Reconciliation.Recorded s s.reconciliation :=
  Reconciliation.Recorded.walk ⟨rfl, rfl⟩ _

variable {s}

theorem keepsInserts_iff {s' : Scheduler W} (heq : s' = s.reconciliation.scheduler) :
    s.KeepsInserts s' ↔ s.StatesAnswered := by
  obtain ⟨handled, hbegins, hperm, hiff⟩ :=
    Reconciliation.exists_handled s.pendingPrefixCacheInserts s.taken
  change s.reconciliation.accounted.Perm handled at hperm
  subst heq
  unfold StatesAnswered
  rw [← hiff]
  constructor
  · intro h
    exact (hperm.symm.trans h.symm).length_eq
  · intro hlen
    rw [hbegins.eq_of_length hlen] at hperm
    exact hperm.symm

/-- When no insert is listed twice, it is enough that each is accounted for. -/
theorem forall_kept_iff {s' : Scheduler W} (heq : s' = s.reconciliation.scheduler)
    (hnodup : s.pendingPrefixCacheInserts.Nodup) :
    (∀ request ∈ s.pendingPrefixCacheInserts, request ∈ s.reconciliation.published ∨
      request ∈ s.reconciliation.released ∨ request ∈ s'.pendingPrefixCacheInserts) ↔
        s.StatesAnswered := by
  obtain ⟨handled, hbegins, hperm, hiff⟩ :=
    Reconciliation.exists_handled s.pendingPrefixCacheInserts s.taken
  change s.reconciliation.accounted.Perm handled at hperm
  have hmem (request : ScheduledRequest) : (request ∈ s.reconciliation.published ∨
      request ∈ s.reconciliation.released ∨ request ∈ s'.pendingPrefixCacheInserts) ↔
        request ∈ handled := by
    rw [← hperm.mem_iff, heq]
    simp only [Reconciliation.accounted, List.mem_append, or_assoc]
  simp only [hmem]
  unfold StatesAnswered
  rw [← hiff]
  constructor
  · intro h
    exact Nat.le_antisymm hbegins.length_le (hnodup.subperm h).length_le
  · intro hlen
    rw [hbegins.eq_of_length hlen]
    exact fun _ => id

end Scheduler

/-- **Pending inserts are kept unless the worker fails to tell a state.** After the walk, and after
a poll, every request that was pending is published, or released after the worker has finished it,
or still pending, each of them once, if and only if no question for the state of a request is
answered with an error. For distinct requests it is the same that each of them is in one of the
three places. What the walk records of the requests is true of the prefix cache and the
allocator. -/
theorem pending_inserts_kept_iff [WorkerExecutor W] (s : Scheduler W) :
    (Reconciliation.Recorded s s.reconciliation ∧
      Reconciliation.Recorded s.polled s.polled.reconciliation) ∧
      (s.KeepsInserts s.reconcilePendingPrefixCacheInserts.1 ↔ s.StatesAnswered) ∧
      (s.polled.KeepsInserts s.pollTransfers.1 ↔ s.polled.StatesAnswered) ∧
      (s.pendingPrefixCacheInserts.Nodup →
        ((∀ request ∈ s.pendingPrefixCacheInserts, request ∈ s.reconciliation.published ∨
          request ∈ s.reconciliation.released ∨
          request ∈ s.reconcilePendingPrefixCacheInserts.1.pendingPrefixCacheInserts) ↔
            s.StatesAnswered) ∧
        ((∀ request ∈ s.pendingPrefixCacheInserts, request ∈ s.polled.reconciliation.published ∨
          request ∈ s.polled.reconciliation.released ∨
          request ∈ s.pollTransfers.1.pendingPrefixCacheInserts) ↔ s.polled.StatesAnswered)) := by
  have hreconcile := s.fst_reconcilePendingPrefixCacheInserts
  have hpoll : s.pollTransfers.1 = s.polled.reconciliation.scheduler :=
    s.fst_pollTransfers.trans s.polled.fst_reconcilePendingPrefixCacheInserts
  exact ⟨⟨s.recorded_reconciliation, s.polled.recorded_reconciliation⟩,
    Scheduler.keepsInserts_iff hreconcile, Scheduler.keepsInserts_iff hpoll, fun hnodup =>
      ⟨Scheduler.forall_kept_iff hreconcile hnodup, Scheduler.forall_kept_iff hpoll hnodup⟩⟩

/-- Two disaggregated prompts are processed while their transfers are pending. Then the worker
cannot tell the state of the first of them, and both are lost. -/
theorem pending_inserts_lost :
    let params : DisaggregatedParams := ⟨"prefill", 8998, 1⟩
    let s := [Operation.enqueue ⟨⟨"a"⟩, [1, 2], ⟨4⟩, some params, 0⟩,
        .enqueue ⟨⟨"b"⟩, [3, 4], ⟨4⟩, some params, 0⟩, .dispatch (.prefill 2 16)].foldl
      Scheduler.step (Scheduler.scripted
        { states := [.ok .pending, .ok .pending, .error (.runtime "unavailable")] } 1 8)
    s.pendingPrefixCacheInserts.map ScheduledRequest.requestId = [⟨"a"⟩, ⟨"b"⟩] ∧
      ¬ ∀ request ∈ s.pendingPrefixCacheInserts, request ∈ s.polled.reconciliation.published ∨
        request ∈ s.polled.reconciliation.released ∨
        request ∈ s.pollTransfers.1.pendingPrefixCacheInserts := by
  decide +kernel

end SglangRs
