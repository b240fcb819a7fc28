import SglangRs.Scheduler.WorkerStates
import SglangRs.Serving.Batches

/-!
# Executing batches on a model

A worker that runs a model keeps the memory of the model in its state. If the model can forward a
batch, the worker answers with a token for each request, and the scheduler records the tokens and
publishes the forwarded prompts; if it cannot, the requests of the batch are dropped. Either way
what the slots hold is known again afterwards, for the queues and for the prefix cache.

## Main definitions

* `CausalModel.RunBy`: a worker that runs the model.
* `CausalModel.Serving`: a scheduler between two operations, with such a worker.

## Main results

* `CausalModel.Serving.forwardedAll`: a formed batch is forwarded.
* `CausalModel.Serving.step`, `CausalModel.Serving.run`: operations keep what the slots hold.
-/

namespace SglangRs

open Scheduler Transition

variable {W M X Q E L : Type} [WorkerExecutor W]

namespace CausalModel

variable (C : CausalModel M X Q E L)

/-- A worker that runs the model on the memory `memoryOf`, as long as it is `Loaded`. It picks one
token for each request, and cleaning up after a request neither fails nor touches the memory. -/
structure RunBy (picks : RequestId → List UInt32 → List L → UInt32 → Prop) (Loaded : W → Prop)
    (memoryOf : W → M) : Prop where
  keeps : ∀ m, WorkerExecutor.Keeps fun worker : W => Loaded worker ∧ memoryOf worker = m
  finishes : WorkerExecutor.Finishes W
  loaded : ∀ (worker : W) batch, Loaded worker → Loaded (WorkerExecutor.executeBatch worker batch).1
  memory_eq : ∀ (worker : W) batch, Loaded worker →
    memoryOf (WorkerExecutor.executeBatch worker batch).1 =
      (forwardBatch C.token (.fromScheduleBatch batch) (memoryOf worker)).1
  generates : ∀ (worker : W) batch generated, Loaded worker →
    (WorkerExecutor.executeBatch worker batch).2 = .ok generated → ∃ output,
      (forwardBatch C.token (.fromScheduleBatch batch) (memoryOf worker)).2 = .ok output ∧
        generated.tokens.length = batch.requests.length ∧
        ∀ (i : ℕ) (r : ScheduledRequest) (logits : List L) (t : GeneratedToken),
          batch.requests[i]? = some r → output.logits[i]? = some logits →
          generated.tokens[i]? = some t →
            ∃ tokenId, t.tokenIds = [tokenId] ∧
              picks r.requestId (r.inputIds ++ r.outputIds) logits tokenId

/-- A scheduler between two operations, whose worker runs the model. -/
structure Serving (Loaded : W → Prop) (memoryOf : W → M) (p : ℕ) (s : Scheduler W) : Prop where
  staged : s.WaitingStaged
  plain : s.idle.Plain
  ownership : Ownership p s.idle
  capacity : ∃ n ≤ C.slotCount, s.cachePageAllocator.map (·.slotCapacity) = some n
  loaded : Loaded s.worker
  valid : C.Valid (memoryOf s.worker)
  rests : C.Rests (memoryOf s.worker) s

variable {C} {picks : RequestId → List UInt32 → List L → UInt32 → Prop} {Loaded : W → Prop} {memoryOf : W → M}
  {p : ℕ} {m : M} {s s' : Scheduler W} {r : ScheduledRequest}

omit [WorkerExecutor W] in
theorem Rests.with_worker (h : C.Rests m s) (worker : W) (allocator : Option CachePageAllocator) :
    C.Rests m { s with worker, cachePageAllocator := allocator } :=
  ⟨h.cache, h.waiting, h.decode⟩

omit [WorkerExecutor W] in
/-- A request put at the end of the decode queue. -/
theorem Rests.park (h : C.Rests m s) (hr : C.Awaits m r) : C.Rests m (s.park r) :=
  ⟨h.cache, h.waiting, List.forall_mem_append.mpr ⟨h.decode, List.forall_mem_singleton.mpr hr⟩⟩

/-! ### The batch is completed -/

/-- What is known of a request of the batch that was forwarded. -/
structure Ran (C : CausalModel M X Q E L) (m : M) (r : ScheduledRequest) : Prop where
  plain : r.disaggregatedParams = none
  prefill : r.stage = .prefillForward → C.Advanced m r.advanceChunk
  decode : r.stage ≠ .prefillForward → C.Complete m r

theorem Rests.recordGeneratedToken {c : Completion W} {generated : GeneratedToken} {tokenId : UInt32}
    (h : C.Rests m c.scheduler) (hfinishes : WorkerExecutor.Finishes W) (hr : C.Complete m r)
    (htoken : generated.tokenIds = [tokenId]) :
    C.Rests m (Scheduler.recordGeneratedToken c r generated).scheduler := by
  obtain ⟨-, ⟨worker, allocator, heq⟩ | heq⟩ := hfinishes.recordGeneratedToken c r generated
  · rw [heq]
    exact h.with_worker worker allocator
  · rw [heq, htoken]
    exact h.park (hr.awaits tokenId)

/-- **Completing a request** that was forwarded. -/
theorem Rests.completeRequest {forwardMode : ForwardMode} {c : Completion W}
    {generated : GeneratedToken} {tokenId : UInt32} (h : C.Rests m c.scheduler)
    (hfinishes : WorkerExecutor.Finishes W) (hran : C.Ran m r)
    (htoken : generated.tokenIds = [tokenId])
    (hstage : (r.stage = .prefillForward ∧ forwardMode ≠ .decode) ∨
      (r.stage = .decodeForward ∧ forwardMode ≠ .prefill)) :
    C.Rests m (Scheduler.completeRequest forwardMode c (r, generated)).scheduler := by
  by_cases hprefill : isPrefillForward forwardMode r = true
  · have hadvanced := hran.prefill ((isPrefillForward_iff hstage).mp hprefill)
    obtain ⟨cache, hcache, hstaged⟩ := c.scheduler.stage_of_plain
      (r := r.advanceChunk) hran.plain r.advanceChunk.promptTokensProcessed
    have hrests : C.Rests m { c.scheduler with prefixCache := cache } := by
      refine ⟨?_, h.waiting, h.decode⟩
      obtain rfl | rfl := hcache
      · exact h.cache
      · exact h.cache.published hadvanced
    rw [completeRequest_of_prefill c generated hprefill, hstaged]
    dsimp only
    split_ifs with hcomplete
    · exact Rests.recordGeneratedToken (c := { c with scheduler := { c.scheduler with
        prefixCache := cache } }) hrests hfinishes (hadvanced.complete hcomplete) htoken
    · refine ⟨hrests.cache, List.forall_mem_cons.mpr ⟨?_, h.waiting⟩, h.decode⟩
      exact hadvanced.waits (by simpa using hcomplete)
  · have hdecode : r.stage ≠ .prefillForward := fun hr =>
      hprefill ((isPrefillForward_iff hstage).mpr hr)
    rw [completeRequest_of_decode c generated hprefill]
    exact h.recordGeneratedToken hfinishes (hran.decode hdecode) htoken

/-- **Completing a batch** that was forwarded. -/
theorem Rests.completeBatch {batch : ScheduleBatch} {generated : BatchGeneratedTokens}
    (h : C.Rests m s) (hfinishes : WorkerExecutor.Finishes W) (hstaged : batch.Staged)
    (hran : ∀ r ∈ batch.requests, C.Ran m r)
    (hlength : generated.tokens.length = batch.requests.length)
    (htokens : ∀ t ∈ generated.tokens, ∃ tokenId, t.tokenIds = [tokenId]) :
    C.Rests m (s.completeBatch batch generated).1 := by
  unfold Scheduler.completeBatch
  rw [if_neg (not_not.mpr hlength.symm)]
  refine List.foldlRecOn (motive := fun c : Completion W => C.Rests m c.scheduler) _ _ h ?_
  intro c hc item hitem
  obtain ⟨hr, ht⟩ := List.of_mem_zip hitem
  obtain ⟨tokenId, htoken⟩ := htokens item.2 ht
  exact hc.completeRequest hfinishes (hran item.1 hr) htoken (hstaged item.1 hr)

/-! ### A batch is formed -/

/-- A scheduler with a formed batch. -/
structure Formed (C : CausalModel M X Q E L) (Loaded : W → Prop) (memoryOf : W → M) (p : ℕ)
    (s : Scheduler W) (requests : List ScheduledRequest) : Prop where
  ownership : Ownership p ⟨s, requests, []⟩
  capacity : ∃ n ≤ C.slotCount, s.cachePageAllocator.map (·.slotCapacity) = some n
  loaded : Loaded s.worker
  valid : C.Valid (memoryOf s.worker)
  served : C.Served p (memoryOf s.worker) ⟨s, requests, []⟩

omit [WorkerExecutor W] in
theorem Serving.served (h : C.Serving Loaded memoryOf p s) :
    C.Served p (memoryOf s.worker) s.idle :=
  ⟨h.plain.all, h.ownership.hasPages, h.ownership.chunk_ne_zero, h.rests.cache, h.rests.waiting,
    h.rests.decode, nofun, nofun⟩

theorem admitsForm_still (s : Scheduler W) (former : Former) :
    Guard.still.AdmitsForm s former :=
  Guard.admitsForm_submitting (P := fun _ => True) (T := fun _ => True) s former

theorem admitsAbortPending_still (pending : List ScheduledRequest) (state : Scheduler W × ℕ) :
    Guard.still.AdmitsAbortPending pending state := by
  induction pending generalizing state with
  | nil => trivial
  | cons e pending ih =>
    refine ⟨?_, ih _⟩
    split <;> trivial

theorem admits_still (hpending : s.pendingPrefixCacheInserts = []) {op : Operation W}
    (hplain : op.Plain) (hdispatch : ∀ former, op ≠ .dispatch former) :
    Guard.still.Admits s op := by
  have hsubmitting := Guard.admits_submitting_of_ne_dispatch (P := fun _ => True)
    (T := fun _ => True) s op (fun _ _ => trivial) hdispatch
  cases op with
  | enqueue request => exact hplain
  | dispatch former => exact absurd rfl (hdispatch former)
  | abortAllRequests => exact ⟨hsubmitting.1, admitsAbortPending_still _ _⟩
  | pollTransfers =>
    change Guard.still.AdmitsReconcile s.pendingPrefixCacheInserts _
    rw [hpending]
    trivial
  | _ => exact hsubmitting

/-- **Forming a batch.** -/
theorem Serving.form (hrun : C.RunBy picks Loaded memoryOf) (h : C.Serving Loaded memoryOf p s)
    {former : Former} {result : Except SchedulerError ScheduleBatch}
    (hform : former.form s = (s', result)) :
    C.Formed Loaded memoryOf p s' (formedRequests result) := by
  have hplain : Moves Guard.plain s.idle ⟨s', formedRequests result, []⟩ := by
    have hmoves := moves_form s former h.staged
      (Guard.admits_submitting (P := fun n => n.disaggregatedParams = none) s (.dispatch former)
        (by simp)).1
    rw [hform] at hmoves
    exact hmoves
  have hstill : Moves Guard.still s.idle ⟨s', formedRequests result, []⟩ := by
    have hmoves := moves_form s former h.staged (admitsForm_still s former)
    rw [hform] at hmoves
    exact hmoves
  obtain ⟨-, hown, hcapacity⟩ := hplain.ownership h.plain h.ownership
  obtain ⟨hloaded, hmemory⟩ := (hrun.keeps (memoryOf s.worker)).form hform ⟨h.loaded, rfl⟩
  refine ⟨hown, ?_, hloaded, hmemory ▸ h.valid, ?_⟩
  · obtain ⟨n, hn, heq⟩ := h.capacity
    exact ⟨n, hn, hcapacity.trans heq⟩
  · rw [hmemory]
    exact hstill.invariant (fun _ _ => Move.served) h.served

omit [WorkerExecutor W] in
theorem stage_ne_of_staged {batch : ScheduleBatch} (hstaged : batch.Staged)
    (hr : r ∈ batch.requests) : r.stage ≠ .prefillWaiting := by
  obtain ⟨h, -⟩ | ⟨h, -⟩ := hstaged r hr <;> simp [h]

theorem logits_of_new {rows : List (List L)} {output : ModelForwardOutput L}
    (h : ModelForwardOutput.new rows = .ok output) : output.logits = rows := by
  unfold ModelForwardOutput.new at h
  split at h
  · cases h
  · exact congrArg ModelForwardOutput.logits (Except.ok.inj h).symm

section Formed

variable {batch : ScheduleBatch} {result : ModelForwardOutput L}

omit [WorkerExecutor W]

/-- The requests of a formed batch are ready. -/
theorem Formed.ready (h : C.Formed Loaded memoryOf p s batch.requests) (hstaged : batch.Staged)
    (hr : r ∈ batch.requests) : C.Ready (memoryOf s.worker) r := by
  obtain ⟨n, hn, hcapacity⟩ := h.capacity
  obtain ⟨a, ha, rfl⟩ := Option.map_eq_some_iff.mp hcapacity
  exact h.served.ready h.ownership ha hn hr ((hstaged r hr).imp And.left And.left)

/-- **A formed batch is forwarded.** -/
theorem Formed.forwardedAll (h : C.Formed Loaded memoryOf p s batch.requests)
    (hstaged : batch.Staged) : ForwardedAll C batch.requests (memoryOf s.worker)
      (forwardRequests C.token 0 (batch.requests.map ScheduledRequest.forwardRow)
        (memoryOf s.worker)) :=
  forwardRequests_spec h.valid (fun _ hr => h.ready hstaged hr)
    (h.ownership.pairwise_apart fun _ hr => stage_ne_of_staged hstaged hr)

/-- The model accepts a formed batch, and forwards its requests. -/
theorem Formed.forwardBatch_eq (h : C.Formed Loaded memoryOf p s batch.requests)
    (hstaged : batch.Staged) :
    forwardBatch C.token (.fromScheduleBatch batch) (memoryOf s.worker) =
      let after := forwardRequests C.token 0 (batch.requests.map ScheduledRequest.forwardRow)
        (memoryOf s.worker)
      (after.1, after.2.bind ModelForwardOutput.new) := by
  have hfits (r : ScheduledRequest) (hr : r ∈ batch.requests) : r.Fits :=
    (h.ready hstaged hr).known.fits
  unfold forwardBatch
  rw [validate_fromScheduleBatch hstaged (fun r hr => (hfits r hr).prefill)
    fun r hr => (hfits r hr).decode, rows_fromScheduleBatch hstaged hfits]
  dsimp only
  rcases forwardRequests C.token 0 (batch.requests.map ScheduledRequest.forwardRow)
    (memoryOf s.worker) with ⟨m, error | rows⟩ <;> rfl

/-- The rows of the output. -/
theorem Formed.rows_eq (h : C.Formed Loaded memoryOf p s batch.requests) (hstaged : batch.Staged)
    (houtput : (forwardBatch C.token (.fromScheduleBatch batch) (memoryOf s.worker)).2 =
      .ok result) :
    (forwardRequests C.token 0 (batch.requests.map ScheduledRequest.forwardRow)
      (memoryOf s.worker)).2 = .ok result.logits := by
  rw [h.forwardBatch_eq hstaged] at houtput
  dsimp only at houtput
  rcases hrows : (forwardRequests C.token 0 (batch.requests.map ScheduledRequest.forwardRow)
    (memoryOf s.worker)).2 with error | rows
  all_goals rw [hrows] at houtput
  · cases houtput
  · rw [logits_of_new houtput]

/-- **The logits of a formed batch** are those of its sequences. -/
theorem Formed.logits (h : C.Formed Loaded memoryOf p s batch.requests) (hstaged : batch.Staged)
    (houtput : (forwardBatch C.token (.fromScheduleBatch batch) (memoryOf s.worker)).2 =
      .ok result) :
    List.Forall₂ (fun r logits => C.network.output r.tokenAt (r.forwardEnd - 1) = .ok logits)
      batch.requests result.logits :=
  (h.forwardedAll hstaged).output _ (h.rows_eq hstaged houtput)

/-- A request of a batch that was forwarded. -/
theorem Formed.ran (h : C.Formed Loaded memoryOf p s batch.requests) (hstaged : batch.Staged)
    (houtput : (forwardBatch C.token (.fromScheduleBatch batch) (memoryOf s.worker)).2 =
      .ok result) (hr : r ∈ batch.requests) :
    C.Ran (forwardBatch C.token (.fromScheduleBatch batch) (memoryOf s.worker)).1 r := by
  have hall := h.forwardedAll hstaged
  have hrows := h.rows_eq hstaged houtput
  obtain ⟨hne, haligned, -⟩ := hall.ok_iff.mp ⟨_, hrows⟩ r hr
  have hheld := hall.held _ hrows r hr
  have htakes := h.served.taken r hr
  rw [h.forwardBatch_eq hstaged]
  refine ⟨h.served.plain.taken r hr, fun hprefill => ?_, fun hnot => ?_⟩
  · obtain ⟨i, hi, rfl⟩ := List.mem_iff_getElem.mp hr
    exact (htakes.prompted hprefill).advanced (h.ownership.taken _ hr) hprefill
      (fun x hx => (h.ownership.fresh (Config.live_perm _ hi) hr hx).1) hne haligned hheld
  · have hdecode := ((hstaged r hr).resolve_left fun hp => hnot hp.1).1
    exact (htakes.generating hdecode).complete hdecode hheld

/-- The queues and the prefix cache while a batch is executed. -/
theorem Formed.rests (h : C.Formed Loaded memoryOf p s batch.requests) (hstaged : batch.Staged) :
    C.Rests (forwardBatch C.token (.fromScheduleBatch batch) (memoryOf s.worker)).1 s := by
  obtain ⟨n, hn, hcapacity⟩ := h.capacity
  obtain ⟨a, ha, rfl⟩ := Option.map_eq_some_iff.mp hcapacity
  rw [h.forwardBatch_eq hstaged]
  exact h.served.rests_of_forwarded h.ownership ha hn
    (fun r hr => stage_ne_of_staged hstaged hr) (h.forwardedAll hstaged).agrees

end Formed

/-- **Executing a batch keeps what the slots hold.** -/
theorem Formed.dispatchBatch {batch : ScheduleBatch} (hrun : C.RunBy picks Loaded memoryOf)
    (h : C.Formed Loaded memoryOf p s batch.requests) (hstaged : batch.Staged) :
    Loaded (s.dispatchBatch batch).1.worker ∧
      C.Valid (memoryOf (s.dispatchBatch batch).1.worker) ∧
      C.Rests (memoryOf (s.dispatchBatch batch).1.worker) (s.dispatchBatch batch).1 := by
  have hloaded := hrun.loaded s.worker batch h.loaded
  have hmemory := hrun.memory_eq s.worker batch h.loaded
  have hgenerates := fun generated => hrun.generates s.worker batch generated h.loaded
  have hrests := h.rests hstaged
  have hvalid : C.Valid (forwardBatch C.token (.fromScheduleBatch batch) (memoryOf s.worker)).1 := by
    rw [h.forwardBatch_eq hstaged]
    exact (h.forwardedAll hstaged).valid
  unfold Scheduler.dispatchBatch
  rcases hexec : WorkerExecutor.executeBatch s.worker batch with ⟨worker, error | generated⟩
  all_goals
    rw [hexec] at hloaded hmemory hgenerates
    have hmemory : memoryOf worker = _ := hmemory
    rw [← hmemory] at hrests hvalid
  · have hworker :
        Loaded ({ s with worker }.releaseFailedBatchCachePages batch).1.worker ∧
          memoryOf ({ s with worker }.releaseFailedBatchCachePages batch).1.worker =
            memoryOf worker :=
      (hrun.keeps (memoryOf worker)).releaseFailedBatch ⟨hloaded, rfl⟩
    obtain ⟨worker', allocator, hrelease⟩ :=
      hrun.finishes.releaseFailedBatch { s with worker } batch
    rw [hrelease] at hworker
    obtain ⟨hloaded', hmemory' : memoryOf worker' = _⟩ := hworker
    dsimp only
    rcases hres : { s with worker }.releaseFailedBatchCachePages batch with ⟨s', error | ⟨⟩⟩
    all_goals
      rw [hres] at hrelease ⊢
      obtain rfl : s' = _ := hrelease
      refine ⟨hloaded', ?_, ?_⟩
      · rw [hmemory']
        exact hvalid
      · rw [hmemory']
        exact hrests.with_worker worker' allocator
  · obtain ⟨output, houtput, hlength, hpicks⟩ := hgenerates generated rfl
    have hworker : Loaded ({ s with worker }.completeBatch batch generated).1.worker ∧
        memoryOf ({ s with worker }.completeBatch batch generated).1.worker = memoryOf worker :=
      (hrun.keeps (memoryOf worker)).completeBatch ⟨hloaded, rfl⟩
    have hran (r : ScheduledRequest) (hr : r ∈ batch.requests) : C.Ran (memoryOf worker) r :=
      hmemory ▸ h.ran hstaged houtput hr
    have htokens (t : GeneratedToken) (ht : t ∈ generated.tokens) :
        ∃ tokenId, t.tokenIds = [tokenId] := by
      obtain ⟨i, hi, rfl⟩ := List.mem_iff_getElem.mp ht
      have hrows := (h.logits hstaged houtput).length_eq
      obtain ⟨tokenId, htoken, -⟩ := hpicks i _ _ _ (List.getElem?_eq_getElem (hlength ▸ hi))
        (List.getElem?_eq_getElem (hrows ▸ hlength ▸ hi)) (List.getElem?_eq_getElem hi)
      exact ⟨tokenId, htoken⟩
    have hcomplete := (hrests.with_worker worker s.cachePageAllocator).completeBatch hrun.finishes
      hstaged hran hlength htokens
    obtain ⟨hloaded', hmemory'⟩ := hworker
    refine ⟨hloaded', ?_, ?_⟩
    · rw [hmemory']
      exact hvalid
    · rw [hmemory']
      exact hcomplete

/-! ### Operations -/

/-- **Every operation keeps what the slots hold**, if it submits plain requests only and does not
replace the worker. -/
theorem Serving.step (hrun : C.RunBy picks Loaded memoryOf) (h : C.Serving Loaded memoryOf p s)
    {op : Operation W} (hplain : op.Plain) (hupdate : ∀ worker, op ≠ .updateWorker worker) :
    C.Serving Loaded memoryOf p (s.step op) := by
  have hadmits : Guard.plain.Admits s op :=
    Guard.admits_submitting s op fun n hn => by rwa [hn] at hplain
  have hmoves := moves_step s op h.staged hadmits
  obtain ⟨hplain', hown, hcapacity⟩ := hmoves.ownership h.plain h.ownership
  have hstaged : (s.step op).WaitingStaged :=
    hmoves.invariant (J := fun c => c.scheduler.WaitingStaged) (fun _ _ => Move.waitingStaged)
      h.staged
  obtain ⟨hloaded, hvalid, hrests⟩ : Loaded (s.step op).worker ∧
      C.Valid (memoryOf (s.step op).worker) ∧
      C.Rests (memoryOf (s.step op).worker) (s.step op) := by
    by_cases hdispatch : ∃ former, op = .dispatch former
    · obtain ⟨former, rfl⟩ := hdispatch
      change Loaded (dispatchFormed (former.form s)).1.worker ∧
        C.Valid (memoryOf (dispatchFormed (former.form s)).1.worker) ∧
        C.Rests (memoryOf (dispatchFormed (former.form s)).1.worker)
          (dispatchFormed (former.form s)).1
      rcases hform : former.form s with ⟨s', error | batch⟩
      · have hformed := h.form hrun hform
        exact ⟨hformed.loaded, hformed.valid, hformed.served.cache, hformed.served.waiting,
          hformed.served.decode⟩
      · exact (h.form hrun hform).dispatchBatch hrun (staged_form s former h.staged hform)
    · have hnot := not_exists.mp hdispatch
      obtain ⟨hloaded, hmemory⟩ := (hrun.keeps (memoryOf s.worker)).step hnot hupdate ⟨h.loaded, rfl⟩
      have hserved : C.Served p (memoryOf s.worker) (s.step op).idle :=
        (moves_step s op h.staged (admits_still h.plain.pending_eq hplain hnot)).invariant
          (fun _ _ => Move.served) h.served
      refine ⟨hloaded, hmemory ▸ h.valid, ?_⟩
      rw [hmemory]
      exact ⟨hserved.cache, hserved.waiting, hserved.decode⟩
  refine ⟨hstaged, hplain', hown, ?_, hloaded, hvalid, hrests⟩
  obtain ⟨n, hn, heq⟩ := h.capacity
  exact ⟨n, hn, hcapacity.trans heq⟩

/-- **Every run keeps what the slots hold.** -/
theorem Serving.run (hrun : C.RunBy picks Loaded memoryOf) (h : C.Serving Loaded memoryOf p s)
    {ops : List (Operation W)} (hplain : ∀ op ∈ ops, op.Plain)
    (hupdate : ∀ op ∈ ops, ∀ worker, op ≠ .updateWorker worker) :
    C.Serving Loaded memoryOf p (ops.foldl Scheduler.step s) :=
  List.foldlRecOn (motive := C.Serving Loaded memoryOf p) ops _ h fun _ hs op hop =>
    hs.step hrun (hplain op hop) (hupdate op hop)

end CausalModel

end SglangRs
