import SglangRs.Causal.Generation
import SglangRs.Scheduler.Generations
import SglangRs.Serving.Execution

/-!
# The generated tokens

A token is picked from the logits of a batch, and these are the logits that the model computes from
scratch for the tokens of the request. So every token of every request is picked from what the model
says about the prompt and the tokens before it, whatever else was in the batches, in whatever chunks
the prompt was processed, and whatever was found in the prefix cache.

## Main definitions

* `Operation.prompted`: the prompts an operation submits.
* `CausalModel.Told`: the tokens of all histories of prompts were picked one after the other.

## Main results

* `CausalModel.Serving.told_step`, `CausalModel.Serving.told_run`: operations and runs keep it.
-/

namespace SglangRs

open Scheduler Transition

variable {W M X Q E L : Type}

/-- The prompts an operation submits. -/
def Operation.prompted : Operation W → List PromptKey
  | .enqueue request => [(request.requestId, request.inputIds)]
  | _ => []

variable [WorkerExecutor W]

namespace CausalModel

/-- The outputs returned divide into histories of the submitted prompts, and the tokens of every
history were picked one after the other. -/
abbrev Told (C : CausalModel M X Q E L) (picks : RequestId → List UInt32 → List L → UInt32 → Prop) :
    Multiset (PromptKey × List UInt32) → Multiset PromptKey → List ScheduledOutput → Prop :=
  Tells fun id => C.network.Chosen (picks id)

variable {C : CausalModel M X Q E L} {picks : RequestId → List UInt32 → List L → UInt32 → Prop}
  {Loaded : W → Prop} {memoryOf : W → M} {p : ℕ} {s s' : Scheduler W} {r : ScheduledRequest}
  {batch : ScheduleBatch} {submitted : Multiset PromptKey} {returned : List ScheduledOutput}

/-! ### Executing a batch -/

omit [WorkerExecutor W] in
/-- A request that was forwarded has tokens. -/
theorem Formed.forwardEnd_pos {result : ModelForwardOutput L}
    (h : C.Formed Loaded memoryOf p s batch.requests) (hstaged : batch.Staged)
    (houtput : (forwardBatch C.token (.fromScheduleBatch batch) (memoryOf s.worker)).2 =
      .ok result) (hr : r ∈ batch.requests) : 0 < r.forwardEnd := by
  have hrows := h.rows_eq hstaged houtput
  obtain ⟨hne, -⟩ := (h.forwardedAll hstaged).ok_iff.mp ⟨_, hrows⟩ r hr
  have hend := forwardStart_add (h.ready hstaged hr).known hne
  have hlen := List.length_pos_iff.mpr hne
  omega

omit [WorkerExecutor W] in
/-- **The token that a worker picked** for a request of a formed batch. -/
theorem Formed.chosen {result : ModelForwardOutput L} {logits : List L} {tokenId : UInt32} {i : ℕ}
    (h : C.Formed Loaded memoryOf p s batch.requests) (hstaged : batch.Staged)
    (houtput : (forwardBatch C.token (.fromScheduleBatch batch) (memoryOf s.worker)).2 =
      .ok result) (hr : batch.requests[i]? = some r) (hlogits : result.logits[i]? = some logits)
    (hpick : picks r.requestId (r.inputIds ++ r.outputIds) logits tokenId)
    (hchosen : C.network.Chosen (picks r.requestId) r.inputIds r.outputIds)
    (hrecorded : r.stage = .prefillForward → r.advanceChunk.isPrefillComplete = true) :
    C.network.Chosen (picks r.requestId) r.inputIds (r.outputIds ++ [tokenId]) := by
  have hmem := List.mem_of_getElem? hr
  have hnetwork : C.network.output r.tokenAt (r.forwardEnd - 1) = .ok logits := by
    have hall := h.logits hstaged houtput
    obtain ⟨hi, rfl⟩ := List.getElem?_eq_some_iff.mp hr
    obtain ⟨hi', rfl⟩ := List.getElem?_eq_some_iff.mp hlogits
    exact hall.get hi hi'
  have hpos := h.forwardEnd_pos hstaged houtput hmem
  have htakes := h.served.taken r hmem
  -- the request is forwarded up to its last token
  have hend : r.forwardEnd = r.inputIds.length + r.outputIds.length := by
    by_cases hprefill : r.stage = .prefillForward
    · have hprompted := htakes.prompted hprefill
      have hcomplete : r.advanceChunk.inputIds.length ≤ r.advanceChunk.promptTokensProcessed :=
        of_decide_eq_true (hrecorded hprefill)
      rw [hprompted.processed_advanceChunk] at hcomplete
      rw [hprompted.forwardEnd_eq hprefill, hprompted.outputs_eq]
      exact le_antisymm hprompted.chunk_le hcomplete
    · have hdecode := ((hstaged r hmem).resolve_left fun hp => hprefill hp.1).1
      rw [ScheduledRequest.forwardEnd, if_pos hdecode]
  exact hchosen.append (k := r.forwardEnd - 1) (by omega) hnetwork hpick

/-- **Executing a batch** picks the tokens that it returns. -/
theorem Formed.told_dispatchBatch (hrun : C.RunBy picks Loaded memoryOf)
    (h : C.Formed Loaded memoryOf p s batch.requests) (hstaged : batch.Staged)
    (htold : C.Told picks (Config.generations ⟨s, batch.requests, []⟩) submitted returned) :
    C.Told picks (s.dispatchBatch batch).1.idle.generations submitted
      (returned ++ returnedOutputs (s.dispatchBatch batch).2) := by
  have hgenerates := fun generated => hrun.generates s.worker batch generated h.loaded
  have htold : C.Told picks (generations batch.requests + s.idle.generations) submitted
      returned := by
    convert htold using 1
    simp only [Config.generations, idle, generations_nil]
    abel
  unfold Scheduler.dispatchBatch
  rcases hexec : WorkerExecutor.executeBatch s.worker batch with ⟨worker, error | generated⟩
  all_goals rw [hexec] at hgenerates
  · -- the requests of the batch are dropped
    obtain ⟨worker', allocator, hrelease⟩ :=
      hrun.finishes.releaseFailedBatch { s with worker } batch
    dsimp only
    rcases hres : { s with worker }.releaseFailedBatchCachePages batch with ⟨s', error | ⟨⟩⟩
    all_goals
      rw [hres] at hrelease ⊢
      obtain rfl : s' = _ := hrelease
      rw [returnedOutputs, List.append_nil]
      exact htold.drop (Multiset.le_add_left _ _)
  · obtain ⟨result, houtput, hlength, hpicks⟩ := hgenerates generated rfl
    have hrows := (h.logits hstaged houtput).length_eq
    obtain ⟨s', outputs, hcomplete⟩ := hrun.finishes.exists_completeBatch_eq { s with worker }
      hlength h.served.plain.taken
    obtain ⟨-, rfl, hdecode, hwaiting⟩ := completeBatch_eq_ok hstaged hcomplete
    dsimp only
    rw [hcomplete]
    rw [← List.map_fst_zip hlength.ge] at htold
    have houtcomes := htold.outcomes _ fun item hitem hrecorded => by
      obtain ⟨i, hi, rfl⟩ := List.mem_iff_getElem.mp hitem
      rw [List.length_zip, hlength, min_self] at hi
      rw [List.getElem_zip] at hrecorded ⊢
      obtain ⟨tokenId, htoken, hpick⟩ := hpicks i _ _ _ (List.getElem?_eq_getElem hi)
        (List.getElem?_eq_getElem (hrows ▸ hi)) (List.getElem?_eq_getElem (hlength ▸ hi))
      rw [htoken]
      rw [List.map_fst_zip hlength.ge] at htold
      exact h.chosen hstaged houtput (List.getElem?_eq_getElem hi)
        (List.getElem?_eq_getElem (hrows ▸ hi)) hpick
        (htold.right (Multiset.mem_add.mpr (.inl (mem_generations (List.getElem_mem hi)))))
        hrecorded
    convert houtcomes using 1
    · simp only [Config.generations, idle, hdecode, hwaiting, generations_append, generations_nil,
        generations_perm (List.reverse_perm _)]
      abel
    · rfl

/-! ### Operations -/

/-- **Every operation** picks the tokens that it returns. -/
theorem Serving.told_step (hrun : C.RunBy picks Loaded memoryOf)
    (h : C.Serving Loaded memoryOf p s) (op : Operation W)
    (htold : C.Told picks s.idle.generations submitted returned) :
    C.Told picks (s.step op).idle.generations (submitted + op.prompted)
      (returned ++ s.outputs op) := by
  by_cases hdispatch : ∃ former, op = .dispatch former
  · obtain ⟨former, rfl⟩ := hdispatch
    have hform : C.Told picks
        (Config.generations ⟨(former.form s).1, formedRequests (former.form s).2, []⟩) submitted
        returned :=
      htold.drop (moves_form s former h.staged
        (Guard.admitsForm_submitting s former)).generations_le
    have hprompted : submitted + (Operation.dispatch (W := W) former).prompted = submitted :=
      add_zero submitted
    rw [hprompted]
    change C.Told picks (dispatchFormed (former.form s)).1.idle.generations submitted
      (returned ++ returnedOutputs (dispatchFormed (former.form s)).2)
    rcases hres : former.form s with ⟨s', error | batch⟩
    all_goals rw [hres] at hform
    · rw [dispatchFormed, returnedOutputs, List.append_nil]
      exact hform
    · exact (h.form hrun hres).told_dispatchBatch hrun (staged_form s former h.staged hres) hform
  · have hnot := not_exists.mp hdispatch
    have houtputs : s.outputs op = [] := by
      cases op with
      | dispatch former => exact absurd rfl (hnot former)
      | _ => rfl
    rw [houtputs, List.append_nil]
    by_cases henqueue : ∃ n, op = .enqueue n
    · obtain ⟨n, rfl⟩ := henqueue
      have hvalid : PromptHistory (fun id => C.network.Chosen (picks id))
          ⟨(n.requestId, n.inputIds), []⟩ := ⟨by simp, Causal.Network.chosen_nil⟩
      have hsubmit := Ledger.Recorded.submit htold hvalid
      convert hsubmit using 1
      · simp only [Scheduler.step, Scheduler.enqueue, Config.generations, idle, generations_append,
          generations_cons, generations_nil, ← Multiset.singleton_add]
        change _ + ({((n.requestId, n.inputIds), [])} + 0) + _ + 0 + 0 = _
        abel
      · rw [← Multiset.singleton_add, add_comm]
        rfl
    · have hprompted : (op.prompted : Multiset PromptKey) = 0 := by
        cases op with
        | enqueue n => exact absurd ⟨n, rfl⟩ henqueue
        | _ => rfl
      rw [hprompted, add_zero]
      exact htold.drop (Moves.generations_le (moves_step s op h.staged
        (Guard.admits_submitting_of_ne_dispatch s op (fun n hn => henqueue ⟨n, hn⟩) hnot)))

/-- **Every run** picks the tokens that it returns. -/
theorem Serving.told_run (hrun : C.RunBy picks Loaded memoryOf)
    (h : C.Serving Loaded memoryOf p s) {ops : List (Operation W)} (hplain : ∀ op ∈ ops, op.Plain)
    (hupdate : ∀ op ∈ ops, ∀ worker, op ≠ .updateWorker worker)
    (htold : C.Told picks s.idle.generations submitted returned) :
    C.Told picks (ops.foldl Scheduler.step s).idle.generations
      (submitted + (ops.flatMap Operation.prompted : List PromptKey))
      (returned ++ emitted Scheduler.step Scheduler.outputs s ops) := by
  induction ops generalizing s submitted returned with
  | nil => simpa [emitted] using htold
  | cons op ops ih =>
      obtain ⟨hop, hops⟩ := List.forall_mem_cons.mp hplain
      obtain ⟨hworker, hworkers⟩ := List.forall_mem_cons.mp hupdate
      have hstep := h.told_step hrun op htold
      have hrest := ih (h.step hrun hop hworker) hops hworkers hstep
      simpa [emitted, add_assoc] using hrest

end CausalModel

end SglangRs
