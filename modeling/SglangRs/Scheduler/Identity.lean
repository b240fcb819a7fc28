import SglangRs.Scheduler.Refinement

/-!
# What a request was submitted with

A request changes while it moves through the scheduler, but the id, the prompt, the sampling
parameters and the transfer parameters it was submitted with stay the same. A property of these
holds of every queued request as soon as it holds of every request submitted.

## Main definitions

* `ScheduledRequest.SameRequest`: two records of one submitted request.
* `Config.All`: a property of every request in the queues and in the batch in progress.

## Main results

* `Move.all`: every move keeps a property of what requests were submitted with.
-/

namespace SglangRs

open Scheduler

variable {W : Type}

/-- Two records of one submitted request. -/
structure ScheduledRequest.SameRequest (r r' : ScheduledRequest) : Prop where
  requestId_eq : r'.requestId = r.requestId
  inputIds_eq : r'.inputIds = r.inputIds
  sampling_eq : r'.sampling = r.sampling
  disaggregatedParams_eq : r'.disaggregatedParams = r.disaggregatedParams

/-- Every request in the queues and in the batch in progress satisfies `P`. -/
structure Config.All (P : ScheduledRequest → Prop) (c : Config W) : Prop where
  waiting : ∀ r ∈ c.scheduler.waitingQueue, P r
  decode : ∀ r ∈ c.scheduler.decodeQueue, P r
  taken : ∀ r ∈ c.taken, P r
  executed : ∀ r ∈ c.executed, P r

theorem Scheduler.sameRequest_withPrefix (s : Scheduler W) (r : ScheduledRequest) :
    r.SameRequest (s.withPrefix r) :=
  ⟨s.requestId_withPrefix r, s.inputIds_withPrefix r, s.sampling_withPrefix r,
    s.disaggregatedParams_withPrefix r⟩

theorem Scheduler.sameRequest_of_preparePrefillRequestChunk {s s' : Scheduler W}
    {r r' : ScheduledRequest} {k : ℕ} {result : Except SchedulerError Unit}
    (h : s.preparePrefillRequestChunk r k = (s', r', result)) : r.SameRequest r' := by
  obtain ⟨hid, hinput, hsampling, hparams⟩ := s.sameRequest_withPrefix r
  obtain ⟨-, -, -, rfl⟩ | ⟨-, _, -, -, rfl⟩ | ⟨-, _, -, -, rfl, -⟩ :=
    preparePrefillRequestChunk_cases h
  all_goals exact ⟨hid, hinput, hsampling, hparams⟩

theorem Scheduler.sameRequest_of_prepareDecodeRequest {s s' : Scheduler W}
    {r r' : ScheduledRequest} {result : Except SchedulerError Unit}
    (h : s.prepareDecodeRequest r = (s', r', result)) : r.SameRequest r' := by
  obtain ⟨_, -, rfl, -⟩ | ⟨_, -, -, rfl, -⟩ := prepareDecodeRequest_cases h
  all_goals exact ⟨rfl, rfl, rfl, rfl⟩

/-- A property of what requests were submitted with is kept by every move. -/
theorem Move.all {G : Guard W} {P : ScheduledRequest → Prop}
    (hP : ∀ x, P x → ∀ y, x.SameRequest y → P y)
    (hsubmit : ∀ n, G.submit n → P n.toScheduled) {c c' : Config W} (h : Move G c c')
    (hc : c.All P) : c'.All P := by
  have hcarried : Places.Carried ⟨P, P, P, P⟩ G fun _ _ _ => True :=
    { submit := hsubmit
      prepare := fun hp _ _ hr => hP _ hr _ (sameRequest_of_preparePrefillRequestChunk hp)
      attach := fun {s r} _ _ hr => hP _ hr _ (s.sameRequest_withPrefix r)
      wait := id
      undoPrefill := fun _ _ hr => hP _ hr _ ⟨rfl, rfl, rfl, rfl⟩
      prepareDecode := fun hp _ hr =>
        hP _ (hP _ hr _ (sameRequest_of_prepareDecodeRequest hp)) _ ⟨rfl, rfl, rfl, rfl⟩
      undoDecode := fun _ hr => hP _ hr _ ⟨rfl, rfl, rfl, rfl⟩
      park := fun _ => id
      executeDecode := fun _ => id
      chunk := fun _ hr => hP _ hr _ ⟨rfl, rfl, rfl, rfl⟩
      stageError := fun _ hr => hP _ hr _ ⟨rfl, rfl, rfl, rfl⟩
      requeueChunk := fun _ _ hr => hP _ hr _ ⟨rfl, rfl, rfl, rfl⟩
      requeueToken := fun _ _ hr => hP _ hr _ ⟨rfl, rfl, rfl, rfl⟩
      finishError := fun _ _ hr => hP _ hr _ ⟨rfl, rfl, rfl, rfl⟩ }
  obtain ⟨hwaiting, hdecode, htaken, hexecuted⟩ :=
    h.places hcarried trivial ⟨hc.waiting, hc.decode, hc.taken, hc.executed⟩
  exact ⟨hwaiting, hdecode, htaken, hexecuted⟩

end SglangRs
