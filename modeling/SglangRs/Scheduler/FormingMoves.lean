import SglangRs.Scheduler.FormingCases
import SglangRs.Scheduler.Moves

/-!
# Forming a batch is made of moves

The batch formers of `SglangRs.Scheduler.Forming` are sequences of the moves of
`SglangRs.Scheduler.Moves`: requests are taken from the heads of the queues, and a former that
stops early puts some of them back. The scans of the queues are treated by induction on the queue;
what happens when a scan stops is a case analysis of the ends of the former.

A former also decides how its requests are treated once the batch is executed: `complete_batch`
recognises a prompt chunk by the stage of the request or by the forward mode of the batch, and the
two agree on every batch that is formed.

## Main definitions

* `Scheduler.WaitingStaged`: the requests of the waiting queue are marked as waiting.
* `Guard.AdmitsForm`: the moves of a former meet a guard.

## Main results

* `moves_form`: forming a batch is a sequence of moves.
* `staged_form`: stages and forward mode of a formed batch agree.
* `Scheduler.requests_ne_nil_of_form`: a formed batch is not empty.
-/

namespace SglangRs

variable {W : Type}

namespace Scheduler

variable (s : Scheduler W)

/-- The requests of the waiting queue are marked as waiting. -/
def WaitingStaged : Prop := ∀ r ∈ s.waitingQueue, r.stage = .prefillWaiting

/-- The requests a prefill former prepares and puts back. -/
def prefillRolledBack (maxBatchSize maxUncachedTokens : ℕ) : List ScheduledRequest :=
  if s.waitingQueue.isEmpty ∨ maxBatchSize = 0 then []
  else
    match s.remainingRunningRequestCapacity with
    | .error _ => []
    | .ok remaining =>
        let scan := scanPrefill (min maxBatchSize remaining) maxUncachedTokens
          (s.chunkedPrefillSize.getD usizeMax) s.waitingQueue s [] 0
        match scan.exit with
        | .failed request _ => request :: scan.requests
        | .overBudget request => [request]
        | .done => []

/-- The requests a loop over the decode queue takes and drops when the probe fails. -/
def decodeLost (probe : W → ℕ → ScheduledRequest → W × ProbeAnswer) (limit : ℕ) :
    List ScheduledRequest :=
  let scan := scanDecode probe limit s.decodeQueue s []
  match scan.exit with
  | .probeFailed _ => scan.requests
  | _ => []

variable {s}

/-- A scan that stops with a failed probe drops what it took. -/
theorem decodeLost_of_probeFailed {probe : W → ℕ → ScheduledRequest → W × ProbeAnswer} {limit : ℕ}
    {error : SchedulerError} (h : (s.decodeScan probe limit).exit = .probeFailed error) :
    s.decodeLost probe limit = (s.decodeScan probe limit).requests := by
  unfold decodeLost
  simp only [h]

theorem decodeLost_eq_nil {probe : W → ℕ → ScheduledRequest → W × ProbeAnswer} {limit : ℕ}
    (h : ∀ error, (s.decodeScan probe limit).exit ≠ .probeFailed error) :
    s.decodeLost probe limit = [] := by
  unfold decodeLost
  dsimp only
  split
  case h_1 error hexit => exact absurd hexit (h error)
  case h_2 => rfl

end Scheduler

/-- The moves of a former meet the guard. -/
def Guard.AdmitsForm [WorkerExecutor W] (G : Guard W) (s : Scheduler W) : Former → Prop
  | .prefill maxBatchSize maxUncachedTokens =>
      ∀ r ∈ s.prefillRolledBack maxBatchSize maxUncachedTokens, G.rollBack r
  | .decode maxBatchSize =>
      ∀ r ∈ s.decodeLost Scheduler.workerProbe (min maxBatchSize s.decodeQueue.length), G.lose r
  | .decodeWhenReady _ _ => True
  | .mixed maxBatchSize tokenBudget =>
      ∀ r ∈ s.decodeLost Scheduler.workerProbe (min maxBatchSize tokenBudget), G.lose r

/-! ### Prefill batches -/

/-- The request a prefill scan holds beside its batch when it stops. -/
def PrefillExit.held : PrefillExit → List ScheduledRequest
  | .done => []
  | .overBudget request => [request]
  | .failed request _ => [request]

/-- The requests of the batch a former returns. -/
def formedRequests : Except SchedulerError ScheduleBatch → List ScheduledRequest
  | .ok batch => batch.requests
  | .error _ => []

namespace Scheduler

variable {G : Guard W}

/-- A scan of the waiting queue takes requests until it stops. -/
theorem moves_scanPrefill (m u k : ℕ) (queue : List ScheduledRequest) (s : Scheduler W)
    (requests : List ScheduledRequest) (n : ℕ) (hq : s.waitingQueue = queue)
    (hk : s.chunkedPrefillSize ≠ some 0 → k ≠ 0) :
    Moves G ⟨s, requests, []⟩
      ⟨(scanPrefill m u k queue s requests n).scheduler,
        (scanPrefill m u k queue s requests n).exit.held ++
          (scanPrefill m u k queue s requests n).requests, []⟩ := by
  induction queue generalizing s requests n with
  | nil => exact .refl
  | cons r queue ih =>
    unfold scanPrefill
    split
    case isFalse => exact .refl
    case isTrue =>
      split
      case h_1 s' r' error hp => exact .single (.takeFailed hq hp)
      case h_2 s' r' hp =>
        have htake : Moves G ⟨s, requests, []⟩ ⟨s', r' :: requests, []⟩ :=
          .single (.takePrefill hq hk hp)
        obtain ⟨allocator, rfl⟩ := eq_with_allocator_of_preparePrefillRequestChunk hp
        split_ifs
        · exact htake
        · refine (htake.tail (.reorder _ _ _ .rfl .rfl .rfl ?_)).trans
            (ih _ (requests ++ [r']) _ rfl hk)
          exact (List.perm_append_singleton r' requests).symm

/-- The stages of the requests a scan of the waiting queue takes. -/
theorem stage_scanPrefill (m u k : ℕ) (queue : List ScheduledRequest) (s : Scheduler W)
    (requests : List ScheduledRequest) (n : ℕ)
    (hqueue : ∀ r ∈ queue, r.stage = .prefillWaiting)
    (hrequests : ∀ r ∈ requests, r.stage = .prefillForward) :
    (∀ r ∈ (scanPrefill m u k queue s requests n).requests, r.stage = .prefillForward) ∧
      ∀ r ∈ (scanPrefill m u k queue s requests n).exit.held, r.stage ≠ .decodeForward := by
  induction queue generalizing s requests n with
  | nil => exact ⟨hrequests, by simp [scanPrefill, PrefillExit.held]⟩
  | cons r queue ih =>
    unfold scanPrefill
    split
    case isFalse => exact ⟨hrequests, by simp [PrefillExit.held]⟩
    case isTrue =>
      split
      case h_1 s' r' error hp =>
        obtain ⟨-, rfl, -⟩ := eq_outOfSlots_of_preparePrefillRequestChunk hp
        exact ⟨hrequests, by simp [PrefillExit.held, hqueue r List.mem_cons_self]⟩
      case h_2 s' r' hp =>
        have hr' := stage_of_preparePrefillRequestChunk hp
        split_ifs
        · exact ⟨hrequests, by simp [PrefillExit.held, hr']⟩
        · refine ih _ _ _ (fun x hx => hqueue x (List.mem_cons_of_mem _ hx)) fun x hx => ?_
          rcases List.mem_append.mp hx with hx | hx
          · exact hrequests x hx
          · rw [List.mem_singleton.mp hx, hr']

/-- Putting requests back one by one. -/
theorem moves_undoPrefill (s : Scheduler W) (requests t d : List ScheduledRequest)
    (hstage : ∀ r ∈ requests, r.stage ≠ .decodeForward) (hg : ∀ r ∈ requests, G.rollBack r) :
    Moves G ⟨s, requests ++ t, d⟩ ⟨requests.foldl undoPrefill s, t, d⟩ := by
  induction requests generalizing s with
  | nil => exact .refl
  | cons r requests ih =>
    refine Relation.ReflTransGen.head
      (.undoPrefill (hstage r List.mem_cons_self) (hg r List.mem_cons_self)) ?_
    exact ih _ (fun x hx => hstage x (List.mem_cons_of_mem _ hx))
      (fun x hx => hg x (List.mem_cons_of_mem _ hx))

/-- Releasing the slots of several requests only touches the allocator. -/
theorem foldl_release (s : Scheduler W) (requests : List ScheduledRequest) :
    requests.foldl (fun s request => s.release request.allocatedCachePages) s =
      { s with
        cachePageAllocator := s.cachePageAllocator.map fun a =>
          requests.foldl (fun a request => a.release request.allocatedCachePages) a } := by
  induction requests generalizing s with
  | nil => cases s; simp
  | cons r requests ih =>
    rw [List.foldl_cons, ih]
    simp [release, Function.comp_def]

theorem foldl_undoPrefill (s : Scheduler W) (requests : List ScheduledRequest) :
    requests.foldl undoPrefill s =
      { s with
        waitingQueue :=
          (requests.map fun r => r.clearForwardCacheAllocation.setStage .prefillWaiting).reverse ++
            s.waitingQueue
        cachePageAllocator := s.cachePageAllocator.map fun a =>
          requests.foldl (fun a request => a.release request.allocatedCachePages) a } := by
  induction requests generalizing s with
  | nil => cases s; simp
  | cons r requests ih => simp [ih, undoPrefill, release, Function.comp_def]

theorem foldl_undoDecode (s : Scheduler W) (requests : List ScheduledRequest) :
    requests.foldl undoDecode s =
      { s with
        decodeQueue :=
          (requests.map fun r => r.clearForwardCacheAllocation.setStage .decodeWaiting).reverse ++
            s.decodeQueue
        cachePageAllocator := s.cachePageAllocator.map fun a =>
          requests.foldl (fun a request => a.release request.allocatedCachePages) a } := by
  induction requests generalizing s with
  | nil => cases s; simp
  | cons r requests ih => simp [ih, undoDecode, release, Function.comp_def]

theorem restoreFailedPrefillAttempt_eq (s : Scheduler W) (requests : List ScheduledRequest)
    (r : ScheduledRequest) :
    s.restoreFailedPrefillAttempt requests r =
      { s with
        waitingQueue :=
          requests.map (fun r => r.clearForwardCacheAllocation.setStage .prefillWaiting) ++
            r.clearForwardCacheAllocation.setStage .prefillWaiting :: s.waitingQueue
        cachePageAllocator := s.cachePageAllocator.map fun a =>
          (r :: requests).foldl (fun a request => a.release request.allocatedCachePages) a } := by
  simp only [restoreFailedPrefillAttempt, foldl_release]
  simp [release, Function.comp_def]

theorem restoreFailedDecodeAttempt_eq (s : Scheduler W) (requests : List ScheduledRequest)
    (r : ScheduledRequest) :
    s.restoreFailedDecodeAttempt requests r =
      { s with
        decodeQueue :=
          requests.map (fun r => r.clearForwardCacheAllocation.setStage .decodeWaiting) ++
            r :: s.decodeQueue
        cachePageAllocator := s.cachePageAllocator.map fun a =>
          requests.foldl (fun a request => a.release request.allocatedCachePages) a } := by
  simp only [restoreFailedDecodeAttempt, foldl_release]

/-- Restoring a failed prefill attempt puts every request back. -/
theorem moves_restoreFailedPrefillAttempt (s : Scheduler W) (requests : List ScheduledRequest)
    (r : ScheduledRequest) (hstage : ∀ x ∈ r :: requests, x.stage ≠ .decodeForward)
    (hg : ∀ x ∈ r :: requests, G.rollBack x) :
    Moves G ⟨s, r :: requests, []⟩ (s.restoreFailedPrefillAttempt requests r).idle := by
  have hundo := moves_undoPrefill s (r :: requests) [] [] hstage hg
  rw [List.append_nil, foldl_undoPrefill] at hundo
  rw [restoreFailedPrefillAttempt_eq]
  refine hundo.tail (.reorder _ _ _ ?_ .rfl .rfl .rfl)
  simp only [List.map_cons, List.reverse_cons, List.append_assoc, List.singleton_append]
  exact List.Perm.append_right _ (List.reverse_perm _)

/-- The end of a prefill former keeps the batch or takes one request after all. -/
theorem ClosesPrefill.moves {s s' : Scheduler W} {requests : List ScheduledRequest} {k : ℕ}
    {result : Except SchedulerError ScheduleBatch} (h : s.ClosesPrefill k requests s' result)
    (hk : s.chunkedPrefillSize ≠ some 0 → k ≠ 0) :
    Moves G ⟨s, requests, []⟩ ⟨s', formedRequests result, []⟩ := by
  cases h with
  | batch _ | empty _ => exact .refl
  | failed hq hp => exact .single (.deferFailed hq hp)
  | single hq hp => exact .single (.takePrefill hq hk hp)

theorem ClosesPrefill.eq_prefill {s s' : Scheduler W} {requests : List ScheduledRequest} {k : ℕ}
    {batch : ScheduleBatch} (h : s.ClosesPrefill k requests s' (.ok batch))
    (hstage : ∀ r ∈ requests, r.stage = .prefillForward) :
    ∃ requests, batch = .prefill requests ∧ ∀ r ∈ requests, r.stage = .prefillForward := by
  cases h with
  | batch _ => exact ⟨requests, rfl, hstage⟩
  | single _ hp => exact ⟨_, rfl, by simp [stage_of_preparePrefillRequestChunk hp]⟩

theorem ClosesPrefill.requests_ne_nil {s s' : Scheduler W} {requests : List ScheduledRequest}
    {k : ℕ} {batch : ScheduleBatch} (h : s.ClosesPrefill k requests s' (.ok batch)) :
    batch.requests ≠ [] := by
  cases h with
  | batch hne => exact hne
  | single _ _ => exact List.cons_ne_nil _ _

theorem chunkedPrefillSize_scanPrefill (m u k : ℕ) (queue : List ScheduledRequest)
    (s : Scheduler W) (requests : List ScheduledRequest) (n : ℕ) :
    (scanPrefill m u k queue s requests n).scheduler.chunkedPrefillSize =
      s.chunkedPrefillSize := by
  induction queue generalizing s requests n with
  | nil => rfl
  | cons r queue ih =>
    unfold scanPrefill
    split
    case isFalse => rfl
    case isTrue =>
      split
      case h_1 s' r' error hp =>
        obtain ⟨allocator, rfl⟩ := eq_with_allocator_of_preparePrefillRequestChunk hp
        rfl
      case h_2 s' r' hp =>
        obtain ⟨allocator, rfl⟩ := eq_with_allocator_of_preparePrefillRequestChunk hp
        split_ifs
        · rfl
        · rw [ih]

/-- The chunk budget of a scheduler is positive unless its chunk size is zero. -/
theorem chunkBudget_ne_zero (s : Scheduler W) (h : s.chunkedPrefillSize ≠ some 0) :
    s.chunkedPrefillSize.getD usizeMax ≠ 0 := by
  cases hc : s.chunkedPrefillSize with
  | none => simp [usizeMax]
  | some c => simpa [hc] using h

/-- The scan of a prefill former takes requests until it stops. -/
theorem moves_prefillScan (s : Scheduler W) (m u remaining : ℕ) :
    Moves G s.idle
      ⟨(s.prefillScan m u remaining).scheduler,
        (s.prefillScan m u remaining).exit.held ++ (s.prefillScan m u remaining).requests, []⟩ :=
  moves_scanPrefill _ _ _ _ _ _ _ rfl s.chunkBudget_ne_zero

/-- Forming a prefill batch. -/
theorem moves_nextPrefillBatch {s s' : Scheduler W} {m u : ℕ}
    {result : Except SchedulerError ScheduleBatch} (hs : s.WaitingStaged)
    (hg : ∀ r ∈ s.prefillRolledBack m u, G.rollBack r)
    (h : s.nextPrefillBatchWithTokenBudget m u = (s', result)) :
    Moves G s.idle ⟨s', formedRequests result, []⟩ := by
  have hstage (remaining : ℕ) := stage_scanPrefill (min m remaining) u
    (s.chunkedPrefillSize.getD usizeMax) s.waitingQueue s [] 0 hs (by simp)
  unfold prefillRolledBack at hg
  cases formsPrefill h with
  | idle _ | full _ => exact .refl
  | @failed remaining r error hrun hcap hexit =>
    have hscan := s.moves_prefillScan (G := G) m u remaining
    have hheld := (hstage remaining).2
    rw [if_neg hrun, hcap] at hg
    rw [hexit] at hscan hheld
    simp only [hexit] at hg
    refine hscan.trans (moves_restoreFailedPrefillAttempt _ _ _ ?_ hg)
    rintro x (_ | ⟨_, hx⟩)
    · exact hheld r (by simp [PrefillExit.held])
    · simp [(hstage remaining).1 x hx]
  | @cut remaining r hrun hcap hexit _ =>
    have hscan := s.moves_prefillScan (G := G) m u remaining
    have hheld := (hstage remaining).2
    rw [if_neg hrun, hcap] at hg
    rw [hexit] at hscan hheld
    simp only [hexit] at hg
    exact hscan.tail (.undoPrefill (hheld r (by simp [PrefillExit.held])) (hg r (by simp)))
  | @closed remaining s' result hrun hcap hexit hclose =>
    have hscan := s.moves_prefillScan (G := G) m u remaining
    have hsize : (s.prefillScan m u remaining).scheduler.chunkedPrefillSize =
      s.chunkedPrefillSize := chunkedPrefillSize_scanPrefill _ _ _ _ _ _ _
    rw [hexit] at hscan
    exact hscan.trans (hclose.moves (hsize ▸ s.chunkBudget_ne_zero))

theorem eq_prefill_of_nextPrefillBatch {s s' : Scheduler W} {m u : ℕ} (hs : s.WaitingStaged)
    {batch : ScheduleBatch} (h : s.nextPrefillBatchWithTokenBudget m u = (s', .ok batch)) :
    ∃ requests, batch = .prefill requests ∧ ∀ r ∈ requests, r.stage = .prefillForward := by
  have hstage (remaining : ℕ) := (stage_scanPrefill (min m remaining) u
    (s.chunkedPrefillSize.getD usizeMax) s.waitingQueue s [] 0 hs (by simp)).1
  cases formsPrefill h with
  | cut _ _ _ _ => exact ⟨_, rfl, hstage _⟩
  | closed _ _ _ hclose => exact hclose.eq_prefill (hstage _)

/-! ### Decode batches -/

section Decode

variable (probe : W → ℕ → ScheduledRequest → W × ProbeAnswer) (limit : ℕ)

/-- A scan of the decode queue takes requests until it stops. -/
theorem moves_scanDecode (queue : List ScheduledRequest) (s : Scheduler W)
    (requests : List ScheduledRequest) (hq : s.decodeQueue = queue) :
    Moves G ⟨s, requests, []⟩
      ⟨(scanDecode probe limit queue s requests).scheduler.unpop
          (scanDecode probe limit queue s requests).exit,
        (scanDecode probe limit queue s requests).requests, []⟩ := by
  induction queue generalizing s requests with
  | nil => exact .refl
  | cons r queue ih =>
    unfold scanDecode
    split
    case isFalse => exact .refl
    case isTrue =>
      split
      case h_1 worker error hprobe => exact .single (.worker _ _ _ worker)
      case h_2 worker hprobe => exact .single (.worker _ _ _ worker)
      case h_3 worker hprobe =>
        have hworker : Moves G ⟨s, requests, []⟩ ⟨{ s with worker }, requests, []⟩ :=
          .single (.worker _ _ _ worker)
        split
        case h_1 s' r' error hp =>
          obtain ⟨_, -, -, hres⟩ | ⟨-, -, rfl, rfl, -⟩ := prepareDecodeRequest_cases hp
          · cases hres
          · have heq : unpop { s with worker, decodeQueue := queue } (.failed r' error) =
                { s with worker } := by
              simp [unpop, ← hq]
            rw [heq]
            exact hworker
        case h_2 s' r' hp =>
          have htake : Move G ⟨{ s with worker }, requests, []⟩
              ⟨s', r'.setStage .decodeForward :: requests, []⟩ := .takeDecode hq hp
          obtain ⟨allocator, rfl⟩ := eq_with_allocator_of_prepareDecodeRequest hp
          refine ((hworker.tail htake).tail (.reorder _ _ _ .rfl .rfl .rfl ?_)).trans
            (ih _ (requests ++ [r'.setStage .decodeForward]) rfl)
          exact (List.perm_append_singleton _ requests).symm

theorem stage_scanDecode (queue : List ScheduledRequest) (s : Scheduler W)
    (requests : List ScheduledRequest) (h : ∀ r ∈ requests, r.stage = .decodeForward) :
    ∀ r ∈ (scanDecode probe limit queue s requests).requests, r.stage = .decodeForward := by
  induction queue generalizing s requests with
  | nil => exact h
  | cons r queue ih =>
    unfold scanDecode
    split
    case isFalse => exact h
    case isTrue =>
      split
      case h_1 => exact h
      case h_2 => exact h
      case h_3 =>
        split
        case h_1 => exact h
        case h_2 s' r' hp =>
          refine ih _ _ fun x hx => ?_
          rcases List.mem_append.mp hx with hx | hx
          · exact h x hx
          · rw [List.mem_singleton.mp hx]
            rfl

end Decode

theorem moves_undoDecode (s : Scheduler W) (requests : List ScheduledRequest)
    (hstage : ∀ r ∈ requests, r.stage = .decodeForward) :
    Moves G ⟨s, requests, []⟩ (requests.foldl undoDecode s).idle := by
  induction requests generalizing s with
  | nil => exact .refl
  | cons r requests ih =>
    exact Relation.ReflTransGen.head (.undoDecode (hstage r List.mem_cons_self))
      (ih _ fun x hx => hstage x (List.mem_cons_of_mem _ hx))

/-- Restoring a failed decode attempt puts every request back. -/
theorem moves_restoreFailedDecodeAttempt (s : Scheduler W) (requests : List ScheduledRequest)
    (r : ScheduledRequest) (hstage : ∀ x ∈ requests, x.stage = .decodeForward) :
    Moves G ⟨{ s with decodeQueue := r :: s.decodeQueue }, requests, []⟩
      (s.restoreFailedDecodeAttempt requests r).idle := by
  have hundo := moves_undoDecode (G := G) { s with decodeQueue := r :: s.decodeQueue } requests
    hstage
  rw [foldl_undoDecode] at hundo
  rw [restoreFailedDecodeAttempt_eq]
  exact hundo.tail
    (.reorder _ _ _ .rfl (List.Perm.append_right _ (List.reverse_perm _)) .rfl .rfl)

/-- Dropping requests one by one. -/
theorem moves_lose (s : Scheduler W) (requests : List ScheduledRequest)
    (hstage : ∀ r ∈ requests, r.stage = .decodeForward) (hg : ∀ r ∈ requests, G.lose r) :
    Moves G ⟨s, requests, []⟩ s.idle := by
  induction requests with
  | nil => exact .refl
  | cons r requests ih =>
    exact Relation.ReflTransGen.head
      (.lose (hstage r List.mem_cons_self) (hg r List.mem_cons_self))
      (ih (fun x hx => hstage x (List.mem_cons_of_mem _ hx))
        fun x hx => hg x (List.mem_cons_of_mem _ hx))

/-- Forming a decode batch. -/
theorem moves_nextDecodeBatchWith {s s' : Scheduler W}
    {probe : W → ℕ → ScheduledRequest → W × ProbeAnswer} {m : ℕ}
    {result : Except SchedulerError ScheduleBatch}
    (hg : ∀ r ∈ s.decodeLost probe (min m s.decodeQueue.length), G.lose r)
    (h : s.nextDecodeBatchWith probe m = (s', result)) :
    Moves G s.idle ⟨s', formedRequests result, []⟩ := by
  have hscan (limit : ℕ) := moves_scanDecode (G := G) probe limit s.decodeQueue s [] rfl
  have hstage (limit : ℕ) := stage_scanDecode probe limit s.decodeQueue s [] (by simp)
  cases formsDecode h with
  | idle _ => exact .refl
  | @formed limit _ hunpop _ =>
    have hscan := hscan limit
    rw [hunpop] at hscan
    exact hscan
  | @notReady limit r _ hexit hnil =>
    have hscan := hscan limit
    rw [hexit, hnil] at hscan
    exact hscan
  | @probeFailed limit error hlimit hexit =>
    have hscan := hscan limit
    rw [hexit] at hscan
    rw [← hlimit, decodeLost_of_probeFailed hexit] at hg
    exact hscan.trans (moves_lose _ _ (hstage limit) hg)
  | @failed limit r error _ hexit =>
    have hscan := hscan limit
    rw [hexit] at hscan
    exact hscan.trans (moves_restoreFailedDecodeAttempt _ _ _ (hstage limit))

theorem eq_decode_of_nextDecodeBatchWith {s s' : Scheduler W}
    {probe : W → ℕ → ScheduledRequest → W × ProbeAnswer} {m : ℕ} {batch : ScheduleBatch}
    (h : s.nextDecodeBatchWith probe m = (s', .ok batch)) :
    ∃ requests, batch = .decode requests ∧ ∀ r ∈ requests, r.stage = .decodeForward := by
  cases formsDecode h with
  | formed _ _ _ => exact ⟨_, rfl, stage_scanDecode probe _ s.decodeQueue s [] (by simp)⟩

/-! ### Mixed batches -/

/-- A scan that adds prompt chunks takes requests until it stops. -/
theorem moves_scanPiggyback (m b k : ℕ) (queue : List ScheduledRequest) (s : Scheduler W)
    (requests : List ScheduledRequest) (n : ℕ) (hq : s.waitingQueue = queue) :
    Moves G ⟨s, requests, []⟩
      ⟨(scanPiggyback m b k queue s requests n).scheduler,
        (scanPiggyback m b k queue s requests n).requests, []⟩ := by
  induction queue generalizing s requests n with
  | nil => exact .refl
  | cons r queue ih =>
    unfold scanPiggyback
    split
    case isFalse => exact .refl
    case isTrue hcond =>
      split
      case h_1 s' r' requested available hp => exact .single (.deferFailed hq hp)
      case h_2 s' r' error hnot hp =>
        obtain ⟨-, -, requested, available, rfl⟩ := eq_outOfSlots_of_preparePrefillRequestChunk hp
        exact absurd rfl (hnot requested available)
      case h_3 s' r' hp =>
        have htake : Move G ⟨s, requests, []⟩ ⟨s', r' :: requests, []⟩ :=
          .takePrefill hq (fun _ => hcond.2.2) hp
        have hreorder : Moves G ⟨s, requests, []⟩ ⟨s', requests ++ [r'], []⟩ :=
          (Relation.ReflTransGen.single htake).tail (.reorder s' _ _ .rfl .rfl .rfl
            (List.perm_append_singleton r' requests).symm)
        obtain ⟨allocator, rfl⟩ := eq_with_allocator_of_preparePrefillRequestChunk hp
        split_ifs
        · exact hreorder
        · exact hreorder.trans (ih
            { s with waitingQueue := queue, cachePageAllocator := allocator } (requests ++ [r'])
            (n + r'.currentChunkLen) rfl)

theorem stage_scanPiggyback (m b k : ℕ) (queue : List ScheduledRequest) (s : Scheduler W)
    (requests : List ScheduledRequest) (n : ℕ)
    (h : ∀ r ∈ requests, r.stage = .prefillForward ∨ r.stage = .decodeForward) :
    ∀ r ∈ (scanPiggyback m b k queue s requests n).requests,
      r.stage = .prefillForward ∨ r.stage = .decodeForward := by
  induction queue generalizing s requests n with
  | nil => exact h
  | cons r queue ih =>
    unfold scanPiggyback
    split
    case isFalse => exact h
    case isTrue hcond =>
      split
      case h_1 => exact h
      case h_2 => exact h
      case h_3 s' r' hp =>
        have happend : ∀ x ∈ requests ++ [r'],
            x.stage = .prefillForward ∨ x.stage = .decodeForward := by
          intro x hx
          rcases List.mem_append.mp hx with hx | hx
          · exact h x hx
          · rw [List.mem_singleton.mp hx]
            exact .inl (stage_of_preparePrefillRequestChunk hp)
        split_ifs
        · exact happend
        · exact ih _ _ _ happend

@[simp] theorem requests_mixedBatch (requests : List ScheduledRequest) :
    (mixedBatch requests).requests = requests := by
  unfold mixedBatch
  dsimp only
  split_ifs <;> rfl

theorem moves_addPrefillChunks {s s' : Scheduler W} {requests : List ScheduledRequest} {m b : ℕ}
    {result : Except SchedulerError ScheduleBatch}
    (h : s.addPrefillChunks requests m b = (s', result)) :
    Moves G ⟨s, requests, []⟩ ⟨s', formedRequests result, []⟩ := by
  have hscan := moves_scanPiggyback (G := G) m b (s.chunkedPrefillSize.getD usizeMax)
    s.waitingQueue s requests requests.length rfl
  rw [addPrefillChunks_eq] at h
  split_ifs at h with hnil
  · cases h
    rw [hnil] at hscan
    exact hscan
  · cases h
    simpa [formedRequests] using hscan

variable [WorkerExecutor W]

/-- Forming a mixed batch. -/
theorem moves_nextMixedBatch {s s' : Scheduler W} {m b : ℕ}
    {result : Except SchedulerError ScheduleBatch}
    (hg : ∀ r ∈ s.decodeLost workerProbe (min m b), G.lose r)
    (h : s.nextMixedBatch m b = (s', result)) :
    Moves G s.idle ⟨s', formedRequests result, []⟩ := by
  have hscan := moves_scanDecode (G := G) workerProbe (min m b) s.decodeQueue s [] rfl
  have hstage := stage_scanDecode workerProbe (min m b) s.decodeQueue s [] (by simp)
  cases formsMixed h with
  | idle _ => exact .refl
  | probeFailed hexit =>
    rw [hexit] at hscan
    rw [decodeLost_of_probeFailed hexit] at hg
    exact hscan.trans (moves_lose _ _ hstage hg)
  | failed hexit =>
    rw [hexit] at hscan
    exact hscan.trans (moves_restoreFailedDecodeAttempt _ _ _ hstage)
  | extended hunpop _ hadd =>
    rw [hunpop] at hscan
    exact hscan.trans (moves_addPrefillChunks hadd)

theorem eq_mixed_of_nextMixedBatch {s s' : Scheduler W} {m b : ℕ} {batch : ScheduleBatch}
    (h : s.nextMixedBatch m b = (s', .ok batch)) :
    ∃ requests, batch = mixedBatch requests ∧
      ∀ r ∈ requests, r.stage = .prefillForward ∨ r.stage = .decodeForward := by
  have hstage := stage_scanDecode workerProbe (min m b) s.decodeQueue s [] (by simp)
  cases formsMixed h with
  | extended _ _ hadd =>
    obtain ⟨-, -, rfl⟩ := addPrefillChunks_eq_ok hadd
    exact ⟨_, rfl, stage_scanPiggyback _ _ _ _ _ _ _ fun r hr => .inr (hstage r hr)⟩

end Scheduler

/-! ### All formers -/

open Scheduler

variable [WorkerExecutor W] {G : Guard W}

omit [WorkerExecutor W] in
theorem decodeLost_closureProbe (s : Scheduler W) (isReady : ℕ → ScheduledRequest → Bool)
    (limit : ℕ) : s.decodeLost (closureProbe isReady) limit = [] := by
  have hexit (queue : List ScheduledRequest) (s : Scheduler W) (requests : List ScheduledRequest)
      (error : SchedulerError) :
      (scanDecode (closureProbe isReady) limit queue s requests).exit ≠ .probeFailed error := by
    induction queue generalizing s requests with
    | nil => simp [scanDecode]
    | cons r queue ih =>
      unfold scanDecode
      split
      case isFalse => simp
      case isTrue =>
        split
        case h_1 worker error' hprobe =>
          unfold closureProbe at hprobe
          split_ifs at hprobe <;> cases hprobe
        case h_2 => simp
        case h_3 =>
          split
          · simp
          · exact ih _ _
  exact decodeLost_eq_nil (hexit _ _ _)

/-- **Forming a batch is a sequence of moves.** The requests of the batch are the requests
taken. -/
theorem moves_form (s : Scheduler W) (f : Former) (hs : s.WaitingStaged)
    (hg : G.AdmitsForm s f) :
    Moves G s.idle ⟨(f.form s).1, formedRequests (f.form s).2, []⟩ := by
  cases f with
  | prefill m u => exact moves_nextPrefillBatch hs hg rfl
  | decode m => exact moves_nextDecodeBatchWith hg rfl
  | decodeWhenReady m isReady =>
    have hg : ∀ r ∈ s.decodeLost (closureProbe isReady) (min m s.decodeQueue.length), G.lose r := by
      simp [decodeLost_closureProbe]
    exact moves_nextDecodeBatchWith hg rfl
  | mixed m b => exact moves_nextMixedBatch hg rfl

theorem ScheduleBatch.staged_prefill {requests : List ScheduledRequest}
    (h : ∀ r ∈ requests, r.stage = .prefillForward) : (ScheduleBatch.prefill requests).Staged :=
  fun r hr => .inl ⟨h r hr, by simp [ScheduleBatch.prefill]⟩

theorem ScheduleBatch.staged_decode {requests : List ScheduledRequest}
    (h : ∀ r ∈ requests, r.stage = .decodeForward) : (ScheduleBatch.decode requests).Staged :=
  fun r hr => .inr ⟨h r hr, by simp [ScheduleBatch.decode]⟩

theorem staged_mixedBatch {requests : List ScheduledRequest}
    (h : ∀ r ∈ requests, r.stage = .prefillForward ∨ r.stage = .decodeForward) :
    (mixedBatch requests).Staged := by
  unfold mixedBatch
  dsimp only
  split_ifs with hboth hprefill
  · intro r hr
    simpa [ScheduleBatch.mixed] using h r hr
  · refine ScheduleBatch.staged_prefill fun r hr => ?_
    refine (h r hr).resolve_right fun hd => hboth ?_
    rw [hprefill, Bool.true_and, List.any_eq_true]
    exact ⟨r, hr, by simp [hd]⟩
  · refine ScheduleBatch.staged_decode fun r hr => ?_
    refine (h r hr).resolve_left fun hp => hprefill ?_
    rw [List.any_eq_true]
    exact ⟨r, hr, by simp [hp]⟩

/-- The stages of a formed batch agree with its forward mode. -/
theorem staged_form (s : Scheduler W) (f : Former) (hs : s.WaitingStaged) {s' : Scheduler W}
    {batch : ScheduleBatch} (h : f.form s = (s', .ok batch)) : batch.Staged := by
  cases f with
  | prefill m u =>
    obtain ⟨requests, rfl, hstage⟩ := eq_prefill_of_nextPrefillBatch hs h
    exact ScheduleBatch.staged_prefill hstage
  | decode m =>
    obtain ⟨requests, rfl, hstage⟩ := eq_decode_of_nextDecodeBatchWith h
    exact ScheduleBatch.staged_decode hstage
  | decodeWhenReady m isReady =>
    obtain ⟨requests, rfl, hstage⟩ := eq_decode_of_nextDecodeBatchWith h
    exact ScheduleBatch.staged_decode hstage
  | mixed m b =>
    obtain ⟨requests, rfl, hstage⟩ := eq_mixed_of_nextMixedBatch h
    exact staged_mixedBatch hstage

/-- A formed batch is not empty. -/
theorem Scheduler.requests_ne_nil_of_form {s s' : Scheduler W} {former : Former}
    {batch : ScheduleBatch} (h : former.form s = (s', .ok batch)) : batch.requests ≠ [] := by
  cases former with
  | prefill m u =>
    cases formsPrefill h with
    | cut _ _ _ hne => exact hne
    | closed _ _ _ hclose => exact hclose.requests_ne_nil
  | decode m =>
    cases formsDecode h with
    | formed _ _ hne => exact hne
  | decodeWhenReady m isReady =>
    cases formsDecode h with
    | formed _ _ hne => exact hne
  | mixed m b =>
    cases formsMixed h with
    | extended _ _ hadd =>
      obtain ⟨-, hne, rfl⟩ := addPrefillChunks_eq_ok hadd
      simpa using hne

end SglangRs
