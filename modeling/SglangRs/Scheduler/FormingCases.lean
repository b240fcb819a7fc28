import SglangRs.Scheduler.Preparation

/-!
# How a former ends

A former scans a queue, and what it does next depends on how the scan stopped. The relations of this
file list, once for every former of `SglangRs.Scheduler.Forming`, the state and the result of each
of its ends. The proofs about formers are case analyses of these relations and do not look into the
formers again; a change of a former concerns its relation first.

## Main definitions

* `Scheduler.prefillScan`, `Scheduler.decodeScan`, `Scheduler.piggybackScan`: the scans of the
  formers.
* `Scheduler.ClosesPrefill`, `Scheduler.FormsPrefill`, `Scheduler.FormsDecode`,
  `Scheduler.FormsMixed`: the ends of the formers.

## Main results

* `Scheduler.formsPrefill`, `Scheduler.formsDecode`, `Scheduler.formsMixed`: every former ends in
  one of these ways.
* `Scheduler.addPrefillChunks_eq`: adding prompt chunks to a batch fails only without any request.
-/

namespace SglangRs

namespace Scheduler

variable {W : Type}

section Definitions

variable (s : Scheduler W)

/-- The scan of a prefill former with room for `remaining` running requests. -/
abbrev prefillScan (maxBatchSize maxUncachedTokens remaining : ℕ) : Scan W PrefillExit :=
  scanPrefill (min maxBatchSize remaining) maxUncachedTokens (s.chunkedPrefillSize.getD usizeMax)
    s.waitingQueue s [] 0

/-- The scan of a former over the decode queue. -/
abbrev decodeScan (probe : W → ℕ → ScheduledRequest → W × ProbeAnswer) (limit : ℕ) :
    Scan W DecodeExit :=
  scanDecode probe limit s.decodeQueue s []

/-- The scan that adds prompt chunks to a batch. -/
abbrev piggybackScan (requests : List ScheduledRequest) (maxBatchSize tokenBudget : ℕ) :
    Scan W PiggybackExit :=
  scanPiggyback maxBatchSize tokenBudget (s.chunkedPrefillSize.getD usizeMax) s.waitingQueue s
    requests requests.length

/-- The request a decode scan popped but could not prepare, put back. -/
def unpop (s : Scheduler W) : DecodeExit → Scheduler W
  | .failed request _ => { s with decodeQueue := request :: s.decodeQueue }
  | _ => s

/-- The ends of `closePrefillBatch` for the requests a prefill scan took. -/
inductive ClosesPrefill (chunkBudget : ℕ) :
    List ScheduledRequest → Scheduler W → Except SchedulerError ScheduleBatch → Prop
  | batch {requests} (hne : requests ≠ []) :
      ClosesPrefill chunkBudget requests s (.ok (.prefill requests))
  | empty (hq : s.waitingQueue = []) : ClosesPrefill chunkBudget [] s (.error .emptyQueue)
  | failed {r queue s' r' error} (hq : s.waitingQueue = r :: queue)
      (hp : { s with waitingQueue := queue }.preparePrefillRequestChunk r chunkBudget =
        (s', r', .error error)) :
      ClosesPrefill chunkBudget [] { s' with waitingQueue := r' :: s'.waitingQueue }
        (.error error)
  | single {r queue s' r'} (hq : s.waitingQueue = r :: queue)
      (hp : { s with waitingQueue := queue }.preparePrefillRequestChunk r chunkBudget =
        (s', r', .ok ())) :
      ClosesPrefill chunkBudget [] s' (.ok (.prefill [r']))

/-- The ends of `nextPrefillBatchWithTokenBudget`. A scan that exceeds the token budget has taken a
request before. -/
inductive FormsPrefill (m u : ℕ) : Scheduler W → Except SchedulerError ScheduleBatch → Prop
  | idle (h : s.waitingQueue.isEmpty ∨ m = 0) : FormsPrefill m u s (.error .emptyQueue)
  | full {error} (hcap : s.remainingRunningRequestCapacity = .error error) :
      FormsPrefill m u s (.error error)
  | failed {remaining r error} (hrun : ¬(s.waitingQueue.isEmpty ∨ m = 0))
      (hcap : s.remainingRunningRequestCapacity = .ok remaining)
      (hexit : (s.prefillScan m u remaining).exit = .failed r error) :
      FormsPrefill m u
        ((s.prefillScan m u remaining).scheduler.restoreFailedPrefillAttempt
          (s.prefillScan m u remaining).requests r) (.error error)
  | cut {remaining r} (hrun : ¬(s.waitingQueue.isEmpty ∨ m = 0))
      (hcap : s.remainingRunningRequestCapacity = .ok remaining)
      (hexit : (s.prefillScan m u remaining).exit = .overBudget r)
      (hne : (s.prefillScan m u remaining).requests ≠ []) :
      FormsPrefill m u ((s.prefillScan m u remaining).scheduler.undoPrefill r)
        (.ok (.prefill (s.prefillScan m u remaining).requests))
  | closed {remaining s' result} (hrun : ¬(s.waitingQueue.isEmpty ∨ m = 0))
      (hcap : s.remainingRunningRequestCapacity = .ok remaining)
      (hexit : (s.prefillScan m u remaining).exit = .done)
      (hclose : (s.prefillScan m u remaining).scheduler.ClosesPrefill
        (s.chunkedPrefillSize.getD usizeMax) (s.prefillScan m u remaining).requests s' result) :
      FormsPrefill m u s' result

/-- The ends of the decode formers. The batch is formed also if a request is not ready, as long as
others have been taken. -/
inductive FormsDecode (probe : W → ℕ → ScheduledRequest → W × ProbeAnswer) (m : ℕ) :
    Scheduler W → Except SchedulerError ScheduleBatch → Prop
  | idle (h : s.decodeQueue.isEmpty ∨ m = 0) : FormsDecode probe m s (.error .emptyQueue)
  | formed {limit} (hlimit : limit = min m s.decodeQueue.length)
      (hunpop : (s.decodeScan probe limit).scheduler.unpop (s.decodeScan probe limit).exit =
        (s.decodeScan probe limit).scheduler)
      (hne : (s.decodeScan probe limit).requests ≠ []) :
      FormsDecode probe m (s.decodeScan probe limit).scheduler
        (.ok (.decode (s.decodeScan probe limit).requests))
  | notReady {limit r} (hlimit : limit = min m s.decodeQueue.length)
      (hexit : (s.decodeScan probe limit).exit = .notReady r)
      (hnil : (s.decodeScan probe limit).requests = []) :
      FormsDecode probe m (s.decodeScan probe limit).scheduler
        (.error (.decodeNotReady r.requestId))
  | probeFailed {limit error} (hlimit : limit = min m s.decodeQueue.length)
      (hexit : (s.decodeScan probe limit).exit = .probeFailed error) :
      FormsDecode probe m (s.decodeScan probe limit).scheduler (.error error)
  | failed {limit r error} (hlimit : limit = min m s.decodeQueue.length)
      (hexit : (s.decodeScan probe limit).exit = .failed r error) :
      FormsDecode probe m
        ((s.decodeScan probe limit).scheduler.restoreFailedDecodeAttempt
          (s.decodeScan probe limit).requests r) (.error error)

/-- The ends of `nextMixedBatch`. -/
inductive FormsMixed [WorkerExecutor W] (m b : ℕ) :
    Scheduler W → Except SchedulerError ScheduleBatch → Prop
  | idle (h : (s.decodeQueue.isEmpty ∧ s.waitingQueue.isEmpty) ∨ m = 0) :
      FormsMixed m b s (.error .emptyQueue)
  | probeFailed {error} (hexit : (s.decodeScan workerProbe (min m b)).exit = .probeFailed error) :
      FormsMixed m b (s.decodeScan workerProbe (min m b)).scheduler (.error error)
  | failed {r error} (hexit : (s.decodeScan workerProbe (min m b)).exit = .failed r error) :
      FormsMixed m b
        ((s.decodeScan workerProbe (min m b)).scheduler.restoreFailedDecodeAttempt
          (s.decodeScan workerProbe (min m b)).requests r) (.error error)
  | extended {s' result}
      (hunpop : (s.decodeScan workerProbe (min m b)).scheduler.unpop
        (s.decodeScan workerProbe (min m b)).exit = (s.decodeScan workerProbe (min m b)).scheduler)
      (hlost : ∀ error, (s.decodeScan workerProbe (min m b)).exit ≠ .probeFailed error)
      (hadd : (s.decodeScan workerProbe (min m b)).scheduler.addPrefillChunks
        (s.decodeScan workerProbe (min m b)).requests m b = (s', result)) :
      FormsMixed m b s' result

end Definitions

variable {s s' : Scheduler W} {result : Except SchedulerError ScheduleBatch}

/-! ### Prefill batches -/

/-- Only a batch that is not empty can exceed the token budget. -/
theorem requests_ne_nil_of_overBudget (m u k : ℕ) (queue : List ScheduledRequest) (s : Scheduler W)
    (requests : List ScheduledRequest) (n : ℕ) {r : ScheduledRequest}
    (h : (scanPrefill m u k queue s requests n).exit = .overBudget r) :
    (scanPrefill m u k queue s requests n).requests ≠ [] := by
  induction queue generalizing s requests n with
  | nil => simp [scanPrefill] at h
  | cons x queue ih =>
    unfold scanPrefill at h ⊢
    split at h
    case isFalse => simp at h
    case isTrue hlimit =>
      rw [if_pos hlimit]
      split at h
      case h_1 => simp at h
      case h_2 s' x' hp =>
        split_ifs at h ⊢ with hbudget
        · exact hbudget.1
        · exact ih _ _ _ h

theorem closesPrefill {requests : List ScheduledRequest} {k : ℕ}
    (h : s.closePrefillBatch requests k = (s', result)) : s.ClosesPrefill k requests s' result := by
  unfold closePrefillBatch at h
  split_ifs at h with hempty
  · obtain rfl := List.isEmpty_iff.mp hempty
    split at h
    case h_1 hq =>
      cases h
      exact .empty hq
    case h_2 r queue hq =>
      split at h
      case h_1 s₁ r₁ error hp =>
        cases h
        exact .failed hq hp
      case h_2 s₁ r₁ hp =>
        cases h
        exact .single hq hp
  · cases h
    exact .batch (by simpa using hempty)

/-- **The ends of the prefill former.** -/
theorem formsPrefill {m u : ℕ} (h : s.nextPrefillBatchWithTokenBudget m u = (s', result)) :
    s.FormsPrefill m u s' result := by
  unfold nextPrefillBatchWithTokenBudget at h
  split_ifs at h with hrun
  · cases h
    exact .idle hrun
  split at h
  case h_1 error hcap =>
    cases h
    exact .full hcap
  case h_2 remaining hcap =>
    dsimp only at h
    split at h
    case h_1 r error hexit =>
      cases h
      exact .failed hrun hcap hexit
    case h_2 r hexit =>
      have hne := requests_ne_nil_of_overBudget _ _ _ _ _ _ _ hexit
      rw [closePrefillBatch, if_neg (by simpa using hne)] at h
      cases h
      exact .cut hrun hcap hexit hne
    case h_3 hexit => exact .closed hrun hcap hexit (closesPrefill h)

/-! ### Decode batches -/

/-- A scan of the decode queue that is not stopped takes requests up to the limit. -/
theorem min_le_length_scanDecode (probe : W → ℕ → ScheduledRequest → W × ProbeAnswer) (limit : ℕ)
    (queue : List ScheduledRequest) (s : Scheduler W) (requests : List ScheduledRequest)
    (h : (scanDecode probe limit queue s requests).exit = .done) :
    min limit (requests.length + queue.length) ≤
      (scanDecode probe limit queue s requests).requests.length := by
  induction queue generalizing s requests with
  | nil => exact min_le_right _ _
  | cons r queue ih =>
    unfold scanDecode at h ⊢
    split at h
    case isFalse hlimit =>
      rw [if_neg hlimit]
      exact (min_le_left _ _).trans (not_lt.mp hlimit)
    case isTrue hlimit =>
      rw [if_pos hlimit]
      split at h
      case h_1 => cases h
      case h_2 => cases h
      case h_3 worker hprobe =>
        split at h
        case h_1 => cases h
        case h_2 s' r' hp =>
          have hrest := ih s' (requests ++ [r'.setStage .decodeForward]) h
          simp only [List.length_append, List.length_cons, List.length_nil] at hrest ⊢
          omega

/-- **The ends of the decode formers.** -/
theorem formsDecode {probe : W → ℕ → ScheduledRequest → W × ProbeAnswer} {m : ℕ}
    (h : s.nextDecodeBatchWith probe m = (s', result)) : s.FormsDecode probe m s' result := by
  unfold nextDecodeBatchWith at h
  split_ifs at h with hidle
  · cases h
    exact .idle hidle
  have hlength := min_le_length_scanDecode probe (min m s.decodeQueue.length) s.decodeQueue s []
  dsimp only at h
  split at h
  case h_1 hexit =>
    cases h
    refine .formed rfl (by rw [hexit]; rfl) (List.ne_nil_of_length_pos ?_)
    have hpos : 0 < min (min m s.decodeQueue.length) s.decodeQueue.length := by
      rw [List.isEmpty_iff, ← List.length_eq_zero_iff] at hidle
      omega
    have hscan := hlength hexit
    rw [List.length_nil, zero_add] at hscan
    exact hpos.trans_le hscan
  case h_2 r hexit =>
    split_ifs at h with hempty
    · cases h
      exact .notReady rfl hexit (List.isEmpty_iff.mp hempty)
    · cases h
      exact .formed rfl (by rw [hexit]; rfl) (by simpa using hempty)
  case h_3 error hexit =>
    cases h
    exact .probeFailed rfl hexit
  case h_4 r error hexit =>
    cases h
    exact .failed rfl hexit

/-! ### Mixed batches -/

/-- A scan that adds prompt chunks never fails: it stops when the slots run out. -/
theorem exit_scanPiggyback (m b k : ℕ) (queue : List ScheduledRequest) (s : Scheduler W)
    (requests : List ScheduledRequest) (n : ℕ) :
    (scanPiggyback m b k queue s requests n).exit = .done := by
  induction queue generalizing s requests n with
  | nil => rfl
  | cons r queue ih =>
    unfold scanPiggyback
    split
    case isFalse => rfl
    case isTrue =>
      split
      case h_1 => rfl
      case h_2 s' r' error hnot hp =>
        obtain ⟨-, -, requested, available, rfl⟩ := eq_outOfSlots_of_preparePrefillRequestChunk hp
        exact absurd rfl (hnot requested available)
      case h_3 s' r' hp =>
        split_ifs
        · rfl
        · exact ih _ _ _

/-- A scan for prompt chunks that ends without a request has at most tried the head of the queue. -/
theorem scanPiggyback_nil (m b k : ℕ) (queue : List ScheduledRequest) (s : Scheduler W)
    (requests : List ScheduledRequest) (n : ℕ) (hq : s.waitingQueue = queue)
    (hnil : (scanPiggyback m b k queue s requests n).requests = []) :
    requests = [] ∧ ((scanPiggyback m b k queue s requests n).scheduler = s ∨
      ∃ r rest r' maxChunkTokens error, s.waitingQueue = r :: rest ∧
        { s with waitingQueue := rest }.preparePrefillRequestChunk r maxChunkTokens =
          ({ s with waitingQueue := rest }, r', .error error) ∧
        (scanPiggyback m b k queue s requests n).scheduler =
          { s with waitingQueue := r' :: rest }) := by
  induction queue generalizing s requests n with
  | nil => exact ⟨hnil, .inl rfl⟩
  | cons r queue ih =>
    unfold scanPiggyback at hnil ⊢
    split at hnil
    case isFalse hcond =>
      rw [if_neg hcond]
      exact ⟨hnil, .inl rfl⟩
    case isTrue hcond =>
      rw [if_pos hcond]
      split at hnil
      case h_1 s' r' requested available hp =>
        obtain ⟨rfl, -, -⟩ := eq_outOfSlots_of_preparePrefillRequestChunk hp
        exact ⟨hnil, .inr ⟨r, queue, r', _, _, hq, hp, rfl⟩⟩
      case h_2 s' r' error hnot hp =>
        obtain ⟨-, -, requested, available, rfl⟩ := eq_outOfSlots_of_preparePrefillRequestChunk hp
        exact absurd rfl (hnot requested available)
      case h_3 s' r' hp =>
        obtain ⟨allocator, rfl⟩ := eq_with_allocator_of_preparePrefillRequestChunk hp
        split_ifs at hnil
        · simp at hnil
        · exact absurd (ih _ _ _ rfl hnil).1 (by simp)

/-- **Adding prompt chunks to a batch.** -/
theorem addPrefillChunks_eq (s : Scheduler W) (requests : List ScheduledRequest) (m b : ℕ) :
    s.addPrefillChunks requests m b =
      ((s.piggybackScan requests m b).scheduler,
        if (s.piggybackScan requests m b).requests = [] then .error .emptyQueue
        else .ok (mixedBatch (s.piggybackScan requests m b).requests)) := by
  have hexit := exit_scanPiggyback m b (s.chunkedPrefillSize.getD usizeMax) s.waitingQueue s
    requests requests.length
  unfold addPrefillChunks
  simp only [hexit, List.isEmpty_iff]
  split_ifs <;> rfl

theorem addPrefillChunks_eq_ok {requests : List ScheduledRequest} {m b : ℕ} {batch : ScheduleBatch}
    (h : s.addPrefillChunks requests m b = (s', .ok batch)) :
    s' = (s.piggybackScan requests m b).scheduler ∧ (s.piggybackScan requests m b).requests ≠ [] ∧
      batch = mixedBatch (s.piggybackScan requests m b).requests := by
  rw [addPrefillChunks_eq] at h
  split_ifs at h with hnil
  · cases h
  · obtain ⟨rfl, hbatch⟩ := Prod.mk.inj h
    exact ⟨rfl, hnil, (Except.ok.inj hbatch).symm⟩

theorem addPrefillChunks_eq_error {requests : List ScheduledRequest} {m b : ℕ}
    {error : SchedulerError} (h : s.addPrefillChunks requests m b = (s', .error error)) :
    s' = (s.piggybackScan requests m b).scheduler ∧
      (s.piggybackScan requests m b).requests = [] := by
  rw [addPrefillChunks_eq] at h
  split_ifs at h with hnil
  · cases h
    exact ⟨rfl, hnil⟩
  · cases h

/-- **The ends of the mixed former.** -/
theorem formsMixed [WorkerExecutor W] {m b : ℕ} (h : s.nextMixedBatch m b = (s', result)) :
    s.FormsMixed m b s' result := by
  unfold nextMixedBatch at h
  split_ifs at h with hidle
  · cases h
    exact .idle hidle
  dsimp only at h
  split at h
  case h_1 error hexit =>
    cases h
    exact .probeFailed hexit
  case h_2 r error hexit =>
    cases h
    exact .failed hexit
  case h_3 hexit => exact .extended (by rw [hexit]; rfl) (by simp [hexit]) h
  case h_4 r hexit => exact .extended (by rw [hexit]; rfl) (by simp [hexit]) h

end Scheduler

end SglangRs
