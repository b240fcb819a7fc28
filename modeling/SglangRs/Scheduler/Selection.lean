import SglangRs.Scheduler.FormingMoves

/-!
# Which requests a batch is formed of

The formers take requests from the front of the queues and keep their order: first those of the
decode queue, then those of the waiting queue. What stays in the waiting queue stays in order as
well, although its head may have been prepared and put back. This file states that for every former,
with what preparing does to a request; the moves of `SglangRs.Scheduler.Moves` do not tell the order
of a queue.

## Main definitions

* `Scheduler.Prepared`, `Scheduler.PreparedDecode`: a request as it is put in a batch.
* `Scheduler.Kept`: a request as it is left in the waiting queue.
* `Scheduler.SameCache`: what forming a batch leaves alone.
* `Scheduler.Selects`: a batch formed of the fronts of the queues.

## Main results

* `Former.selects`: every former selects its batch in this way.
-/

namespace SglangRs

variable {W : Type}

namespace Scheduler

/-- `r'` is `r` with a prompt chunk prepared by the scheduler `s`. -/
inductive Prepared (s : Scheduler W) (r : ScheduledRequest) : ScheduledRequest → Prop
  | replay (h : s.Replays r) :
      Prepared s r { s.withPrefix r with currentChunkLen := 1, stage := .prefillForward }
  | chunk (h : ¬s.Replays r) (slots : List ℕ) {k : ℕ} (hk : s.chunkedPrefillSize ≠ some 0 → k ≠ 0) :
      Prepared s r
        { (s.withPrefix r).recordAllocation slots with
          currentChunkLen := min (s.withPrefix r).remainingPromptTokens k
          stage := .prefillForward }

/-- `r'` is `r` with a slot for its next token. -/
def PreparedDecode (r r' : ScheduledRequest) : Prop :=
  ∃ slots, r' = (r.recordAllocation slots).setStage .decodeForward

/-- `r'` is what the waiting queue keeps of `r`: the request itself, the request with its prefix
attached if there were no slots for it, or a prepared request that was put back. -/
inductive Kept (s : Scheduler W) (r : ScheduledRequest) : ScheduledRequest → Prop
  | same : Kept s r r
  | withPrefix : Kept s r (s.withPrefix r)
  | rolledBack {r' : ScheduledRequest} (h : s.Prepared r r') :
      Kept s r (r'.clearForwardCacheAllocation.setStage .prefillWaiting)

/-- What forming a batch leaves alone. -/
structure SameCache (s s' : Scheduler W) : Prop where
  pending_eq : s'.pendingPrefixCacheInserts = s.pendingPrefixCacheInserts
  cache_eq : s'.prefixCache = s.prefixCache
  policy_eq : s'.prefixCachePolicy = s.prefixCachePolicy
  chunk_eq : s'.chunkedPrefillSize = s.chunkedPrefillSize
  pageSize_eq : s'.pageSize = s.pageSize

/-- The state `s'` and the batch of `requests` that are formed from `s` by taking the requests
`decoded` from the decode queue and `prompted` from the waiting queue. -/
structure Selects (s s' : Scheduler W) (decoded prompted requests : List ScheduledRequest) :
    Prop where
  decode_eq : s.decodeQueue = decoded ++ s'.decodeQueue
  waiting_eq : ∃ kept, s.waitingQueue = prompted ++ kept ∧
    List.Forall₂ s.Kept kept s'.waitingQueue
  requests_eq : ∃ decodes prefills, requests = decodes ++ prefills ∧
    List.Forall₂ PreparedDecode decoded decodes ∧ List.Forall₂ s.Prepared prompted prefills
  same : s.SameCache s'

/-! ### Preparing one request -/

section Prepare

variable {s s₀ s' : Scheduler W} {r r' : ScheduledRequest}

theorem SameCache.refl (s : Scheduler W) : s.SameCache s := ⟨rfl, rfl, rfl, rfl, rfl⟩

theorem SameCache.trans (h : s₀.SameCache s) (h' : s.SameCache s') : s₀.SameCache s' :=
  ⟨h'.pending_eq.trans h.pending_eq, h'.cache_eq.trans h.cache_eq, h'.policy_eq.trans h.policy_eq,
    h'.chunk_eq.trans h.chunk_eq, h'.pageSize_eq.trans h.pageSize_eq⟩

theorem SameCache.attachPrefixMatch_eq (h : s₀.SameCache s) (r : ScheduledRequest) :
    s.attachPrefixMatch r = s₀.attachPrefixMatch r := by
  have hlookup : s.lookupPrefix r.inputIds = s₀.lookupPrefix r.inputIds := by
    unfold lookupPrefix
    rw [h.policy_eq, h.cache_eq, h.pageSize_eq]
  unfold attachPrefixMatch
  rw [hlookup]

theorem SameCache.withPrefix_eq (h : s₀.SameCache s) (r : ScheduledRequest) :
    s.withPrefix r = s₀.withPrefix r := by
  unfold withPrefix
  rw [h.attachPrefixMatch_eq]

theorem SameCache.replays_iff (h : s₀.SameCache s) (r : ScheduledRequest) :
    s.Replays r ↔ s₀.Replays r := by
  unfold Replays
  rw [h.attachPrefixMatch_eq]

/-- Allocating slots changes nothing but the allocator. -/
theorem SameCache.allocate (h : s₀.SameCache s) {seq slots : List ℕ} {n : ℕ}
    (halloc : s.allocateForSequence seq n = .ok (s', slots)) : s₀.SameCache s' := by
  obtain ⟨-, rfl, -⟩ | ⟨a, a', ha, ha', rfl⟩ := allocateForSequence_eq_ok halloc
  · exact h
  · refine h.trans ⟨rfl, rfl, rfl, rfl, ?_⟩
    simp only [pageSize, ha]
    exact CachePageAllocator.pageSize_allocateForSequence ha'

theorem SameCache.preparePrefill (h : s₀.SameCache s) {k : ℕ} {result : Except SchedulerError Unit}
    (hp : s.preparePrefillRequestChunk r k = (s', r', result)) : s₀.SameCache s' := by
  obtain ⟨-, rfl, -⟩ | ⟨-, slots, halloc, -⟩ | ⟨-, _, -, rfl, -⟩ :=
    preparePrefillRequestChunk_cases hp
  · exact h
  · exact h.allocate halloc
  · exact h

theorem SameCache.prepareDecode (h : s₀.SameCache s) {result : Except SchedulerError Unit}
    (hp : s.prepareDecodeRequest r = (s', r', result)) : s₀.SameCache s' := by
  obtain ⟨slots, halloc, -⟩ | ⟨_, -, rfl, -⟩ := prepareDecodeRequest_cases hp
  · exact h.allocate halloc
  · exact h

theorem SameCache.undoPrefill (h : s₀.SameCache s) (r : ScheduledRequest) :
    s₀.SameCache (s.undoPrefill r) := by
  refine h.trans ⟨rfl, rfl, rfl, rfl, ?_⟩
  unfold Scheduler.undoPrefill release pageSize
  cases s.cachePageAllocator <;> rfl

/-- Preparing a chunk while a batch is formed from `s₀`. -/
theorem SameCache.prepared (h : s₀.SameCache s) {k : ℕ}
    (hk : s₀.chunkedPrefillSize ≠ some 0 → k ≠ 0)
    (hp : s.preparePrefillRequestChunk r k = (s', r', .ok ())) : s₀.Prepared r r' := by
  obtain ⟨hrep, -, -, rfl⟩ | ⟨hrep, slots, -, -, rfl⟩ | ⟨-, _, -, -, -, hres⟩ :=
    preparePrefillRequestChunk_cases hp
  · rw [h.withPrefix_eq]
    exact .replay ((h.replays_iff r).mp hrep)
  · rw [h.withPrefix_eq]
    exact .chunk (mt (h.replays_iff r).mpr hrep) slots hk
  · cases hres

theorem preparedDecode_of_prepareDecodeRequest
    (hp : s.prepareDecodeRequest r = (s', r', .ok ())) :
    PreparedDecode r (r'.setStage .decodeForward) := by
  obtain ⟨slots, -, rfl, -⟩ | ⟨_, -, -, -, hres⟩ := prepareDecodeRequest_cases hp
  · exact ⟨slots, rfl⟩
  · cases hres

end Prepare

/-- Related lists have related members. -/
theorem exists_mem_of_forall₂ {α β : Type} {R : α → β → Prop} {l : List α} {l' : List β}
    (h : List.Forall₂ R l l') {b : β} (hb : b ∈ l') : ∃ a ∈ l, R a b := by
  induction h with
  | nil => cases hb
  | cons hr _ ih =>
    rcases List.mem_cons.mp hb with rfl | hb
    · exact ⟨_, List.mem_cons_self, hr⟩
    · obtain ⟨a, ha, hab⟩ := ih hb
      exact ⟨a, List.mem_cons_of_mem _ ha, hab⟩

/-! ### Scans of the queues -/

theorem forall₂_kept_refl (s : Scheduler W) (queue : List ScheduledRequest) :
    List.Forall₂ s.Kept queue queue :=
  List.forall₂_same.mpr fun _ _ => .same

variable {s₀ : Scheduler W}

/-- A scan of the waiting queue takes requests from its front. -/
theorem scanPrefill_selects (m u k : ℕ) (hk : s₀.chunkedPrefillSize ≠ some 0 → k ≠ 0)
    (queue : List ScheduledRequest) (s : Scheduler W) (requests : List ScheduledRequest) (n : ℕ)
    (hq : s.waitingQueue = queue) (hs : s₀.SameCache s) :
    let scan := scanPrefill m u k queue s requests n
    s₀.SameCache scan.scheduler ∧ scan.scheduler.decodeQueue = s.decodeQueue ∧
      ∃ prompted prefills, scan.requests = requests ++ prefills ∧
        List.Forall₂ s₀.Prepared prompted prefills ∧
        match scan.exit with
        | .done => queue = prompted ++ scan.scheduler.waitingQueue
        | .overBudget r' => ∃ r, s₀.Prepared r r' ∧
            queue = prompted ++ r :: scan.scheduler.waitingQueue
        | .failed _ _ => True := by
  induction queue generalizing s requests n with
  | nil => exact ⟨hs, rfl, [], [], by simp [scanPrefill], .nil, by simp [scanPrefill, hq]⟩
  | cons r queue ih =>
    unfold scanPrefill
    split
    case isFalse => exact ⟨hs, rfl, [], [], by simp, .nil, by simp [hq]⟩
    case isTrue =>
      have hs₁ : s₀.SameCache { s with waitingQueue := queue } := hs.trans ⟨rfl, rfl, rfl, rfl, rfl⟩
      split
      case h_1 s' r' error hp =>
        have hs' := hs₁.preparePrefill hp
        obtain ⟨allocator, rfl⟩ := eq_with_allocator_of_preparePrefillRequestChunk hp
        exact ⟨hs', rfl, [], [], by simp, .nil, trivial⟩
      case h_2 s' r' hp =>
        have hs' := hs₁.preparePrefill hp
        have hprep := hs₁.prepared hk hp
        obtain ⟨allocator, rfl⟩ := eq_with_allocator_of_preparePrefillRequestChunk hp
        split_ifs
        · exact ⟨hs', rfl, [], [], by simp, .nil, r, hprep, rfl⟩
        · obtain ⟨hsame, hdecode, prompted, prefills, hreq, hall, hexit⟩ :=
            ih _ (requests ++ [r']) (n + r'.currentChunkLen) rfl hs'
          refine ⟨hsame, hdecode, r :: prompted, r' :: prefills, by simp [hreq],
            .cons hprep hall, ?_⟩
          revert hexit
          cases (scanPrefill m u k queue _ _ _).exit with
          | done => exact congrArg (List.cons r)
          | overBudget x =>
              rintro ⟨y, hy, h⟩
              exact ⟨y, hy, congrArg (List.cons r) h⟩
          | failed => exact fun _ => trivial

/-- A scan of the decode queue takes requests from its front. -/
theorem scanDecode_selects (probe : W → ℕ → ScheduledRequest → W × ProbeAnswer) (limit : ℕ)
    (queue : List ScheduledRequest) (s : Scheduler W) (requests : List ScheduledRequest)
    (hq : s.decodeQueue = queue) (hs : s₀.SameCache s) :
    let scan := scanDecode probe limit queue s requests
    s₀.SameCache scan.scheduler ∧ scan.scheduler.waitingQueue = s.waitingQueue ∧
      ∃ decoded decodes, scan.requests = requests ++ decodes ∧
        List.Forall₂ PreparedDecode decoded decodes ∧
        queue = decoded ++ (scan.scheduler.unpop scan.exit).decodeQueue := by
  induction queue generalizing s requests with
  | nil => exact ⟨hs, rfl, [], [], by simp [scanDecode], .nil, by simp [scanDecode, unpop, hq]⟩
  | cons r queue ih =>
    unfold scanDecode
    split
    case isFalse => exact ⟨hs, rfl, [], [], by simp, .nil, by simp [unpop, hq]⟩
    case isTrue =>
      split
      case h_1 worker error hprobe =>
        exact ⟨hs.trans ⟨rfl, rfl, rfl, rfl, rfl⟩, rfl, [], [], by simp, .nil, by simp [unpop, hq]⟩
      case h_2 worker hprobe =>
        exact ⟨hs.trans ⟨rfl, rfl, rfl, rfl, rfl⟩, rfl, [], [], by simp, .nil, by simp [unpop, hq]⟩
      case h_3 worker hprobe =>
        have hs₁ : s₀.SameCache { s with worker, decodeQueue := queue } :=
          hs.trans ⟨rfl, rfl, rfl, rfl, rfl⟩
        split
        case h_1 s' r' error hp =>
          obtain ⟨_, -, -, hres⟩ | ⟨-, -, rfl, rfl, -⟩ := prepareDecodeRequest_cases hp
          · cases hres
          · exact ⟨hs₁, rfl, [], [], by simp, .nil, by simp [unpop]⟩
        case h_2 s' r' hp =>
          have hs' := hs₁.prepareDecode hp
          have hprep := preparedDecode_of_prepareDecodeRequest hp
          obtain ⟨allocator, rfl⟩ := eq_with_allocator_of_prepareDecodeRequest hp
          obtain ⟨hsame, hwaiting, decoded, decodes, hreq, hall, hqueue⟩ := ih _ _ rfl hs'
          exact ⟨hsame, hwaiting, r :: decoded, r'.setStage .decodeForward :: decodes,
            by simp [hreq], .cons hprep hall, congrArg (List.cons r) hqueue⟩

/-- The scan that adds prompt chunks takes requests from the front of the waiting queue. -/
theorem scanPiggyback_selects (m b k : ℕ) (queue : List ScheduledRequest) (s : Scheduler W)
    (requests : List ScheduledRequest) (n : ℕ) (hq : s.waitingQueue = queue) (hs : s₀.SameCache s) :
    let scan := scanPiggyback m b k queue s requests n
    s₀.SameCache scan.scheduler ∧ scan.scheduler.decodeQueue = s.decodeQueue ∧
      ∃ prompted prefills, scan.requests = requests ++ prefills ∧
        List.Forall₂ s₀.Prepared prompted prefills ∧
        match scan.exit with
        | .done => ∃ kept, queue = prompted ++ kept ∧
            List.Forall₂ s₀.Kept kept scan.scheduler.waitingQueue
        | .failed _ _ => True := by
  induction queue generalizing s requests n with
  | nil =>
    refine ⟨hs, rfl, [], [], by simp [scanPiggyback], .nil, [], rfl, ?_⟩
    change List.Forall₂ s₀.Kept [] s.waitingQueue
    rw [hq]
    exact .nil
  | cons r queue ih =>
    unfold scanPiggyback
    split
    case isFalse => exact ⟨hs, rfl, [], [], by simp, .nil, _, rfl, hq ▸ forall₂_kept_refl s₀ _⟩
    case isTrue hcond =>
      have hs₁ : s₀.SameCache { s with waitingQueue := queue } := hs.trans ⟨rfl, rfl, rfl, rfl, rfl⟩
      split
      case h_1 s' r' _ _ hp =>
        obtain ⟨rfl, rfl, -⟩ := eq_outOfSlots_of_preparePrefillRequestChunk hp
        refine ⟨hs₁.trans ⟨rfl, rfl, rfl, rfl, rfl⟩, rfl, [], [], by simp, .nil, _, rfl, ?_⟩
        refine .cons ?_ (forall₂_kept_refl s₀ queue)
        rw [hs₁.withPrefix_eq]
        exact .withPrefix
      case h_2 s' r' error _ hp =>
        obtain ⟨rfl, rfl, -⟩ := eq_outOfSlots_of_preparePrefillRequestChunk hp
        exact ⟨hs₁, rfl, [], [], by simp, .nil, trivial⟩
      case h_3 s' r' hp =>
        have hs' := hs₁.preparePrefill hp
        have hprep := hs₁.prepared (fun _ => hcond.2.2) hp
        obtain ⟨allocator, rfl⟩ := eq_with_allocator_of_preparePrefillRequestChunk hp
        split_ifs
        · exact ⟨hs', rfl, [r], [r'], by simp, .cons hprep .nil, queue, rfl,
            forall₂_kept_refl s₀ queue⟩
        · obtain ⟨hsame, hdecode, prompted, prefills, hreq, hall, hexit⟩ :=
            ih _ (requests ++ [r']) (n + r'.currentChunkLen) rfl hs'
          refine ⟨hsame, hdecode, r :: prompted, r' :: prefills, by simp [hreq],
            .cons hprep hall, ?_⟩
          revert hexit
          cases (scanPiggyback m b k queue _ _ _).exit with
          | done =>
              rintro ⟨kept, h, hkept⟩
              exact ⟨kept, congrArg (List.cons r) h, hkept⟩
          | failed => exact fun _ => trivial

/-! ### The formers -/

theorem ClosesPrefill.selects {s s' : Scheduler W} {requests : List ScheduledRequest} {k : ℕ}
    {batch : ScheduleBatch} (h : s.ClosesPrefill k requests s' (.ok batch))
    (hk : s₀.chunkedPrefillSize ≠ some 0 → k ≠ 0) (hs : s₀.SameCache s) :
    s₀.SameCache s' ∧ s'.decodeQueue = s.decodeQueue ∧
      ∃ prompted prefills, batch.requests = requests ++ prefills ∧
        List.Forall₂ s₀.Prepared prompted prefills ∧
        s.waitingQueue = prompted ++ s'.waitingQueue := by
  cases h with
  | batch _ => exact ⟨hs, rfl, [], [], by simp [ScheduleBatch.prefill], .nil, rfl⟩
  | @single r queue s' r' hq hp =>
    have hs₁ : s₀.SameCache { s with waitingQueue := queue } := hs.trans ⟨rfl, rfl, rfl, rfl, rfl⟩
    have hs' := hs₁.preparePrefill hp
    have hprep := hs₁.prepared hk hp
    obtain ⟨allocator, rfl⟩ := eq_with_allocator_of_preparePrefillRequestChunk hp
    exact ⟨hs', rfl, [r], [r'], rfl, .cons hprep .nil, hq⟩

theorem nextPrefillBatch_selects {s s' : Scheduler W} {m u : ℕ} {batch : ScheduleBatch}
    (h : s.nextPrefillBatchWithTokenBudget m u = (s', .ok batch)) :
    ∃ prompted, s.Selects s' [] prompted batch.requests := by
  have hk := s.chunkBudget_ne_zero
  have hscan (remaining : ℕ) := scanPrefill_selects (min m remaining) u
    (s.chunkedPrefillSize.getD usizeMax) hk s.waitingQueue s [] 0 rfl (.refl s)
  cases formsPrefill h with
  | @cut remaining r' _ _ hexit _ =>
    -- the loop has taken a request before, so nothing is prepared after the rollback
    obtain ⟨hsame, hdecode, prompted, prefills, hreq, hall, hover⟩ := hscan remaining
    rw [hexit] at hover
    obtain ⟨r, hprep, hqueue⟩ := hover
    refine ⟨prompted, ⟨hdecode.symm, ⟨_, hqueue, ?_⟩, ⟨[], prefills, hreq, .nil, hall⟩,
      hsame.undoPrefill r'⟩⟩
    exact .cons (.rolledBack hprep) (forall₂_kept_refl s _)
  | @closed remaining _ _ _ _ hexit hclose =>
    obtain ⟨hsame, hdecode, prompted, prefills, hreq, hall, hdone⟩ := hscan remaining
    rw [hexit] at hdone
    obtain ⟨hsame', hdecode', prompted', prefills', hreq', hall', hqueue'⟩ :=
      hclose.selects hk hsame
    refine ⟨prompted ++ prompted', ⟨hdecode.symm.trans hdecode'.symm,
      ⟨_, ?_, forall₂_kept_refl s _⟩, ⟨[], prefills ++ prefills', ?_, .nil, ?_⟩, hsame'⟩⟩
    · rw [hdone, hqueue', List.append_assoc]
    · rw [hreq', hreq, List.nil_append, List.nil_append]
    · exact List.rel_append hall hall'

theorem nextDecodeBatchWith_selects {s s' : Scheduler W}
    {probe : W → ℕ → ScheduledRequest → W × ProbeAnswer} {m : ℕ} {batch : ScheduleBatch}
    (h : s.nextDecodeBatchWith probe m = (s', .ok batch)) :
    ∃ decoded, s.Selects s' decoded [] batch.requests := by
  cases formsDecode h with
  | @formed limit _ hunpop _ =>
    obtain ⟨hsame, hwaiting, decoded, decodes, hreq, hall, hqueue⟩ :=
      scanDecode_selects probe limit s.decodeQueue s [] rfl (.refl s)
    rw [hunpop] at hqueue
    refine ⟨decoded, hqueue, ⟨_, rfl, ?_⟩, ⟨decodes, [], ?_, hall, .nil⟩, hsame⟩
    · rw [hwaiting]
      exact forall₂_kept_refl s _
    · rw [ScheduleBatch.decode, hreq, List.nil_append, List.append_nil]

variable [WorkerExecutor W]

theorem nextMixedBatch_selects {s s' : Scheduler W} {m b : ℕ} {batch : ScheduleBatch}
    (h : s.nextMixedBatch m b = (s', .ok batch)) :
    ∃ decoded prompted, s.Selects s' decoded prompted batch.requests := by
  cases formsMixed h with
  | extended hunpop _ hadd =>
    obtain ⟨rfl, -, rfl⟩ := addPrefillChunks_eq_ok hadd
    obtain ⟨hsame, hwaiting, decoded, decodes, hreq, hall, hqueue⟩ := scanDecode_selects
      workerProbe (min m b) s.decodeQueue s [] rfl (.refl s)
    rw [hunpop] at hqueue
    set scan := s.decodeScan workerProbe (min m b)
    obtain ⟨hsame', hdecode', prompted, prefills, hreq', hall', hdone⟩ := scanPiggyback_selects
      m b (scan.scheduler.chunkedPrefillSize.getD usizeMax) scan.scheduler.waitingQueue
      scan.scheduler scan.requests scan.requests.length rfl hsame
    rw [exit_scanPiggyback] at hdone
    obtain ⟨kept, hkept, hall''⟩ := hdone
    refine ⟨decoded, prompted, ⟨hqueue.trans (by rw [hdecode']), ⟨kept, ?_, hall''⟩,
      ⟨decodes, prefills, ?_, hall, hall'⟩, hsame'⟩⟩
    · rw [← hwaiting, hkept]
    · rw [requests_mixedBatch, hreq', hreq, List.nil_append]

end Scheduler

/-- **A batch is formed of the fronts of the queues.** -/
theorem Former.selects [WorkerExecutor W] {former : Former} {s s' : Scheduler W}
    {batch : ScheduleBatch} (h : former.form s = (s', .ok batch)) :
    ∃ decoded prompted, s.Selects s' decoded prompted batch.requests := by
  cases former with
  | prefill m u => exact ⟨[], Scheduler.nextPrefillBatch_selects h⟩
  | decode m =>
    obtain ⟨decoded, hsel⟩ := Scheduler.nextDecodeBatchWith_selects h
    exact ⟨decoded, [], hsel⟩
  | decodeWhenReady m isReady =>
    obtain ⟨decoded, hsel⟩ := Scheduler.nextDecodeBatchWith_selects h
    exact ⟨decoded, [], hsel⟩
  | mixed m b => exact Scheduler.nextMixedBatch_selects h

end SglangRs
