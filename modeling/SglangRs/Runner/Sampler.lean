import SglangRs.Kernel.Cpu
import SglangRs.Model.MoeRouting
import SglangRs.Runner.ModelRunner

/-!
# The sampler of the model runner

The sampler picks a token for each request from its row of logits (`model_executor.rs`, lines
446–650). The tokens so far are penalized. A greedy request gets the last token with the largest
logit. For the others the tokens are weighted by the exponentials of their scaled logits and ranked
by weight; those beyond `top_k`, `top_p` or `min_p` are left out, and a random number decides
between the others.

## Main definitions

* `SamplingConfig`: the sampling parameters that the sampler reads.
* `argmaxToken`, `SamplingConfig.candidates`: what there is to pick from.
* `LogitSampler`: the sampler.
* `SamplingConfig.MaySample`: a token that may be picked.

## Main results

* `SamplingConfig.MaySample.eq_of_isGreedy`: a greedy request has one token to pick.
* `sampled_token_passes_filters`: what a token is that was picked.
* `LogitSampler.picks`: the sampler picks tokens that may be picked.
-/

namespace SglangRs

open TopK

/-- The sampling parameters that the sampler reads. -/
structure SamplingConfig (F : Type) where
  temperature : Option F
  topP : Option F
  topK : Option ℤ
  minP : Option F
  frequencyPenalty : Option F
  presencePenalty : Option F
  repetitionPenalty : Option F

/-- A source of random numbers. -/
class SamplingRandomSource (R : Type) (F : outParam Type) where
  nextUnit : R → R × F

/-- The sampler. `samplingOf` tells the sampling parameters of a request. -/
structure LogitSampler (F R : Type) where
  random : R
  samplingOf : ScheduledRequest → SamplingConfig F

section Definitions

variable {F : Type} [KernelFloat F]

open FloatOps KernelFloat

/-- The comparison `==` of IEEE 754. -/
def floatEq (a b : F) : Bool := le a b && le b a

/-- The loop over the tokens so far, for one logit. -/
def SamplingConfig.penalize (config : SamplingConfig F) (count : ℕ) (logit : F) : F :=
  let repetitionPenalty := config.repetitionPenalty.getD one
  let logit :=
    if !floatEq repetitionPenalty one then
      if lt logit zero then mul logit repetitionPenalty else div logit repetitionPenalty
    else logit
  let logit := sub logit (config.presencePenalty.getD zero)
  sub logit (mul (config.frequencyPenalty.getD zero) (ofNat count))

/-- The logits after the penalties on the tokens so far. A token beyond the vocabulary has no logit.

Source: `model_executor.rs`, lines 611–643. -/
def applyTokenPenalties (config : SamplingConfig F) (tokens : List UInt32) (logits : List F) :
    Option (List F) :=
  if floatEq (config.frequencyPenalty.getD zero) zero &&
      floatEq (config.presencePenalty.getD zero) zero &&
      floatEq (config.repetitionPenalty.getD one) one then none
  else
    some (logits.mapIdx fun tokenId logit =>
      let count := tokens.countP fun token => token.toNat = tokenId
      if count = 0 then logit else config.penalize count logit)

variable [LinearOrder F]

/-- The entry with the largest value, the last of them if there are several. -/
def lastMax : List (ℕ × F) → Option (ℕ × F)
  | [] => none
  | entry :: entries =>
      some (entries.foldl (fun best entry => if entry.2 < best.2 then best else entry) entry)

/-- Source: `model_executor.rs`, lines 645–652. -/
def argmaxToken (logits : List F) : Except ModelForwardError UInt32 :=
  okOr .emptyVocabulary ((lastMax (enumerate logits)).map fun entry => UInt32.ofNat entry.1)

/-- What there is to pick from: one token, or tokens with weights and the sum of the weights. -/
inductive Candidates (F : Type) where
  | token (tokenId : UInt32)
  | weighted (filtered : List (ℕ × F)) (totalProbability : F)

namespace SamplingConfig

variable (config : SamplingConfig F)

/-- Whether the sampler takes the largest logit. -/
def isGreedy : Bool :=
  (config.temperature.isNone && config.topP.isNone && config.topK.isNone && config.minP.isNone) ||
    (le (config.temperature.getD one) (ofBits 0x34000000) || config.topK == some 1)

/-- The weights of the tokens, by the scaled logits. -/
def weights (maxScaledLogit : F) (logits : List F) : List F :=
  let temperature := config.temperature.getD one
  logits.map fun logit => exp (sub (div logit temperature) maxScaledLogit)

/-- The ranked candidates up to `top_k`. -/
def truncate (candidates : List (ℕ × F)) : List (ℕ × F) :=
  match config.topK with
  | none => candidates
  | some topK =>
      if 0 < topK ∧ topK.toNat < candidates.length then candidates.take topK.toNat else candidates

/-- The loop that drops what is beyond `top_p` or `min_p`. -/
def filterCandidates (topP minProbability candidateProbability : F) :
    F → List (ℕ × F) → List (ℕ × F)
  | _, [] => []
  | cumulative, (tokenId, probability) :: candidates =>
      let filtered := filterCandidates topP minProbability candidateProbability
        (add cumulative (div probability candidateProbability)) candidates
      if lt cumulative topP && le minProbability probability then (tokenId, probability) :: filtered
      else filtered

/-- What is left of the candidates for a row of logits.

Source: `model_executor.rs`, lines 508–583. -/
def candidates (requestIndex : ℕ) (logits : List F) : Except ModelForwardError (Candidates F) :=
  if config.isGreedy then (argmaxToken logits).map .token
  else do
    let temperature := config.temperature.getD one
    let maxScaledLogit ← okOr .emptyVocabulary (logits.map fun logit => div logit temperature).max?
    let candidates := enumerate (config.weights maxScaledLogit logits)
    if candidates.any fun entry => !isFinite entry.2 || lt entry.2 zero then
      .error (.invalidProbabilityDistribution requestIndex)
    else do
      let candidates :=
        config.truncate (sortBy (fun left right => compare right.2 left.2) candidates)
      let maxProbability ← okOr .emptyVocabulary (candidates.head?.map Prod.snd)
      let minProbability := mul maxProbability (config.minP.getD zero)
      let candidateProbability := sum (candidates.map Prod.snd)
      if !isFinite candidateProbability || le candidateProbability zero then
        .error (.invalidProbabilityDistribution requestIndex)
      else
        let filtered := filterCandidates (config.topP.getD one) minProbability candidateProbability
          zero candidates
        let totalProbability := sum (filtered.map Prod.snd)
        if !isFinite totalProbability || le totalProbability zero then
          .error (.invalidProbabilityDistribution requestIndex)
        else .ok (.weighted filtered totalProbability)

end SamplingConfig

/-- The loop that picks the first token whose cumulative weight is beyond the target. -/
def pickAt (target : F) : F → List (ℕ × F) → Option ℕ
  | _, [] => none
  | cumulative, (tokenId, probability) :: filtered =>
      let cumulative := add cumulative probability
      if lt target cumulative then some tokenId else pickAt target cumulative filtered

/-- A random number is put between 0 and the largest number below 1.

Source: `model_executor.rs`, lines 601–608. -/
def boundedUnit (random : F) : F :=
  if isFinite random then
    let random := if lt random zero then zero else random
    if lt (ofBits 0x3f7fffff) random then ofBits 0x3f7fffff else random
  else zero

variable {R : Type} [SamplingRandomSource R F]

/-- Source: `model_executor.rs`, lines 502–599. -/
def sampleRow (random : R) (config : SamplingConfig F) (tokens : List UInt32) (requestIndex : ℕ)
    (logits : List F) : R × Except ModelForwardError UInt32 :=
  match config.candidates requestIndex ((applyTokenPenalties config tokens logits).getD logits) with
  | .error error => (random, .error error)
  | .ok (.token tokenId) => (random, .ok tokenId)
  | .ok (.weighted filtered totalProbability) =>
      let (random, unit) := SamplingRandomSource.nextUnit random
      let target := mul (boundedUnit unit) totalProbability
      (random, okOr (.invalidProbabilityDistribution requestIndex)
        (((pickAt target zero filtered).orElse fun _ => filtered.getLast?.map Prod.fst).map
          UInt32.ofNat))

/-- The loop over the rows, from the number `requestIndex` on. -/
def sampleRows (samplingOf : ScheduledRequest → SamplingConfig F) :
    ℕ → List (List F × ScheduledRequest) → R → R × Except ModelForwardError (List UInt32)
  | _, [], random => (random, .ok [])
  | requestIndex, (logits, request) :: rows, random =>
      match sampleRow random (samplingOf request) (request.inputIds ++ request.outputIds)
        requestIndex logits with
      | (random, .error error) => (random, .error error)
      | (random, .ok tokenId) =>
          match sampleRows samplingOf (requestIndex + 1) rows random with
          | (random, .error error) => (random, .error error)
          | (random, .ok tokenIds) => (random, .ok (tokenId :: tokenIds))

/-- Source: `model_executor.rs`, lines 479–500. -/
instance LogitSampler.logitSamplerLike : LogitSamplerLike (LogitSampler F R) F where
  sample sampler output batch :=
    if output.logits.length ≠ batch.requests.length then
      (sampler, .error (.batchSizeMismatch batch.requests.length output.logits.length))
    else
      let (random, tokenIds) :=
        sampleRows sampler.samplingOf 0 (output.logits.zip batch.requests) sampler.random
      ({ sampler with random }, tokenIds)

end Definitions

/-! ### What may be picked -/

section Picks

variable {F : Type} [KernelFloat F] [LinearOrder F]

open FloatOps KernelFloat

/-- A token may be picked. -/
def Candidates.Has : Candidates F → UInt32 → Prop
  | .token tokenId, t => t = tokenId
  | .weighted filtered _, t => ∃ entry ∈ filtered, t = UInt32.ofNat entry.1

namespace SamplingConfig

/-- A token that the sampler may pick for a row of logits, given the tokens so far. -/
def MaySample (config : SamplingConfig F) (tokens : List UInt32) (logits : List F) (t : UInt32) :
    Prop :=
  ∃ requestIndex candidates, config.candidates requestIndex
    ((applyTokenPenalties config tokens logits).getD logits) = .ok candidates ∧ candidates.Has t

/-- The number of candidates that `top_k` leaves of `n`. -/
def limit (config : SamplingConfig F) (n : ℕ) : ℕ :=
  match config.topK with
  | none => n
  | some topK => if 0 < topK then topK.toNat else n

/-- The token `i` passes the filters: it is among the best `top_k` tokens, those before it have less
than `top_p` of the weight of them all, and its weight is at least `min_p` of the largest. -/
def Passes (config : SamplingConfig F) (logits : List F) (i : ℕ) : Prop :=
  ∃ (maxScaledLogit weight : F) (best before after : List (ℕ × F)),
    (logits.map fun logit => div logit (config.temperature.getD one)).max? = some maxScaledLogit ∧
    IsTopK (fun left right : ℕ × F => right.2 ≤ left.2) (config.limit logits.length)
      (enumerate (config.weights maxScaledLogit logits)) best ∧
    best = before ++ (i, weight) :: after ∧
    lt (before.foldl (fun cumulative entry =>
      add cumulative (div entry.2 (sum (best.map Prod.snd)))) zero) (config.topP.getD one) = true ∧
    ∀ first ∈ best.head?, le (mul first.2 (config.minP.getD zero)) weight = true

end SamplingConfig

/-! ### The largest logit -/

omit [KernelFloat F] in
/-- The entry that the scan finds: none before it is larger, and those after it are smaller. -/
theorem exists_split_of_foldl (entries : List (ℕ × F)) (best last : ℕ × F)
    (hlast : entries.foldl (fun best entry => if entry.2 < best.2 then best else entry) best =
      last) : ∃ before after, best :: entries = before ++ last :: after ∧
        (∀ entry ∈ before, entry.2 ≤ last.2) ∧ ∀ entry ∈ after, entry.2 < last.2 := by
  induction entries generalizing best with
  | nil => exact ⟨[], [], by rw [← hlast]; rfl, nofun, nofun⟩
  | cons entry entries ih =>
      rw [List.foldl_cons] at hlast
      split_ifs at hlast with hlt
      · obtain ⟨before, after, heq, hbefore, hafter⟩ := ih best hlast
        cases before with
        | nil =>
            obtain ⟨rfl, rfl⟩ := List.cons_eq_cons.mp heq
            exact ⟨[], entry :: entries, rfl, nofun, List.forall_mem_cons.mpr ⟨hlt, hafter⟩⟩
        | cons first before =>
            obtain ⟨rfl, rfl⟩ := List.cons_eq_cons.mp heq
            obtain ⟨hfirst, hbefore⟩ := List.forall_mem_cons.mp hbefore
            refine ⟨best :: entry :: before, after, rfl, ?_, hafter⟩
            exact List.forall_mem_cons.mpr
              ⟨hfirst, List.forall_mem_cons.mpr ⟨hlt.le.trans hfirst, hbefore⟩⟩
      · obtain ⟨before, after, heq, hbefore, hafter⟩ := ih entry hlast
        refine ⟨best :: before, after, congrArg _ heq, ?_, hafter⟩
        refine List.forall_mem_cons.mpr ⟨(not_lt.mp hlt).trans ?_, hbefore⟩
        obtain hentry | hentry := List.mem_append.mp (heq ▸ List.mem_cons_self : entry ∈ _)
        · exact hbefore entry hentry
        · obtain hentry | hentry := List.mem_cons.mp hentry
          · exact le_of_eq (congrArg Prod.snd hentry)
          · exact (hafter entry hentry).le

omit [KernelFloat F] [LinearOrder F] in
theorem getElem?_enumerate (values : List F) (i : ℕ) :
    (enumerate values)[i]? = values[i]?.map (i, ·) := by
  rw [enumerate, List.getElem?_map, List.getElem?_zipIdx, Option.map_map]
  cases values[i]? with
  | none => rfl
  | some value => simp

omit [KernelFloat F] in
/-- **The last token with the largest logit.** -/
theorem argmaxToken_eq_ok {logits : List F} {t : UInt32} (h : argmaxToken logits = .ok t) :
    ∃ i logit, logits[i]? = some logit ∧ t = UInt32.ofNat i ∧
      ∀ j other, logits[j]? = some other → other ≤ logit ∧ (i < j → other < logit) := by
  unfold argmaxToken lastMax at h
  cases hentries : enumerate logits with
  | nil =>
      rw [hentries] at h
      cases h
  | cons entry entries =>
      rw [hentries] at h
      obtain rfl := Except.ok.inj h
      obtain ⟨last, hfold⟩ : ∃ last, entries.foldl
        (fun best entry => if entry.2 < best.2 then best else entry) entry = last := ⟨_, rfl⟩
      obtain ⟨before, after, heq, hbefore, hafter⟩ := exists_split_of_foldl entries entry last hfold
      rw [← hentries] at heq
      have hlast : (enumerate logits)[before.length]? = some last := by
        rw [heq, List.getElem?_append_right le_rfl, Nat.sub_self, List.getElem?_cons_zero]
      rw [getElem?_enumerate] at hlast
      obtain ⟨logit, hlogit, hpair⟩ := Option.map_eq_some_iff.mp hlast
      refine ⟨before.length, logit, hlogit, by rw [hfold, ← hpair], fun j other hother => ?_⟩
      have hj : (enumerate logits)[j]? = some (j, other) := by
        rw [getElem?_enumerate, hother, Option.map_some]
      rw [heq] at hj
      rw [← hpair] at hbefore hafter hj
      obtain hlt | rfl | hlt := lt_trichotomy j before.length
      · rw [List.getElem?_append_left hlt] at hj
        exact ⟨hbefore _ (List.mem_of_getElem? hj), fun hgt => absurd hgt hlt.not_gt⟩
      · obtain rfl := Option.some.inj (hlogit.symm.trans hother)
        exact ⟨le_rfl, fun hgt => absurd hgt (lt_irrefl _)⟩
      · rw [List.getElem?_append_right hlt.le] at hj
        obtain ⟨d, hd⟩ := Nat.exists_eq_add_of_lt hlt
        rw [hd, show before.length + d + 1 - before.length = d + 1 by omega,
          List.getElem?_cons_succ] at hj
        have hsmaller := hafter _ (List.mem_of_getElem? hj)
        exact ⟨hsmaller.le, fun _ => hsmaller⟩

/-! ### The filters -/

omit [LinearOrder F] in
/-- A candidate that the filters keep. -/
theorem exists_split_of_mem_filterCandidates {topP minProbability candidateProbability : F}
    {candidates : List (ℕ × F)} {cumulative : F} {entry : ℕ × F}
    (h : entry ∈ SamplingConfig.filterCandidates topP minProbability candidateProbability cumulative
      candidates) :
    ∃ before after, candidates = before ++ entry :: after ∧
      lt (before.foldl (fun cumulative entry =>
        add cumulative (div entry.2 candidateProbability)) cumulative) topP = true ∧
      le minProbability entry.2 = true := by
  induction candidates generalizing cumulative with
  | nil => cases h
  | cons first candidates ih =>
      obtain ⟨tokenId, probability⟩ := first
      have hlater (h : entry ∈ SamplingConfig.filterCandidates topP minProbability
          candidateProbability (add cumulative (div probability candidateProbability))
          candidates) :
          ∃ before after, (tokenId, probability) :: candidates = before ++ entry :: after ∧
            lt (before.foldl (fun cumulative entry =>
              add cumulative (div entry.2 candidateProbability)) cumulative) topP = true ∧
            le minProbability entry.2 = true := by
        obtain ⟨before, after, rfl, hlt, hle⟩ := ih h
        exact ⟨(tokenId, probability) :: before, after, rfl, hlt, hle⟩
      unfold SamplingConfig.filterCandidates at h
      dsimp only at h
      split_ifs at h with hkeep
      · obtain rfl | h := List.mem_cons.mp h
        · obtain ⟨hlt, hle⟩ := Bool.and_eq_true_iff.mp hkeep
          exact ⟨[], candidates, rfl, hlt, hle⟩
        · exact hlater h
      · exact hlater h

omit [KernelFloat F] [LinearOrder F] in
theorem length_enumerate (values : List F) : (enumerate values).length = values.length := by
  rw [enumerate, List.length_map, List.length_zipIdx]

namespace SamplingConfig

variable {config : SamplingConfig F} {tokens : List UInt32} {logits : List F}

omit [LinearOrder F] [KernelFloat F] in
theorem truncate_eq_take (candidates : List (ℕ × F)) :
    config.truncate candidates = candidates.take (config.limit candidates.length) := by
  unfold truncate limit
  cases config.topK with
  | none => exact List.take_length.symm
  | some topK =>
      dsimp only
      by_cases hpos : 0 < topK
      · rw [if_pos hpos]
        by_cases hlt : topK.toNat < candidates.length
        · rw [if_pos ⟨hpos, hlt⟩]
        · rw [if_neg fun h => hlt h.2, List.take_of_length_le (not_lt.mp hlt)]
      · rw [if_neg hpos, if_neg fun h => hpos h.1, List.take_length]

/-- What there is to pick from for a greedy request, and for any other. -/
theorem candidates_cases {requestIndex : ℕ} {candidates : Candidates F}
    (h : config.candidates requestIndex logits = .ok candidates) :
    (config.isGreedy = true ∧ ∃ t, argmaxToken logits = .ok t ∧ candidates = .token t) ∨
      (config.isGreedy = false ∧ ∃ filtered total, candidates = .weighted filtered total ∧
        ∀ entry ∈ filtered, config.Passes logits entry.1) := by
  unfold SamplingConfig.candidates at h
  by_cases hgreedy : config.isGreedy = true
  · rw [if_pos hgreedy] at h
    cases harg : argmaxToken logits with
    | error error => exact nomatch harg ▸ h
    | ok t =>
        rw [harg] at h
        exact .inl ⟨hgreedy, t, rfl, (Except.ok.inj h).symm⟩
  · rw [if_neg hgreedy] at h
    obtain ⟨maxScaledLogit, hmax, h⟩ := Except.bind_eq_ok.mp h
    obtain ⟨-, h⟩ := ite_error_eq_ok.mp h
    obtain ⟨maxProbability, hfirst, h⟩ := Except.bind_eq_ok.mp h
    obtain ⟨-, h⟩ := ite_error_eq_ok.mp h
    obtain ⟨-, h⟩ := ite_error_eq_ok.mp h
    refine .inr ⟨eq_false_of_ne_true hgreedy, _, _, (Except.ok.inj h).symm, fun entry hentry => ?_⟩
    obtain ⟨before, after, hbest, hlt, hle⟩ := exists_split_of_mem_filterCandidates hentry
    refine ⟨maxScaledLogit, entry.2, _, before, after, okOr_eq_ok.mp hmax, ?_, hbest, hlt, ?_⟩
    · have hlength : (sortBy (fun left right : ℕ × F => compare right.2 left.2)
          (enumerate (config.weights maxScaledLogit logits))).length = logits.length := by
        rw [sortBy, List.length_mergeSort, length_enumerate, weights, List.length_map]
      rw [truncate_eq_take, hlength]
      refine isTopK_sortBy _ (fun left right => ?_) (fun a b c hab hbc => hbc.trans hab)
        (fun a b => le_total b.2 a.2) _ _
      rw [Ordering.isLE_iff_ne_gt]
      exact compare_le_iff_le
    · intro first hmem
      rw [Option.mem_def.mp hmem, Option.map_some] at hfirst
      obtain rfl := Except.ok.inj hfirst
      exact hle

theorem Passes.lt {i : ℕ} (h : config.Passes logits i) : i < logits.length := by
  obtain ⟨maxScaledLogit, weight, best, before, after, -, htop, rfl, -⟩ := h
  have hmem := htop.subset (List.mem_append_right before (List.mem_cons_self (l := after)))
  obtain ⟨j, hj⟩ := List.mem_iff_getElem?.mp hmem
  rw [getElem?_enumerate] at hj
  obtain ⟨value, hvalue, hpair⟩ := Option.map_eq_some_iff.mp hj
  obtain rfl : j = i := congrArg Prod.fst hpair
  have hlt := (List.getElem?_eq_some_iff.mp hvalue).1
  rwa [weights, List.length_map] at hlt

/-- **A greedy request has one token to pick.** -/
theorem MaySample.eq_of_isGreedy {t t' : UInt32} (hgreedy : config.isGreedy = true)
    (h : config.MaySample tokens logits t) (h' : config.MaySample tokens logits t') : t = t' := by
  obtain ⟨k, candidates, heq, hhas⟩ := h
  obtain ⟨k', candidates', heq', hhas'⟩ := h'
  obtain ⟨-, x, hx, rfl⟩ | ⟨hnot, -⟩ := candidates_cases heq
  · obtain ⟨-, x', hx', rfl⟩ | ⟨hnot, -⟩ := candidates_cases heq'
    · obtain rfl := Except.ok.inj (hx.symm.trans hx')
      exact Eq.trans hhas hhas'.symm
    · exact nomatch hgreedy.symm.trans hnot
  · exact nomatch hgreedy.symm.trans hnot

end SamplingConfig

/-! ### The tokens that are picked -/

omit [LinearOrder F] in
theorem mem_of_pickAt {target cumulative : F} {filtered : List (ℕ × F)} {i : ℕ}
    (h : pickAt target cumulative filtered = some i) : ∃ entry ∈ filtered, entry.1 = i := by
  induction filtered generalizing cumulative with
  | nil => cases h
  | cons first filtered ih =>
      unfold pickAt at h
      dsimp only at h
      split_ifs at h
      · exact ⟨first, List.mem_cons_self, Option.some.inj h⟩
      · obtain ⟨entry, hentry, rfl⟩ := ih h
        exact ⟨entry, List.mem_cons_of_mem _ hentry, rfl⟩

variable {R : Type} [SamplingRandomSource R F]

/-- **A token that is picked may be picked.** -/
theorem maySample_of_sampleRow {random : R} {config : SamplingConfig F} {tokens : List UInt32}
    {requestIndex : ℕ} {logits : List F} {t : UInt32}
    (h : (sampleRow random config tokens requestIndex logits).2 = .ok t) :
    config.MaySample tokens logits t := by
  unfold sampleRow at h
  cases hcandidates : config.candidates requestIndex
    ((applyTokenPenalties config tokens logits).getD logits) with
  | error error => exact nomatch hcandidates ▸ h
  | ok candidates =>
      refine ⟨requestIndex, candidates, hcandidates, ?_⟩
      rw [hcandidates] at h
      cases candidates with
      | token tokenId => exact (Except.ok.inj h).symm
      | weighted filtered totalProbability =>
          obtain ⟨i, hi, rfl⟩ := Option.map_eq_some_iff.mp (okOr_eq_ok.mp h)
          rcases hpick : pickAt (mul (boundedUnit (SamplingRandomSource.nextUnit random).2)
            totalProbability) zero filtered with - | j
          all_goals rw [hpick] at hi
          · obtain ⟨entry, hentry, rfl⟩ := Option.map_eq_some_iff.mp hi
            exact ⟨entry, List.mem_of_getLast? hentry, rfl⟩
          · obtain rfl := Option.some.inj hi
            obtain ⟨entry, hentry, rfl⟩ := mem_of_pickAt hpick
            exact ⟨entry, hentry, rfl⟩

/-- The rows are sampled one after the other. -/
theorem sampleRows_eq_ok {samplingOf : ScheduledRequest → SamplingConfig F}
    {rows : List (List F × ScheduledRequest)} {requestIndex : ℕ} {random : R}
    {tokenIds : List UInt32}
    (h : (sampleRows samplingOf requestIndex rows random).2 = .ok tokenIds) :
    List.Forall₂ (fun row t => (samplingOf row.2).MaySample (row.2.inputIds ++ row.2.outputIds)
      row.1 t) rows tokenIds := by
  induction rows generalizing requestIndex random tokenIds with
  | nil =>
      obtain rfl := Except.ok.inj h
      exact .nil
  | cons row rows ih =>
      obtain ⟨logits, request⟩ := row
      unfold sampleRows at h
      rcases hrow : sampleRow random (samplingOf request) (request.inputIds ++ request.outputIds)
        requestIndex logits with ⟨random', error | tokenId⟩
      all_goals rw [hrow] at h
      · cases h
      · dsimp only at h
        rcases hrows : sampleRows samplingOf (requestIndex + 1) rows random' with
          ⟨random'', error | rest⟩
        all_goals rw [hrows] at h
        · cases h
        · obtain rfl := Except.ok.inj h
          exact .cons (maySample_of_sampleRow (congrArg Prod.snd hrow))
            (ih (congrArg Prod.snd hrows))

/-- **The sampler picks tokens that may be picked**, if the sampling parameters of a request are
those of its id. -/
theorem LogitSampler.picks (configOf : RequestId → SamplingConfig F) :
    LogitSamplerLike.Picks (S := LogitSampler F R)
      (fun sampler => ∀ r : ScheduledRequest, sampler.samplingOf r = configOf r.requestId)
      fun id tokens logits t => (configOf id).MaySample tokens logits t := by
  refine ⟨fun sampler output batch hsampler => ?_,
    fun sampler output batch tokenIds hsampler h i r logits tokenId hr hlogits ht => ?_⟩
  · dsimp only [LogitSamplerLike.sample]
    split_ifs <;> exact hsampler
  · dsimp only [LogitSamplerLike.sample] at h
    split_ifs at h with hlength
    have hrows := sampleRows_eq_ok h
    obtain ⟨hi, rfl⟩ := List.getElem?_eq_some_iff.mp ht
    have hrow : (output.logits.zip batch.requests)[i]? = some (logits, r) :=
      List.getElem?_zip_eq_some.mpr ⟨hlogits, hr⟩
    obtain ⟨hi', hrow⟩ := List.getElem?_eq_some_iff.mp hrow
    have hmay := hrows.get hi' hi
    rw [List.get_eq_getElem, hrow, hsampler] at hmay
    exact hmay

end Picks

section Sampled

variable {F R : Type} [KernelFloat F] [LinearOrder F] [SamplingRandomSource R F]

/-- **A sampled token passes the filters.** A greedy request gets the last token with the largest
penalized logit. Any other token that is picked is among the best `top_k`, those before it have less
than `top_p` of the weight, and its weight is at least `min_p` of the largest. -/
theorem sampled_token_passes_filters (random : R) (config : SamplingConfig F)
    (tokens : List UInt32) (requestIndex : ℕ) (logits : List F) {t : UInt32}
    (h : (sampleRow random config tokens requestIndex logits).2 = .ok t) :
    let penalized := (applyTokenPenalties config tokens logits).getD logits
    (config.isGreedy = true → ∃ i logit, penalized[i]? = some logit ∧ t = UInt32.ofNat i ∧
      ∀ j other, penalized[j]? = some other → other ≤ logit ∧ (i < j → other < logit)) ∧
    (config.isGreedy = false → ∃ i < penalized.length, t = UInt32.ofNat i ∧
      config.Passes penalized i) := by
  obtain ⟨k, candidates, hcandidates, hhas⟩ := maySample_of_sampleRow h
  dsimp only
  obtain ⟨hgreedy, t', hargmax, rfl⟩ | ⟨hgreedy, filtered, total, rfl, hpasses⟩ :=
    SamplingConfig.candidates_cases hcandidates
  · obtain rfl : t = t' := hhas
    exact ⟨fun _ => argmaxToken_eq_ok hargmax, fun hnot => nomatch hgreedy.symm.trans hnot⟩
  · obtain ⟨entry, hentry, rfl⟩ := hhas
    refine ⟨fun hnot => (nomatch hgreedy.symm.trans hnot), fun _ => ?_⟩
    exact ⟨entry.1, (hpasses entry hentry).lt, rfl, hpasses entry hentry⟩

end Sampled

/-- A source that always has the number zero. -/
instance zeroSource : SamplingRandomSource Unit OctalFloat where
  nextUnit random := (random, 0)

/-- Eighths modulo 64 in place of floats. The exponential is rounded for numbers from -2 to 0. -/
def EighthFloat : Type := Fin 64
deriving DecidableEq, LinearOrder

instance eighthOfNat (n : ℕ) : OfNat EighthFloat n := ⟨Fin.ofNat 64 n⟩

instance eighthFloat : KernelFloat EighthFloat :=
  modularFloat 64 8 (by decide) fun a => if a = 0 then 8 else if a = 56 then 3 else if a = 48 then 1
    else 0

/-- A source that has one half and zero in turn. -/
instance halfSource : SamplingRandomSource Bool EighthFloat where
  nextUnit random := (!random, if random then 4 else 0)

/-- The best three candidates, half of the weight, and half of the largest weight. -/
def sampleFilters : SamplingConfig EighthFloat := ⟨none, some 4, some 3, some 4, none, some 8, none⟩

theorem candidates_sampleFilters :
    sampleFilters.candidates 0 ([24, 24, 16, 8] : List EighthFloat) =
      .ok (.weighted [(0, 8), (1, 8)] 16) := by
  have hsorted : sortBy (fun left right : ℕ × EighthFloat => compare right.2 left.2)
      (enumerate (sampleFilters.weights 24 [24, 24, 16, 8])) =
        [(0, 8), (1, 8), (2, 3), (3, 1)] :=
    sortBy_of_pairwise (by decide)
  rw [SamplingConfig.candidates, if_neg (by decide)]
  refine Except.bind_eq_ok.mpr ⟨24, rfl, ?_⟩
  rw [if_neg (by decide)]
  dsimp only
  rw [hsorted]
  rfl

/-- The theorem applied to a greedy request, and to one with a penalty for a token seen before and
with all filters: `top_k` leaves three of the tokens, `top_p` and `min_p` the first two of them. -/
theorem sampled_token_passes_filters_of_half :
    (∃ i logit, ([1, 3, 3, 2] : List OctalFloat)[i]? = some logit ∧ (2 : UInt32) = UInt32.ofNat i ∧
      ∀ j other, ([1, 3, 3, 2] : List OctalFloat)[j]? = some other →
        other ≤ logit ∧ (i < j → other < logit)) ∧
    ∃ i < 4, (1 : UInt32) = UInt32.ofNat i ∧
      sampleFilters.Passes ([24, 24, 16, 8] : List EighthFloat) i := by
  have hok : (sampleRow true sampleFilters [2] 0 ([24, 24, 24, 8] : List EighthFloat)).2 =
      .ok 1 := by
    have hpenalized : (applyTokenPenalties sampleFilters [2] [24, 24, 24, 8]).getD [24, 24, 24, 8] =
        ([24, 24, 16, 8] : List EighthFloat) := by decide
    rw [sampleRow, hpenalized, candidates_sampleFilters]
    rfl
  refine ⟨(sampled_token_passes_filters () ⟨none, none, none, none, none, none, none⟩ [] 0
    ([1, 3, 3, 2] : List OctalFloat) rfl).1 rfl, ?_⟩
  exact (sampled_token_passes_filters true sampleFilters [2] 0 [24, 24, 24, 8] hok).2 rfl

end SglangRs
