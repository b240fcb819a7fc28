import Mathlib.Data.Finset.Card
import Mathlib.Data.UInt
import SglangRs.Transition.Run

/-!
# The circuit breaker

The breaker of a worker (`health/circuit_breaker.rs`) admits requests while it is closed. After
`threshold` failures in a row it opens and refuses requests until `cool_down` has passed; then it is
half-open and admits one request, the probe, whose outcome closes it or opens it again.

The breaker is shared by all requests to the worker. They call `allow` and report their outcomes in
any order, and an outcome does not say which request it belongs to. The state of the system
therefore carries what the breaker does not know: the requests that have not reported yet, those
admitted since the breaker left the closed state, and when it opened last.

## Main definitions

* `Router.CircuitBreaker`: the breaker and its operations.
* `Router.BreakerSystem`, `BreakerSystem.step`: the breaker with the requests that it admitted.
* `BreakerSystem.SingleProbe`, `BreakerSystem.CoolsDown`: what the breaker is for.

## Main results

* `BreakerSystem.single_probe`: the breaker admits one probe at a time in runs in which only the
  probe reports a failure while the breaker is half-open, and it always cools down.
* `BreakerSystem.exists_second_probe`: any other failure makes room for a second probe.
-/

namespace SglangRs.Router

/-- The configuration of a breaker. The times are in any unit. -/
structure CircuitBreakerConfig where
  threshold : UInt32
  coolDown : ℕ
  threshold_ne_zero : threshold ≠ 0

/-- The state of a breaker. -/
inductive BreakerState where
  | closed
  | open (openedAt : ℕ)
  | halfOpen (probeInFlight : Bool)
deriving DecidableEq, Repr

structure CircuitBreaker where
  state : BreakerState
  consecutiveFailures : UInt32
  config : CircuitBreakerConfig

namespace CircuitBreaker

/-- Source: `circuit_breaker.rs`, `with_config`. -/
def withConfig (config : CircuitBreakerConfig) : CircuitBreaker := ⟨.closed, 0, config⟩

variable (b : CircuitBreaker) (now : ℕ)

/-- Source: `circuit_breaker.rs`, lines 82–89. -/
def wouldAllow : Bool :=
  match b.state with
  | .closed => true
  | .open openedAt => b.config.coolDown ≤ now - openedAt
  | .halfOpen probeInFlight => !probeInFlight

/-- Source: `circuit_breaker.rs`, lines 93–118. -/
def allow : Bool × CircuitBreaker :=
  match b.state with
  | .closed => (true, b)
  | .open openedAt =>
      if b.config.coolDown ≤ now - openedAt then (true, { b with state := .halfOpen true })
      else (false, b)
  | .halfOpen probeInFlight =>
      if probeInFlight then (false, b) else (true, { b with state := .halfOpen true })

/-- Source: `circuit_breaker.rs`, lines 120–124. -/
def recordSuccess : CircuitBreaker := { b with consecutiveFailures := 0, state := .closed }

/-- Failures that are reported while the breaker is open are ignored.

Source: `circuit_breaker.rs`, lines 126–143. -/
def recordFailure : CircuitBreaker :=
  match b.state with
  | .closed | .halfOpen _ =>
      if b.config.threshold ≤ b.consecutiveFailures + 1 then
        { b with consecutiveFailures := b.consecutiveFailures + 1, state := .open now }
      else { b with consecutiveFailures := b.consecutiveFailures + 1 }
  | .open _ => b

/-- What `allow` can do. -/
theorem allow_cases : (b.state = .closed ∧ b.allow now = (true, b)) ∨
    b.allow now = (false, b) ∨
    ((∃ openedAt, b.state = .open openedAt ∧ b.config.coolDown ≤ now - openedAt) ∨
      b.state = .halfOpen false) ∧ b.allow now = (true, { b with state := .halfOpen true }) := by
  cases h : b.state with
  | closed => exact .inl ⟨rfl, by simp [allow, h]⟩
  | «open» openedAt =>
      by_cases hcool : b.config.coolDown ≤ now - openedAt
      · exact .inr (.inr ⟨.inl ⟨openedAt, rfl, hcool⟩, by simp [allow, h, hcool]⟩)
      · exact .inr (.inl (by simp [allow, h, hcool]))
  | halfOpen probeInFlight =>
      cases probeInFlight with
      | true => exact .inr (.inl (by simp [allow, h]))
      | false => exact .inr (.inr ⟨.inr rfl, by simp [allow, h]⟩)

/-- What `record_failure` can do. -/
theorem recordFailure_cases :
    ((b.recordFailure now).state = .open now ∧ ∀ openedAt, b.state ≠ .open openedAt) ∨
    (b.recordFailure now).state = b.state := by
  cases h : b.state with
  | «open» openedAt => exact .inr (by simp [recordFailure, h])
  | closed =>
      by_cases hopen : b.config.threshold ≤ b.consecutiveFailures + 1
      · exact .inl ⟨by simp [recordFailure, h, hopen], by simp⟩
      · exact .inr (by simp [recordFailure, h, hopen])
  | halfOpen probeInFlight =>
      by_cases hopen : b.config.threshold ≤ b.consecutiveFailures + 1
      · exact .inl ⟨by simp [recordFailure, h, hopen], by simp⟩
      · exact .inr (by simp [recordFailure, h, hopen])

/-- A breaker that is not closed has seen `threshold` failures in a row. -/
def Tripped : Prop := b.state ≠ .closed → b.config.threshold ≤ b.consecutiveFailures

variable {b}

theorem tripped_withConfig (config : CircuitBreakerConfig) : (withConfig config).Tripped :=
  fun h => absurd rfl h

theorem Tripped.allow (h : b.Tripped) : (b.allow now).2.Tripped := by
  obtain ⟨-, heq⟩ | heq | ⟨hopen, heq⟩ := b.allow_cases now
  · rwa [heq]
  · rwa [heq]
  · rw [heq]
    exact fun _ => h (by obtain ⟨openedAt, hopen, -⟩ | hopen := hopen <;> simp [hopen])

theorem tripped_recordSuccess : b.recordSuccess.Tripped := fun h => absurd rfl h

/-- One more failure is one more, as long as the count does not overflow. -/
theorem Tripped.le_add_one (h : b.Tripped) (hstate : b.state ≠ .closed)
    (hcount : b.consecutiveFailures + 1 ≠ 0) :
    b.config.threshold ≤ b.consecutiveFailures + 1 := by
  have hle := UInt32.le_iff_toNat_le.1 (h hstate)
  have hcount : (b.consecutiveFailures.toNat + 1) % 2 ^ 32 ≠ 0 := fun hzero =>
    hcount (UInt32.toNat.inj (by rw [UInt32.toNat_add]; exact hzero))
  have hlt := b.consecutiveFailures.toNat_lt
  rw [UInt32.le_iff_toNat_le, UInt32.toNat_add]
  show _ ≤ (b.consecutiveFailures.toNat + 1) % 2 ^ 32
  omega

theorem Tripped.recordFailure (h : b.Tripped) (hcount : b.consecutiveFailures + 1 ≠ 0) :
    (b.recordFailure now).Tripped := by
  cases hstate : b.state with
  | «open» openedAt => rwa [CircuitBreaker.recordFailure, hstate]
  | closed =>
      simp only [CircuitBreaker.recordFailure, hstate]
      split_ifs with hopen
      · exact fun _ => hopen
      · exact fun hne => absurd rfl hne
  | halfOpen probeInFlight =>
      have hle := h.le_add_one (by simp [hstate]) hcount
      simp only [CircuitBreaker.recordFailure, hstate, if_pos hle]
      exact fun _ => hle

end CircuitBreaker

/-- The breaker with the requests that call it. The requests are numbered by their calls of `allow`.
-/
structure BreakerSystem where
  breaker : CircuitBreaker
  now : ℕ
  calls : ℕ
  /-- The requests that were admitted and have not reported yet. -/
  unresolved : Finset ℕ
  /-- The requests admitted after the breaker last left the closed state, and before it returned. -/
  probes : Finset ℕ
  /-- When the breaker last opened. -/
  lastOpened : Option ℕ

/-- A step of a request, or the passage of time. -/
inductive BreakerStep where
  | allow
  | recordSuccess (request : ℕ)
  | recordFailure (request : ℕ)
  | elapse (time : ℕ)
deriving DecidableEq, Repr

namespace BreakerSystem

def new (config : CircuitBreakerConfig) : BreakerSystem where
  breaker := .withConfig config
  now := 0
  calls := 0
  unresolved := ∅
  probes := ∅
  lastOpened := none

/-- The history after the breaker went from one state to another. -/
def follow (s : BreakerSystem) (breaker : CircuitBreaker) : BreakerSystem :=
  { s with
    breaker
    probes := if s.breaker.state = .closed ∧ breaker.state ≠ .closed then ∅ else s.probes
    lastOpened :=
      match s.breaker.state, breaker.state with
      | .open _, _ => s.lastOpened
      | _, .open _ => some s.now
      | _, _ => s.lastOpened }

/-- One step. Only requests that were admitted report, and once. -/
def step (s : BreakerSystem) : BreakerStep → BreakerSystem
  | .allow =>
      let s' := { s.follow (s.breaker.allow s.now).2 with calls := s.calls + 1 }
      if (s.breaker.allow s.now).1 then
        { s' with
          unresolved := insert s.calls s.unresolved
          probes := if s'.breaker.state = .closed then s'.probes else insert s.calls s'.probes }
      else s'
  | .recordSuccess request =>
      if request ∈ s.unresolved then
        { s.follow s.breaker.recordSuccess with unresolved := s.unresolved.erase request }
      else s
  | .recordFailure request =>
      if request ∈ s.unresolved then
        { s.follow (s.breaker.recordFailure s.now) with unresolved := s.unresolved.erase request }
      else s
  | .elapse time => { s with now := s.now + time }

/-- The system after a sequence of steps. -/
def run (s : BreakerSystem) (steps : List BreakerStep) : BreakerSystem := steps.foldl step s

/-- At most one of the requests admitted after the breaker last left the closed state is
unresolved. -/
def SingleProbe (s : BreakerSystem) : Prop := (s.unresolved ∩ s.probes).card ≤ 1

/-- No request is admitted while the breaker has been open for less than `coolDown` since it last
opened. -/
def CoolsDown (s : BreakerSystem) : Prop :=
  ∀ openedAt, s.breaker.state = .open openedAt → ∃ opened, s.lastOpened = some opened ∧
    (s.now < opened + s.breaker.config.coolDown → (s.breaker.allow s.now).1 = false)

/-- While the breaker is half-open, only a request admitted since it left the closed state reports a
failure. -/
def FromProbe (s : BreakerSystem) : BreakerStep → Prop
  | .recordFailure request =>
      request ∈ s.unresolved → (∃ probeInFlight, s.breaker.state = .halfOpen probeInFlight) →
        request ∈ s.probes
  | _ => True

variable {s : BreakerSystem}

/-! ### Cooling down -/

/-- It is known when an open breaker last opened. -/
def KnowsOpening (s : BreakerSystem) : Prop :=
  ∀ openedAt, s.breaker.state = .open openedAt → s.lastOpened = some openedAt ∧ openedAt ≤ s.now

theorem KnowsOpening.coolsDown (h : s.KnowsOpening) : s.CoolsDown := by
  intro openedAt hopen
  obtain ⟨hlast, hpast⟩ := h openedAt hopen
  refine ⟨openedAt, hlast, fun hcool => ?_⟩
  rw [CircuitBreaker.allow, hopen]
  exact congrArg Prod.fst (if_neg (by omega))

/-- A breaker that opens does so now. -/
theorem KnowsOpening.follow (h : s.KnowsOpening) {breaker : CircuitBreaker}
    (hopens : ∀ openedAt, breaker.state = .open openedAt →
      s.breaker.state = .open openedAt ∨
      (∀ openedAt', s.breaker.state ≠ .open openedAt') ∧ openedAt = s.now) :
    (s.follow breaker).KnowsOpening := by
  intro openedAt hopen
  obtain hstill | ⟨hnot, rfl⟩ := hopens openedAt hopen
  · simp only [BreakerSystem.follow, hstill]
    exact h openedAt hstill
  · have hstate : breaker.state = .open s.now := hopen
    refine ⟨?_, Nat.le_refl _⟩
    cases hold : s.breaker.state with
    | «open» openedAt' => exact absurd hold (hnot openedAt')
    | closed => simp only [BreakerSystem.follow, hold, hstate]
    | halfOpen probeInFlight => simp only [BreakerSystem.follow, hold, hstate]

theorem KnowsOpening.step (h : s.KnowsOpening) (a : BreakerStep) : (s.step a).KnowsOpening := by
  cases a with
  | allow =>
      have hfollow : (s.follow (s.breaker.allow s.now).2).KnowsOpening := by
        refine h.follow fun openedAt hopen => ?_
        obtain ⟨-, heq⟩ | heq | ⟨-, heq⟩ := s.breaker.allow_cases s.now
        · exact .inl (by rwa [heq] at hopen)
        · exact .inl (by rwa [heq] at hopen)
        · rw [heq] at hopen
          cases hopen
      rw [BreakerSystem.step]
      split_ifs <;> exact hfollow
  | recordSuccess request =>
      have hfollow : (s.follow s.breaker.recordSuccess).KnowsOpening :=
        h.follow fun openedAt hopen => by cases hopen
      rw [BreakerSystem.step]
      split_ifs
      · exact hfollow
      · exact h
  | recordFailure request =>
      have hfollow : (s.follow (s.breaker.recordFailure s.now)).KnowsOpening := by
        refine h.follow fun openedAt hopen => ?_
        obtain ⟨hnow, hnot⟩ | hsame := s.breaker.recordFailure_cases s.now
        · rw [hnow] at hopen
          exact .inr ⟨hnot, (BreakerState.open.inj hopen).symm⟩
        · exact .inl (hsame ▸ hopen)
      rw [BreakerSystem.step]
      split_ifs
      · exact hfollow
      · exact h
  | elapse time =>
      intro openedAt hopen
      exact ⟨(h openedAt hopen).1, (h openedAt hopen).2.trans (Nat.le_add_right _ _)⟩

/-! ### Breakers that are not closed -/

theorem tripped_step (h : s.breaker.Tripped) (hcount : s.breaker.consecutiveFailures + 1 ≠ 0)
    (a : BreakerStep) : (s.step a).breaker.Tripped := by
  cases a with
  | allow =>
      rw [step]
      split_ifs <;> exact h.allow s.now
  | recordSuccess request =>
      rw [step]
      split_ifs
      · exact CircuitBreaker.tripped_recordSuccess
      · exact h
  | recordFailure request =>
      rw [step]
      split_ifs
      · exact h.recordFailure s.now hcount
      · exact h
  | elapse time => exact h

theorem tripped_run {config : CircuitBreakerConfig} {steps : List BreakerStep}
    (hcount : Transition.Along step (fun s _ => s.breaker.consecutiveFailures + 1 ≠ 0) (new config)
      steps) : ((new config).run steps).breaker.Tripped :=
  Transition.foldl_invariant (I := fun s => s.breaker.Tripped)
    (fun _ a hcount h => tripped_step h hcount a) hcount (CircuitBreaker.tripped_withConfig config)

/-! ### One probe at a time -/

/-- The probes of a run in which only they report failures to a half-open breaker. -/
structure Probing (s : BreakerSystem) : Prop where
  single : s.SingleProbe
  not_vacant : s.breaker.state ≠ .halfOpen false
  none_of_open : ∀ openedAt, s.breaker.state = .open openedAt → s.unresolved ∩ s.probes = ∅
  numbered : ∀ request ∈ s.probes, request < s.calls

/-- A request that reports leaves at most one probe. -/
theorem SingleProbe.erase (h : s.SingleProbe) (request : ℕ) :
    (s.unresolved.erase request ∩ s.probes).card ≤ 1 :=
  (Finset.card_le_card (Finset.inter_subset_inter_right (Finset.erase_subset ..))).trans h

/-- When the probe reports there is none left. -/
theorem SingleProbe.erase_eq (h : s.SingleProbe) {request : ℕ}
    (hunresolved : request ∈ s.unresolved)
    (hprobe : request ∈ s.probes) : s.unresolved.erase request ∩ s.probes = ∅ := by
  have hmem : request ∈ s.unresolved ∩ s.probes := Finset.mem_inter.2 ⟨hunresolved, hprobe⟩
  have hsingle : s.unresolved ∩ s.probes = {request} :=
    Finset.eq_singleton_iff_unique_mem.2 ⟨hmem, fun other hother =>
      Finset.card_le_one.1 h other hother request hmem⟩
  rw [Finset.erase_inter, hsingle, Finset.erase_singleton]

theorem follow_self : s.follow s.breaker = s := by
  rw [follow, if_neg fun h => h.2 h.1]
  cases s.breaker.state <;> rfl

theorem Probing.allow (h : s.Probing) : (s.step .allow).Probing := by
  have hlater : ∀ request ∈ s.probes, request < s.calls + 1 :=
    fun request hrequest => Nat.lt_succ_of_lt (h.numbered request hrequest)
  obtain ⟨hclosed, heq⟩ | heq | ⟨hopen, heq⟩ := s.breaker.allow_cases s.now
  · have hfresh : s.calls ∉ s.probes := fun hmem => Nat.lt_irrefl _ (h.numbered _ hmem)
    simp only [BreakerSystem.step, heq, follow_self, hclosed, if_true]
    refine ⟨?_, by simp [hclosed], by simp [hclosed], hlater⟩
    rw [SingleProbe, Finset.insert_inter_of_notMem hfresh]
    exact h.single
  · simp only [BreakerSystem.step, heq, follow_self]
    exact ⟨h.single, h.not_vacant, h.none_of_open, hlater⟩
  · obtain ⟨openedAt, hopen, -⟩ := hopen.resolve_right h.not_vacant
    have hnone := h.none_of_open openedAt hopen
    simp only [BreakerSystem.step, heq, follow, hopen, reduceCtorEq, if_true, if_false, false_and]
    refine ⟨?_, by simp, by simp, ?_⟩
    · rw [SingleProbe, ← Finset.insert_inter_distrib, hnone]
      exact Nat.le_of_eq (Finset.card_singleton _)
    · intro request hrequest
      obtain rfl | hrequest := Finset.mem_insert.1 hrequest
      · exact Nat.lt_succ_self _
      · exact hlater request hrequest

theorem Probing.recordSuccess (h : s.Probing) (request : ℕ) :
    (s.step (.recordSuccess request)).Probing := by
  rw [BreakerSystem.step]
  split_ifs
  · refine ⟨?_, by simp [follow, CircuitBreaker.recordSuccess],
      by simp [follow, CircuitBreaker.recordSuccess], ?_⟩
    · rw [SingleProbe, follow]
      simp only [CircuitBreaker.recordSuccess, ne_eq, not_true_eq_false, and_false, if_false]
      exact h.single.erase request
    · simp only [follow, CircuitBreaker.recordSuccess, ne_eq, not_true_eq_false, and_false,
        if_false]
      exact h.numbered
  · exact h

theorem Probing.recordFailure (h : s.Probing) {request : ℕ}
    (ha : s.FromProbe (.recordFailure request)) : (s.step (.recordFailure request)).Probing := by
  rw [BreakerSystem.step]
  split_ifs with hunresolved
  · obtain ⟨hopens, hnot⟩ | hsame := s.breaker.recordFailure_cases s.now
    · cases hstate : s.breaker.state with
      | «open» openedAt => exact absurd hstate (hnot openedAt)
      | closed =>
          -- The breaker leaves the closed state, and there are no probes yet.
          have hprobes : (s.follow (s.breaker.recordFailure s.now)).probes = ∅ :=
            if_pos ⟨hstate, by simp [hopens]⟩
          refine ⟨?_, by simp [follow, hopens], fun _ _ => ?_, ?_⟩
          · show (_ ∩ (s.follow _).probes).card ≤ 1
            simp [hprobes]
          · show _ ∩ (s.follow _).probes = ∅
            rw [hprobes, Finset.inter_empty]
          · show ∀ request ∈ (s.follow _).probes, request < s.calls
            simp [hprobes]
      | halfOpen probeInFlight =>
          -- The probe itself has failed.
          have hprobes : (s.follow (s.breaker.recordFailure s.now)).probes = s.probes :=
            if_neg (by simp [hstate])
          have hnone := h.single.erase_eq hunresolved (ha hunresolved ⟨probeInFlight, hstate⟩)
          refine ⟨?_, by simp [follow, hopens], fun _ _ => ?_, ?_⟩
          · show (_ ∩ (s.follow _).probes).card ≤ 1
            rw [hprobes, hnone]
            exact Nat.zero_le _
          · show _ ∩ (s.follow _).probes = ∅
            rw [hprobes, hnone]
          · show ∀ request ∈ (s.follow _).probes, request < s.calls
            exact hprobes ▸ h.numbered
    · have hprobes : (s.follow (s.breaker.recordFailure s.now)).probes = s.probes :=
        if_neg (by simp [hsame])
      refine ⟨?_, by simpa [follow, hsame] using h.not_vacant, fun openedAt hopen => ?_, ?_⟩
      · show (_ ∩ (s.follow _).probes).card ≤ 1
        exact hprobes ▸ h.single.erase request
      · have hnone := h.none_of_open openedAt (hsame ▸ hopen)
        show _ ∩ (s.follow _).probes = ∅
        rw [hprobes, Finset.erase_inter, hnone, Finset.erase_empty]
      · show ∀ request ∈ (s.follow _).probes, request < s.calls
        exact hprobes ▸ h.numbered
  · exact h

theorem Probing.step (h : s.Probing) {a : BreakerStep} (ha : s.FromProbe a) :
    (s.step a).Probing := by
  cases a with
  | allow => exact h.allow
  | recordSuccess request => exact h.recordSuccess request
  | recordFailure request => exact h.recordFailure ha
  | elapse time => exact ⟨h.single, h.not_vacant, h.none_of_open, h.numbered⟩

theorem probing_new (config : CircuitBreakerConfig) : (new config).Probing where
  single := Nat.zero_le _
  not_vacant := by simp [new, CircuitBreaker.withConfig]
  none_of_open := by simp [new]
  numbered := by simp [new]

theorem probing_run {config : CircuitBreakerConfig} {steps : List BreakerStep}
    (hprobe : Transition.Along step FromProbe (new config) steps) :
    ((new config).run steps).Probing :=
  Transition.foldl_invariant (I := Probing) (fun _ _ ha h => h.step ha) hprobe (probing_new config)

/-- **One probe at a time.** In every run in which no failure is reported to the half-open breaker
but by a request admitted since the breaker left the closed state, at most one of the requests
admitted since then is unresolved in every state reached. In every run whatsoever no request is
admitted while the breaker has been open for less than `coolDown` since it last opened. -/
theorem single_probe (config : CircuitBreakerConfig) (steps : List BreakerStep) :
    (Transition.Along step FromProbe (new config) steps → ((new config).run steps).SingleProbe) ∧
    ((new config).run steps).CoolsDown := by
  refine ⟨fun hprobe => (probing_run hprobe).single, KnowsOpening.coolsDown ?_⟩
  refine Transition.foldl_invariant (P := fun _ _ => True) (I := KnowsOpening)
    (fun s a _ h => h.step a) (Transition.along_of_forall (fun _ _ => trivial) _ _)
    (fun openedAt hopen => ?_)
  cases hopen

/-- A breaker that opens after the first failure and cools down at once. -/
def eager : CircuitBreakerConfig := ⟨1, 1, by decide⟩

/-- The breaker opens, the first probe fails, and the second one is on its way. -/
theorem single_probe_cycle :
    Transition.Along step FromProbe (new eager)
      [.allow, .recordFailure 0, .elapse 1, .allow, .recordFailure 1, .elapse 1, .allow] ∧
    ((new eager).run
      [.allow, .recordFailure 0, .elapse 1, .allow, .recordFailure 1, .elapse 1,
        .allow]).SingleProbe := by
  have hprobe : Transition.Along step FromProbe (new eager)
      [.allow, .recordFailure 0, .elapse 1, .allow, .recordFailure 1, .elapse 1, .allow] := by
    refine ⟨trivial, fun _ hhalf => ?_, trivial, trivial, fun _ _ => ?_, trivial, trivial, trivial⟩
    · obtain ⟨probeInFlight, hhalf⟩ := hhalf
      cases hhalf
    · decide
  exact ⟨hprobe, (single_probe eager _).1 hprobe⟩

/-- **A second probe.** Once a request from before reports a failure to the half-open breaker while
the probe is on its way, the breaker will admit another probe. -/
theorem exists_second_probe {config : CircuitBreakerConfig} {steps : List BreakerStep}
    (hprobe : Transition.Along step FromProbe (new config) steps) {probe request : ℕ}
    (hs : (new config).run steps = s) (hhalf : s.breaker.state = .halfOpen true)
    (hthreshold : s.breaker.config.threshold ≤ s.breaker.consecutiveFailures + 1)
    (hway : probe ∈ s.unresolved ∩ s.probes) (hunresolved : request ∈ s.unresolved)
    (hlate : request ∉ s.probes) :
    ¬ ((new config).run (steps ++
      [.recordFailure request, .elapse s.breaker.config.coolDown, .allow])).SingleProbe := by
  have hinv : s.Probing := hs ▸ probing_run hprobe
  have hne : probe ≠ request := fun heq => hlate (heq ▸ Finset.mem_of_mem_inter_right hway)
  have hold : probe < s.calls := hinv.numbered probe (Finset.mem_of_mem_inter_right hway)
  have hstays : probe ∈ s.unresolved.erase request :=
    Finset.mem_erase.2 ⟨hne, Finset.mem_of_mem_inter_left hway⟩
  have hfailed : s.breaker.recordFailure s.now = { s.breaker with
      consecutiveFailures := s.breaker.consecutiveFailures + 1, state := .open s.now } := by
    simp only [CircuitBreaker.recordFailure, hhalf, if_pos hthreshold]
  have hsteps : ∀ more, (new config).run (steps ++ more) = more.foldl step s := by
    intro more
    rw [run, List.foldl_append, ← hs]
    rfl
  rw [hsteps]
  simp only [List.foldl_cons, List.foldl_nil, step, if_pos hunresolved, hfailed, follow, hhalf,
    CircuitBreaker.allow, Nat.add_sub_cancel_left, Nat.le_refl, if_true, reduceCtorEq, false_and,
    if_false, SingleProbe, ← Finset.insert_inter_distrib]
  rw [Finset.card_insert_of_notMem fun hmem => Nat.lt_irrefl _
    (hinv.numbered _ (Finset.mem_of_mem_inter_right hmem))]
  have hpos := Finset.card_pos.2 ⟨probe, Finset.mem_inter.2
    ⟨hstays, Finset.mem_of_mem_inter_right hway⟩⟩
  omega

/-- Two requests are admitted; the first fails, and the second reports its failure while the probe
is on its way. -/
def lateFailure : List BreakerStep :=
  [.allow, .allow, .recordFailure 0, .elapse 1, .allow, .recordFailure 1, .elapse 1, .allow]

/-- Two probes are on their way. -/
theorem exists_two_probes :
    ((new eager).run lateFailure).breaker.state = .halfOpen true ∧
    ¬ ((new eager).run lateFailure).SingleProbe := by
  constructor
  · decide
  · show ¬ (((new eager).run lateFailure).unresolved ∩
      ((new eager).run lateFailure).probes).card ≤ 1
    decide

end BreakerSystem

end SglangRs.Router
