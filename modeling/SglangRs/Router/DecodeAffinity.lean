import Mathlib.Data.List.MinMax
import Mathlib.Data.List.Sort
import SglangRs.Router.CircuitBreaker
import SglangRs.Router.WorkerRegistry

/-!
# The choice of a decode worker

A request that was prefilled on one worker is decoded on another (`policies/registry.rs`). The
function `select_decode_with_affinity` prefers a worker on the host of the prefill worker, unless
its breaker refuses requests or its load is more than twice the median load of the workers whose
breakers admit requests. Else it takes a worker of least load among those, or, if all breakers are
open, among all.

The bound on the load is computed in doubles. A bound of zero stands for "no worker admits
requests", and it disables the comparison. But the bound is also zero when the median is: in a pool
that is mostly idle, an overloaded worker on the host of the prefill worker is taken.

## Main definitions

* `Router.selectDecodeWithAffinity`: the choice.
* `Router.FollowsAffinityRules`: the documented rules.

## Main results

* `Router.followsAffinityRules_iff`: the rules hold exactly if the median is not zero, or else the
  first worker on the host of the prefill worker is idle, and no load above twice the median is
  admitted by rounding, which takes a median above `2 ^ 53`.
-/

namespace SglangRs.Router

/-! ### Doubles -/

/-- A natural number rounded to a double: to 53 significant bits, ties to even. -/
def roundToDouble (n : ℕ) : ℕ :=
  let unit := 2 ^ (n.log2 - 52)
  let below := n / unit
  let rest := n % unit
  if unit < 2 * rest ∨ unit = 2 * rest ∧ below % 2 = 1 then (below + 1) * unit else below * unit

/-- Numbers of at most 53 bits are doubles. -/
theorem roundToDouble_of_le {n : ℕ} (hn : n ≤ 2 ^ 53) : roundToDouble n = n := by
  obtain hlt | rfl := hn.lt_or_eq
  · have hlog : n.log2 - 52 = 0 := by
      rcases Nat.eq_zero_or_pos n with rfl | hpos
      · rfl
      · have := (Nat.log2_lt hpos.ne').mpr hlt
        omega
    simp [roundToDouble, hlog, Nat.mod_one]
  · decide

/-! ### The choice -/

/-- A worker with its breaker and its load at the moment of the choice. -/
structure DecodeCandidate extends Worker where
  breaker : CircuitBreaker
  activeLoad : UInt64

/-- Source: `registry.rs`, line 45. -/
def affinityLoadTolerance : ℕ := 2

variable (hostOf : String → Option String) (now : ℕ) (prefillUrl : String)
  (candidates : List DecodeCandidate)

/-- The candidates whose breakers admit requests. -/
def healthy : List DecodeCandidate := candidates.filter (·.breaker.wouldAllow now)

/-- The middle load of the healthy candidates, the upper one of two.

Source: `registry.rs`, lines 272–274. -/
def medianLoad : ℕ :=
  let loads := ((healthy now candidates).map (·.activeLoad.toNat)).insertionSort (· ≤ ·)
  loads.getD (loads.length / 2) 0

/-- The bound on the load of a worker on the host of the prefill worker. The conversion from a
double saturates.

Source: `registry.rs`, lines 269–276. -/
def loadTolerance : ℕ :=
  if (healthy now candidates).isEmpty then 0
  else min (affinityLoadTolerance * roundToDouble (medianLoad now candidates)) (2 ^ 64 - 1)

/-- The healthy candidates on the host of the prefill worker. -/
def affinityPeers : List DecodeCandidate :=
  match hostOf prefillUrl with
  | none => []
  | some host => (healthy now candidates).filter fun w => hostOf w.url = some host

/-- Rule 1: a healthy candidate on the host of the prefill worker that is not overloaded.

Source: `registry.rs`, lines 279–287. -/
def affinityPeer : Option DecodeCandidate :=
  match hostOf prefillUrl with
  | none => none
  | some host => (healthy now candidates).find? fun w =>
      hostOf w.url = some host ∧ (loadTolerance now candidates = 0 ∨
        w.activeLoad.toNat ≤ loadTolerance now candidates)

/-- The candidate of least load, the first one of several. -/
def minByLoad (workers : List DecodeCandidate) : Option DecodeCandidate :=
  workers.argmin (·.activeLoad.toNat)

/-- Source: `registry.rs`, lines 250–299. -/
def selectDecodeWithAffinity : Option DecodeCandidate :=
  if candidates.isEmpty then none
  else
    match affinityPeer hostOf now prefillUrl candidates with
    | some w => some w
    | none =>
        match minByLoad (healthy now candidates) with
        | some w => some w
        | none => minByLoad candidates

/-! ### The rules -/

/-- `w` is on the host of the prefill worker. -/
def SameHost (w : DecodeCandidate) : Prop :=
  ∃ host, hostOf prefillUrl = some host ∧ hostOf w.url = some host

/-- `w` is one of least load. -/
def IsMinLoad (workers : List DecodeCandidate) (w : DecodeCandidate) : Prop :=
  w ∈ workers ∧ ∀ x ∈ workers, w.activeLoad.toNat ≤ x.activeLoad.toNat

/-- The documented rules: a choice for the sake of the host has a breaker that admits requests and
a load of at most twice the median; every other choice is one of least load among the healthy
candidates, or among all of them if none is healthy; and there is a choice if there is a
candidate. -/
structure FollowsAffinityRules (choice : Option DecodeCandidate) : Prop where
  none_iff : choice = none ↔ candidates = []
  of_some : ∀ w, choice = some w →
    (w ∈ candidates ∧ SameHost hostOf prefillUrl w ∧ w.breaker.wouldAllow now ∧
      w.activeLoad.toNat ≤ 2 * medianLoad now candidates) ∨
    IsMinLoad (healthy now candidates) w ∨
    (healthy now candidates = [] ∧ IsMinLoad candidates w)

/-- When the bound on the load does what it is for: if the median is zero then the first healthy
candidate on the host of the prefill worker is idle, and if the median is not a double then
rounding it admits no load above twice the median. -/
structure BoundHolds : Prop where
  idle : medianLoad now candidates = 0 →
    ∀ w, (affinityPeers hostOf now prefillUrl candidates).head? = some w → w.activeLoad = 0
  rounded : 2 ^ 53 < medianLoad now candidates →
    ∀ w, (affinityPeers hostOf now prefillUrl candidates).find?
        (fun w => w.activeLoad.toNat ≤ 2 * roundToDouble (medianLoad now candidates)) = some w →
      w.activeLoad.toNat ≤ 2 * medianLoad now candidates

/-! ### Healthy candidates and their median -/

variable {hostOf now prefillUrl candidates} {w : DecodeCandidate}

theorem mem_healthy : w ∈ healthy now candidates ↔ w ∈ candidates ∧ w.breaker.wouldAllow now :=
  List.mem_filter

theorem mem_affinityPeers : w ∈ affinityPeers hostOf now prefillUrl candidates ↔
    w ∈ healthy now candidates ∧ SameHost hostOf prefillUrl w := by
  cases hhost : hostOf prefillUrl with
  | none => simp [affinityPeers, SameHost, hhost]
  | some host => simp [affinityPeers, SameHost, hhost]

/-- The median is the load of a healthy candidate. -/
theorem exists_medianLoad (hne : healthy now candidates ≠ []) :
    ∃ x ∈ healthy now candidates, x.activeLoad.toNat = medianLoad now candidates := by
  let loads := ((healthy now candidates).map (·.activeLoad.toNat)).insertionSort (· ≤ ·)
  have hlen : loads.length / 2 < loads.length := by
    have hpos : 0 < loads.length := by
      simpa [loads] using List.length_pos_iff.mpr hne
    exact Nat.div_lt_self hpos Nat.one_lt_two
  have hmem : loads[loads.length / 2] ∈ (healthy now candidates).map (·.activeLoad.toNat) :=
    (List.mem_insertionSort _).mp (List.getElem_mem hlen)
  have hmedian : medianLoad now candidates = loads[loads.length / 2] := by
    change loads.getD (loads.length / 2) 0 = _
    rw [List.getD_eq_getElem?_getD, List.getElem?_eq_getElem hlen, Option.getD_some]
  obtain ⟨x, hx, hload⟩ := List.mem_map.mp hmem
  exact ⟨x, hx, hload.trans hmedian.symm⟩

theorem roundToDouble_eq_zero {n : ℕ} : roundToDouble n = 0 ↔ n = 0 := by
  constructor
  · intro hzero
    by_contra hn
    have hunit : 0 < 2 ^ (n.log2 - 52) := Nat.two_pow_pos _
    have hle : 2 ^ (n.log2 - 52) ≤ n :=
      (Nat.pow_le_pow_right Nat.two_pos (Nat.sub_le _ _)).trans (Nat.log2_self_le hn)
    have hbelow : 0 < n / 2 ^ (n.log2 - 52) := Nat.div_pos hle hunit
    have hpos : 0 < roundToDouble n := by
      rw [roundToDouble]
      split_ifs
      · exact Nat.mul_pos (Nat.succ_pos _) hunit
      · exact Nat.mul_pos hbelow hunit
    omega
  · rintro rfl
    rfl

/-! ### The worker on the host of the prefill worker -/

theorem affinityPeer_eq : affinityPeer hostOf now prefillUrl candidates =
    (affinityPeers hostOf now prefillUrl candidates).find? fun w =>
      loadTolerance now candidates = 0 ∨ w.activeLoad.toNat ≤ loadTolerance now candidates := by
  cases hhost : hostOf prefillUrl with
  | none => simp [affinityPeer, affinityPeers, hhost]
  | some host =>
      simp only [affinityPeer, affinityPeers, hhost, List.find?_filter, Bool.decide_and,
        Bool.decide_eq_true]

/-- If the median is not zero then the bound is twice the rounded median. -/
theorem le_loadTolerance (hmedian : medianLoad now candidates ≠ 0) (w : DecodeCandidate) :
    (loadTolerance now candidates = 0 ∨ w.activeLoad.toNat ≤ loadTolerance now candidates) ↔
      w.activeLoad.toNat ≤ 2 * roundToDouble (medianLoad now candidates) := by
  have hne : (healthy now candidates).isEmpty = false := by
    by_contra hempty
    exact hmedian (by simp_all [medianLoad])
  have hround : roundToDouble (medianLoad now candidates) ≠ 0 :=
    fun h => hmedian (roundToDouble_eq_zero.mp h)
  have hload := w.activeLoad.toNat_lt
  simp only [loadTolerance, hne, affinityLoadTolerance, Bool.false_eq_true, if_false]
  omega

/-- If the median is zero then so is the bound. -/
theorem loadTolerance_eq_zero (hmedian : medianLoad now candidates = 0) :
    loadTolerance now candidates = 0 := by
  simp [loadTolerance, hmedian, roundToDouble_eq_zero.mpr]

/-- The bound does what it is for exactly if no overloaded worker is taken for its host. -/
theorem boundHolds_iff : BoundHolds hostOf now prefillUrl candidates ↔
    ∀ w, affinityPeer hostOf now prefillUrl candidates = some w →
      w.activeLoad.toNat ≤ 2 * medianLoad now candidates := by
  by_cases hmedian : medianLoad now candidates = 0
  · have hpeer : affinityPeer hostOf now prefillUrl candidates =
        (affinityPeers hostOf now prefillUrl candidates).head? := by
      simp only [affinityPeer_eq, loadTolerance_eq_zero hmedian, true_or, decide_true]
      cases affinityPeers hostOf now prefillUrl candidates <;> rfl
    have hidle (w : DecodeCandidate) : w.activeLoad.toNat ≤ 2 * 0 ↔ w.activeLoad = 0 := by
      rw [UInt64.ext_iff]
      simp
    rw [hpeer, hmedian]
    simp only [hidle]
    exact ⟨fun h => h.idle hmedian, fun h => ⟨fun _ => h, fun hlt => absurd hlt (by omega)⟩⟩
  · have hpeer : affinityPeer hostOf now prefillUrl candidates =
        (affinityPeers hostOf now prefillUrl candidates).find?
          (fun w => w.activeLoad.toNat ≤ 2 * roundToDouble (medianLoad now candidates)) := by
      simp only [affinityPeer_eq, le_loadTolerance hmedian]
    by_cases hlarge : 2 ^ 53 < medianLoad now candidates
    · rw [hpeer]
      exact ⟨fun h => h.rounded hlarge, fun h => ⟨fun hzero => absurd hzero hmedian, fun _ => h⟩⟩
    · refine iff_of_true ⟨fun hzero => absurd hzero hmedian, fun h => absurd h hlarge⟩ ?_
      intro w hw
      rw [hpeer, roundToDouble_of_le (Nat.le_of_not_lt hlarge)] at hw
      simpa using List.find?_some hw

/-! ### The rules of the choice -/

theorem isMinLoad_of_minByLoad {workers : List DecodeCandidate} (h : minByLoad workers = some w) :
    IsMinLoad workers w :=
  ⟨List.argmin_mem h, fun _ hx => List.le_of_mem_argmin (f := (·.activeLoad.toNat)) hx h⟩

theorem minByLoad_eq_none {workers : List DecodeCandidate} :
    minByLoad workers = none ↔ workers = [] :=
  List.argmin_eq_none

/-- What the choice can be. -/
theorem select_cases (h : selectDecodeWithAffinity hostOf now prefillUrl candidates = some w) :
    affinityPeer hostOf now prefillUrl candidates = some w ∨
    IsMinLoad (healthy now candidates) w ∨
    (healthy now candidates = [] ∧ IsMinLoad candidates w) := by
  rw [selectDecodeWithAffinity] at h
  split_ifs at h with hempty
  cases hpeer : affinityPeer hostOf now prefillUrl candidates with
  | some x =>
      rw [hpeer] at h
      exact .inl h
  | none =>
      cases hmin : minByLoad (healthy now candidates) with
      | some x =>
          simp only [hpeer, hmin] at h
          exact .inr (.inl (isMinLoad_of_minByLoad (hmin.trans h)))
      | none =>
          simp only [hpeer, hmin] at h
          exact .inr (.inr ⟨minByLoad_eq_none.mp hmin, isMinLoad_of_minByLoad h⟩)

theorem select_eq_none :
    selectDecodeWithAffinity hostOf now prefillUrl candidates = none ↔ candidates = [] := by
  constructor
  · intro h
    by_contra hne
    rw [selectDecodeWithAffinity, if_neg (by simpa using hne)] at h
    cases hpeer : affinityPeer hostOf now prefillUrl candidates with
    | some x => simp [hpeer] at h
    | none =>
        cases hmin : minByLoad (healthy now candidates) with
        | some x => simp [hpeer, hmin] at h
        | none =>
            simp only [hpeer, hmin] at h
            exact hne (minByLoad_eq_none.mp h)
  · rintro rfl
    rfl

theorem select_of_affinityPeer (h : affinityPeer hostOf now prefillUrl candidates = some w) :
    selectDecodeWithAffinity hostOf now prefillUrl candidates = some w := by
  rw [affinityPeer_eq] at h
  have hmem := (mem_healthy.mp (mem_affinityPeers.mp (List.mem_of_find?_eq_some h)).1).1
  rw [← affinityPeer_eq] at h
  rw [selectDecodeWithAffinity, if_neg (by simpa using List.ne_nil_of_mem hmem), h]

/-- The rules hold exactly if no overloaded worker is taken for its host. -/
theorem followsAffinityRules_iff_le :
    FollowsAffinityRules hostOf now prefillUrl candidates
        (selectDecodeWithAffinity hostOf now prefillUrl candidates) ↔
      ∀ w, affinityPeer hostOf now prefillUrl candidates = some w →
        w.activeLoad.toNat ≤ 2 * medianLoad now candidates := by
  constructor
  · intro h w hpeer
    have hw : w ∈ healthy now candidates := by
      rw [affinityPeer_eq] at hpeer
      exact (mem_affinityPeers.mp (List.mem_of_find?_eq_some hpeer)).1
    obtain ⟨-, -, -, hload⟩ | hmin | ⟨hnone, -⟩ := h.of_some w (select_of_affinityPeer hpeer)
    · exact hload
    · obtain ⟨x, hx, hmedian⟩ := exists_medianLoad (List.ne_nil_of_mem hw)
      have := hmin.2 x hx
      omega
    · exact absurd hnone (List.ne_nil_of_mem hw)
  · intro h
    refine ⟨select_eq_none, fun w hw => ?_⟩
    obtain hpeer | hrule := select_cases hw
    · have hload := h w hpeer
      rw [affinityPeer_eq] at hpeer
      obtain ⟨hhealthy, hhost⟩ := mem_affinityPeers.mp (List.mem_of_find?_eq_some hpeer)
      obtain ⟨hmem, hallow⟩ := mem_healthy.mp hhealthy
      exact .inl ⟨hmem, hhost, hallow, hload⟩
    · exact .inr hrule

/-- **The rules of the choice.** A decode worker is chosen by the documented rules exactly if the
bound on the load does what it is for. -/
theorem followsAffinityRules_iff (hostOf : String → Option String) (now : ℕ) (prefillUrl : String)
    (candidates : List DecodeCandidate) :
    FollowsAffinityRules hostOf now prefillUrl candidates
        (selectDecodeWithAffinity hostOf now prefillUrl candidates) ↔
      BoundHolds hostOf now prefillUrl candidates :=
  followsAffinityRules_iff_le.trans boundHolds_iff.symm

/-- A decode worker of the host `node-a` with five requests, and two idle ones of `node-b`. -/
def idlePool : List DecodeCandidate :=
  let worker (id url : String) (load : UInt64) : DecodeCandidate :=
    { id := ⟨id⟩, url, mode := .decode, modelIds := [⟨"m"⟩], bootstrapPort := none,
      breaker := .withConfig ⟨5, 30, by decide⟩, activeLoad := load }
  [worker "d0" "http://node-a:30001" 5, worker "d1" "http://node-b:30001" 0,
    worker "d2" "http://node-b:30002" 0]

/-- The hosts of the workers of `idlePool` and of a prefill worker. -/
def idlePoolHosts : String → Option String := fun url =>
  if url = "http://node-a:30000" ∨ url = "http://node-a:30001" then some "node-a"
  else if url = "http://node-b:30001" ∨ url = "http://node-b:30002" then some "node-b"
  else none

/-- In a pool that is mostly idle the busiest worker is chosen for its host. -/
theorem not_followsAffinityRules_idlePool :
    ¬ FollowsAffinityRules idlePoolHosts 0 "http://node-a:30000" idlePool
        (selectDecodeWithAffinity idlePoolHosts 0 "http://node-a:30000" idlePool) := by
  rw [followsAffinityRules_iff_le]
  intro h
  exact absurd (h _ rfl) (by decide)

end SglangRs.Router
