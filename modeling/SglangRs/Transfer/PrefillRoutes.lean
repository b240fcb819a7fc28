import Mathlib.Data.Finset.Prod
import Mathlib.Data.List.Nodup
import Mathlib.Data.Finset.Dedup
import SglangRs.Transition.Run

/-!
# The routes of a prefill deployment

Every rank of a prefill deployment registers its address with the bootstrap service
(`sglang-srt/src/transfer/pd_bootstrap.rs`, lines 442–528). The service keeps the sizes that the
first registration announces, the addresses in four nested tables, by data-parallel, context,
tensor and pipeline rank, and the number of registrations. It gives out the sizes once that number
has reached the product of the sizes.

The number counts the registrations and not the ranks: a rank that registers again, say after it was
started anew, counts twice.

## Main definitions

* `PrefillRoutes`, `PrefillRoutes.registerRoute`, `PrefillRoutes.isReady`,
  `PrefillRoutes.rankInfo`.
* `PrefillTopology.ReadyIsComplete`: if the service is ready then every rank has the address of its
  latest registration.

## Main results

* `PrefillRoutes.rankInfo_registerAll`: a rank has the address of its latest registration.
* `PrefillTopology.readyIsComplete_iff`: readiness means completeness throughout a run exactly if
  the registrations that make the service ready are of pairwise different ranks and the number of
  ranks fits into 64 bits.
-/

namespace SglangRs

/-- Source: `pd_bootstrap.rs`, lines 712–728. -/
structure PrefillRouteRegistration where
  attnTpSize : ℕ
  attnTpRank : ℕ
  attnCpSize : ℕ
  attnCpRank : ℕ
  attnDpSize : ℕ
  attnDpRank : ℕ
  ppSize : ℕ
  ppRank : ℕ
  systemDpSize : ℕ
  systemDpRank : ℕ
  rankIp : String
  rankPort : UInt16
  pageSize : Option ℕ
  kvCacheDtype : Option String
  loadBalanceMethod : Option String
deriving DecidableEq, Repr

structure PrefillRankInfo where
  rankIp : String
  rankPort : UInt16
deriving DecidableEq, Repr

structure PrefillServerInfo where
  attnTpSize : ℕ
  attnCpSize : ℕ
  dpSize : ℕ
  ppSize : ℕ
  pageSize : Option ℕ
  kvCacheDtype : Option String
  followBootstrapRoom : Bool
deriving DecidableEq, Repr

/-- The data-parallel, context, tensor and pipeline rank of a rank. -/
abbrev RankCoordinate := ℕ × ℕ × ℕ × ℕ

namespace PrefillRouteRegistration

variable (registration : PrefillRouteRegistration)

/-- The number of data-parallel groups that a registration announces. -/
def dpSize : ℕ :=
  if registration.systemDpSize = 1 then registration.attnDpSize else registration.systemDpSize

/-- The data-parallel group that a registration is for. -/
def dpGroup : ℕ :=
  if registration.systemDpSize = 1 then registration.attnDpRank else registration.systemDpRank

def coordinate : RankCoordinate :=
  (registration.dpGroup, registration.attnCpRank, registration.attnTpRank, registration.ppRank)

def rankInfo : PrefillRankInfo := ⟨registration.rankIp, registration.rankPort⟩

def followsBootstrapRoom : Bool :=
  registration.loadBalanceMethod.getD "follow_bootstrap_room" = "follow_bootstrap_room"

end PrefillRouteRegistration

/-! ### Nested tables -/

section Nested

variable {κ κ' α : Type} [DecidableEq κ]

/-- The inner table at `k`, the empty one if there is none. -/
def innerTable (table : κ → Option (κ' → Option α)) (k : κ) : κ' → Option α :=
  (table k).getD fun _ => none

/-- Change the inner table at `k`, which is made if it is missing. -/
def modifyInner (table : κ → Option (κ' → Option α)) (k : κ)
    (f : (κ' → Option α) → κ' → Option α) : κ → Option (κ' → Option α) :=
  Function.update table k (some (f (innerTable table k)))

theorem innerTable_modifyInner (table : κ → Option (κ' → Option α)) (k k' : κ)
    (f : (κ' → Option α) → κ' → Option α) :
    innerTable (modifyInner table k f) k' =
      if k' = k then f (innerTable table k) else innerTable table k' := by
  by_cases hk : k' = k
  · subst hk
    simp [modifyInner, innerTable]
  · simp [modifyInner, innerTable, hk]

end Nested

abbrev PrefillPpRankTable := ℕ → Option PrefillRankInfo
abbrev PrefillTpRankTable := ℕ → Option PrefillPpRankTable
abbrev PrefillCpRankTable := ℕ → Option PrefillTpRankTable
abbrev PrefillPortTable := ℕ → Option PrefillCpRankTable

/-- What the service keeps about the routes. -/
structure PrefillRoutes where
  attnTpSize : Option ℕ := none
  attnCpSize : Option ℕ := none
  dpSize : Option ℕ := none
  ppSize : Option ℕ := none
  pageSize : Option ℕ := none
  kvCacheDtype : Option String := none
  followBootstrapRoom : Option Bool := none
  registeredCount : ℕ := 0
  prefillPortTable : PrefillPortTable := fun _ => none

namespace PrefillRoutes

variable (s : PrefillRoutes) (registration : PrefillRouteRegistration)

/-- The counter wraps at 64 bits.

Source: `pd_bootstrap.rs`, lines 442–486. -/
def registerRoute : PrefillRoutes where
  attnTpSize := some (s.attnTpSize.getD registration.attnTpSize)
  attnCpSize := some (s.attnCpSize.getD registration.attnCpSize)
  dpSize := some (s.dpSize.getD registration.dpSize)
  ppSize := some (s.ppSize.getD registration.ppSize)
  pageSize := s.pageSize.or registration.pageSize
  kvCacheDtype := s.kvCacheDtype.or registration.kvCacheDtype
  followBootstrapRoom := some (s.followBootstrapRoom.getD registration.followsBootstrapRoom)
  registeredCount := (s.registeredCount + 1) % 2 ^ 64
  prefillPortTable :=
    modifyInner s.prefillPortTable registration.dpGroup fun cpTable =>
      modifyInner cpTable registration.attnCpRank fun tpTable =>
        modifyInner tpTable registration.attnTpRank fun ppTable =>
          Function.update ppTable registration.ppRank (some registration.rankInfo)

/-- The number of ranks is computed in 64 bits.

Source: `pd_bootstrap.rs`, lines 488–498. -/
def isReady : Bool :=
  match s.dpSize, s.attnCpSize, s.attnTpSize, s.ppSize with
  | some dpSize, some attnCpSize, some attnTpSize, some ppSize =>
      dpSize * attnCpSize * attnTpSize * ppSize % 2 ^ 64 ≤ s.registeredCount
  | _, _, _, _ => false

/-- Source: `pd_bootstrap.rs`, lines 500–513. -/
def serverInfo : Option PrefillServerInfo :=
  if s.isReady then do
    return {
      attnTpSize := ← s.attnTpSize
      attnCpSize := ← s.attnCpSize
      dpSize := ← s.dpSize
      ppSize := ← s.ppSize
      pageSize := s.pageSize
      kvCacheDtype := s.kvCacheDtype
      followBootstrapRoom := s.followBootstrapRoom.getD true }
  else none

/-- Source: `pd_bootstrap.rs`, lines 515–528. -/
def rankInfo : RankCoordinate → Option PrefillRankInfo
  | (dpRank, cpRank, tpRank, ppRank) => do
    let cpTable ← s.prefillPortTable dpRank
    let tpTable ← cpTable cpRank
    let ppTable ← tpTable tpRank
    ppTable ppRank

/-- The state after some registrations. -/
def registerAll (registrations : List PrefillRouteRegistration) : PrefillRoutes :=
  registrations.foldl registerRoute {}

/-! ### The tables -/

variable {s : PrefillRoutes} {registration : PrefillRouteRegistration}

theorem rankInfo_eq (s : PrefillRoutes) (dpRank cpRank tpRank ppRank : ℕ) :
    s.rankInfo (dpRank, cpRank, tpRank, ppRank) =
      innerTable (innerTable (innerTable s.prefillPortTable dpRank) cpRank) tpRank ppRank := by
  cases hdp : s.prefillPortTable dpRank with
  | none => simp [rankInfo, innerTable, hdp]
  | some cpTable =>
      cases hcp : cpTable cpRank with
      | none => simp [rankInfo, innerTable, hdp, hcp]
      | some tpTable =>
          cases htp : tpTable tpRank with
          | none => simp [rankInfo, innerTable, hdp, hcp, htp]
          | some ppTable => simp [rankInfo, innerTable, hdp, hcp, htp]

theorem rankInfo_registerRoute (c : RankCoordinate) :
    (s.registerRoute registration).rankInfo c =
      if c = registration.coordinate then some registration.rankInfo else s.rankInfo c := by
  obtain ⟨dpRank, cpRank, tpRank, ppRank⟩ := c
  simp only [rankInfo_eq, registerRoute, innerTable_modifyInner,
    PrefillRouteRegistration.coordinate, Prod.mk.injEq]
  by_cases hdp : dpRank = registration.dpGroup
  · by_cases hcp : cpRank = registration.attnCpRank
    · by_cases htp : tpRank = registration.attnTpRank
      · by_cases hpp : ppRank = registration.ppRank
        · simp [hdp, hcp, htp, hpp, innerTable_modifyInner]
        · simp [hdp, hcp, htp, hpp, innerTable_modifyInner]
      · simp [hdp, hcp, htp, innerTable_modifyInner]
    · simp [hdp, hcp, innerTable_modifyInner]
  · simp [hdp]

theorem registerAll_append (registrations : List PrefillRouteRegistration)
    (registration : PrefillRouteRegistration) :
    registerAll (registrations ++ [registration]) =
      (registerAll registrations).registerRoute registration :=
  List.foldl_append

end PrefillRoutes

/-- What the latest registration of a rank says. -/
def latestRankInfo (registrations : List PrefillRouteRegistration) (c : RankCoordinate) :
    Option PrefillRankInfo :=
  ((registrations.filter (·.coordinate = c)).getLast?).map (·.rankInfo)

theorem latestRankInfo_append (registrations : List PrefillRouteRegistration)
    (registration : PrefillRouteRegistration) (c : RankCoordinate) :
    latestRankInfo (registrations ++ [registration]) c =
      if c = registration.coordinate then some registration.rankInfo
      else latestRankInfo registrations c := by
  by_cases hc : c = registration.coordinate
  · simp [latestRankInfo, hc]
  · simp [latestRankInfo, hc, Ne.symm hc]

theorem isSome_latestRankInfo {registrations : List PrefillRouteRegistration}
    {c : RankCoordinate} : (latestRankInfo registrations c).isSome ↔
      c ∈ registrations.map (·.coordinate) := by
  simp [latestRankInfo]

/-- A rank has the address of its latest registration. -/
theorem PrefillRoutes.rankInfo_registerAll (registrations : List PrefillRouteRegistration) :
    (registerAll registrations).rankInfo = latestRankInfo registrations := by
  induction registrations using List.reverseRecOn with
  | nil => rfl
  | append_singleton registrations registration ih =>
      funext c
      rw [registerAll_append, rankInfo_registerRoute, latestRankInfo_append, ih]

/-! ### Readiness -/

/-- The sizes of a deployment. -/
structure PrefillTopology where
  dpSize : ℕ
  attnCpSize : ℕ
  attnTpSize : ℕ
  ppSize : ℕ
deriving DecidableEq, Repr

namespace PrefillTopology

variable (t : PrefillTopology)

/-- The ranks of the deployment. -/
def ranks : Finset RankCoordinate :=
  Finset.range t.dpSize ×ˢ Finset.range t.attnCpSize ×ˢ Finset.range t.attnTpSize ×ˢ
    Finset.range t.ppSize

/-- The number of ranks. -/
def rankCount : ℕ := t.dpSize * t.attnCpSize * t.attnTpSize * t.ppSize

/-- The registration is one of a rank of the deployment and announces its sizes. -/
structure Consistent (registration : PrefillRouteRegistration) : Prop where
  dpSize : registration.dpSize = t.dpSize
  attnCpSize : registration.attnCpSize = t.attnCpSize
  attnTpSize : registration.attnTpSize = t.attnTpSize
  ppSize : registration.ppSize = t.ppSize
  mem_ranks : registration.coordinate ∈ t.ranks

/-- If the service is ready after the registrations then every rank of the deployment has an
address, the one of its latest registration. -/
def ReadyIsComplete (registrations : List PrefillRouteRegistration) : Prop :=
  (PrefillRoutes.registerAll registrations).isReady →
    ∀ c ∈ t.ranks, ∃ info, (PrefillRoutes.registerAll registrations).rankInfo c = some info ∧
      latestRankInfo registrations c = some info

variable {t} {registrations : List PrefillRouteRegistration}

theorem card_ranks : t.ranks.card = t.rankCount := by
  simp [ranks, rankCount, mul_assoc]

/-- The counter, and the sizes once there is a registration. -/
theorem sizes_registerAll (h : ∀ r ∈ registrations, t.Consistent r) :
    (PrefillRoutes.registerAll registrations).registeredCount = registrations.length % 2 ^ 64 ∧
    (registrations ≠ [] →
      (PrefillRoutes.registerAll registrations).dpSize = some t.dpSize ∧
      (PrefillRoutes.registerAll registrations).attnCpSize = some t.attnCpSize ∧
      (PrefillRoutes.registerAll registrations).attnTpSize = some t.attnTpSize ∧
      (PrefillRoutes.registerAll registrations).ppSize = some t.ppSize) := by
  induction registrations using List.reverseRecOn with
  | nil => exact ⟨rfl, fun hne => absurd rfl hne⟩
  | append_singleton registrations r ih =>
      have hr : t.Consistent r := h r (by simp)
      obtain ⟨hcount, hsizes⟩ := ih fun x hx => h x (by simp [hx])
      rw [PrefillRoutes.registerAll_append]
      refine ⟨?_, fun _ => ?_⟩
      · simp [PrefillRoutes.registerRoute, hcount]
      · rcases registrations.eq_nil_or_concat with rfl | hne
        · exact ⟨congrArg some hr.dpSize, congrArg some hr.attnCpSize,
            congrArg some hr.attnTpSize, congrArg some hr.ppSize⟩
        · obtain ⟨hdp, hcp, htp, hpp⟩ := hsizes (by obtain ⟨l, x, rfl⟩ := hne; simp)
          simp [PrefillRoutes.registerRoute, hdp, hcp, htp, hpp]

/-- The service is ready once there is a registration and the counter has reached the product of the
sizes, both in 64 bits. -/
theorem isReady_registerAll (h : ∀ r ∈ registrations, t.Consistent r) :
    (PrefillRoutes.registerAll registrations).isReady ↔
      registrations ≠ [] ∧ t.rankCount % 2 ^ 64 ≤ registrations.length % 2 ^ 64 := by
  obtain ⟨hcount, hsizes⟩ := sizes_registerAll h
  by_cases hne : registrations = []
  · subst hne
    simp [PrefillRoutes.registerAll, PrefillRoutes.isReady]
  · obtain ⟨hdp, hcp, htp, hpp⟩ := hsizes hne
    simp [PrefillRoutes.isReady, hdp, hcp, htp, hpp, hcount, hne, rankCount]

/-- The registrations cover the deployment. -/
def Covers (t : PrefillTopology) (registrations : List PrefillRouteRegistration) : Prop :=
  ∀ c ∈ t.ranks, c ∈ registrations.map (·.coordinate)

theorem readyIsComplete_iff_covers :
    t.ReadyIsComplete registrations ↔
      ((PrefillRoutes.registerAll registrations).isReady → t.Covers registrations) := by
  refine imp_congr_right fun _ => forall₂_congr fun c _ => ?_
  rw [PrefillRoutes.rankInfo_registerAll, ← isSome_latestRankInfo, Option.isSome_iff_exists]
  exact exists_congr fun info => and_self_iff

theorem Covers.mono {more : List PrefillRouteRegistration} (h : t.Covers registrations)
    (hbefore : registrations <+: more) : t.Covers more :=
  fun c hc => (hbefore.map _).subset (h c hc)

theorem Covers.rankCount_le (h : t.Covers registrations) : t.rankCount ≤ registrations.length := by
  rw [← card_ranks, ← List.length_map (·.coordinate)]
  exact (Finset.card_le_card fun c hc => List.mem_toFinset.mpr (h c hc)).trans
    (List.toFinset_card_le _)

/-- As many registrations as there are ranks cover the deployment exactly if they are of pairwise
different ranks. -/
theorem covers_iff_nodup (h : ∀ r ∈ registrations, t.Consistent r)
    (hlength : registrations.length = t.rankCount) :
    t.Covers registrations ↔ (registrations.map (·.coordinate)).Nodup := by
  have hsub : (registrations.map (·.coordinate)).toFinset ⊆ t.ranks := by
    intro c hc
    obtain ⟨r, hr, rfl⟩ := List.mem_map.mp (List.mem_toFinset.mp hc)
    exact (h r hr).mem_ranks
  have hcard : t.ranks.card = (registrations.map (·.coordinate)).length := by
    rw [card_ranks, List.length_map, hlength]
  constructor
  · intro hcovers
    have heq : (registrations.map (·.coordinate)).toFinset = t.ranks :=
      hsub.antisymm fun c hc => List.mem_toFinset.mpr (hcovers c hc)
    rw [← heq, List.card_toFinset] at hcard
    exact List.dedup_eq_self.mp ((List.dedup_sublist _).eq_of_length hcard)
  · intro hnodup c hc
    have heq : (registrations.map (·.coordinate)).toFinset = t.ranks :=
      Finset.eq_of_subset_of_card_le hsub
        (by rw [hcard, List.toFinset_card_of_nodup hnodup])
    exact List.mem_toFinset.mp (heq ▸ hc)

/-- **Readiness of a prefill deployment.** Throughout a run of consistent registrations the service
is ready only when every rank has an address exactly if there are fewer registrations than make it
ready, or else the number of ranks fits into 64 bits and the registrations that make it ready are of
pairwise different ranks. -/
theorem readyIsComplete_iff (t : PrefillTopology)
    (registrations : List PrefillRouteRegistration) (h : ∀ r ∈ registrations, t.Consistent r) :
    (∀ sofar, sofar <+: registrations → t.ReadyIsComplete sofar) ↔
      registrations.length < max 1 (t.rankCount % 2 ^ 64) ∨
      (t.rankCount < 2 ^ 64 ∧
        ((registrations.take t.rankCount).map (·.coordinate)).Nodup) := by
  have hsub {sofar} (hbefore : sofar <+: registrations) : ∀ r ∈ sofar, t.Consistent r :=
    fun r hr => h r (hbefore.subset hr)
  have hmod : t.rankCount % 2 ^ 64 < 2 ^ 64 := Nat.mod_lt _ (by omega)
  constructor
  · intro hrun
    by_cases hfew : registrations.length < max 1 (t.rankCount % 2 ^ 64)
    · exact .inl hfew
    refine .inr ?_
    -- the registrations that make the service ready
    have hbefore := registrations.take_prefix (max 1 (t.rankCount % 2 ^ 64))
    have hlength : (registrations.take (max 1 (t.rankCount % 2 ^ 64))).length =
        max 1 (t.rankCount % 2 ^ 64) := List.length_take_of_le (Nat.le_of_not_lt hfew)
    have hcovers := readyIsComplete_iff_covers.mp (hrun _ hbefore) <| by
      rw [isReady_registerAll (hsub hbefore), ← List.length_pos_iff, hlength]
      omega
    have hcount := hcovers.rankCount_le
    rw [hlength] at hcount
    have hlt : t.rankCount < 2 ^ 64 := by omega
    refine ⟨hlt, ?_⟩
    rw [Nat.mod_eq_of_lt hlt] at hbefore hlength hcovers
    rcases Nat.eq_zero_or_pos t.rankCount with hzero | hpos
    · simp [hzero]
    · rw [Nat.max_eq_right hpos] at hbefore hlength hcovers
      exact (covers_iff_nodup (hsub hbefore) hlength).mp hcovers
  · rintro hcond sofar hbefore
    rw [readyIsComplete_iff_covers, isReady_registerAll (hsub hbefore), ← List.length_pos_iff]
    rintro ⟨hpos, hready⟩
    have hle := hbefore.length_le
    have hlength := Nat.mod_le sofar.length (2 ^ 64)
    obtain hfew | ⟨hlt, hnodup⟩ := hcond
    · omega
    · rw [Nat.mod_eq_of_lt hlt] at hready
      have htake : registrations.take t.rankCount <+: sofar :=
        List.prefix_of_prefix_length_le (List.take_prefix _ _) hbefore
          ((List.length_take_le _ _).trans (hready.trans hlength))
      refine Covers.mono ((covers_iff_nodup (hsub (List.take_prefix _ _)) ?_).mpr hnodup) htake
      exact List.length_take_of_le (by omega)

/-- A registration of tensor rank `rank` of two. -/
def twoRanks (rank : ℕ) (port : UInt16) : PrefillRouteRegistration where
  attnTpSize := 2
  attnTpRank := rank
  attnCpSize := 1
  attnCpRank := 0
  attnDpSize := 1
  attnDpRank := 0
  ppSize := 1
  ppRank := 0
  systemDpSize := 1
  systemDpRank := 0
  rankIp := "10.0.0.1"
  rankPort := port
  pageSize := some 64
  kvCacheDtype := some "auto"
  loadBalanceMethod := none

theorem consistent_twoRanks {rank : ℕ} (hrank : rank < 2) (port : UInt16) :
    (⟨1, 1, 2, 1⟩ : PrefillTopology).Consistent (twoRanks rank port) :=
  ⟨rfl, rfl, rfl, rfl, by simp [twoRanks, ranks, PrefillRouteRegistration.coordinate,
    PrefillRouteRegistration.dpGroup, hrank]⟩

/-- If both ranks register before one registers again then readiness means completeness. -/
theorem readyIsComplete_twoRanks :
    (⟨1, 1, 2, 1⟩ : PrefillTopology).ReadyIsComplete
      [twoRanks 0 9000, twoRanks 1 9001, twoRanks 0 9002] :=
  (readyIsComplete_iff ⟨1, 1, 2, 1⟩ [twoRanks 0 9000, twoRanks 1 9001, twoRanks 0 9002] <| by
    intro r hr
    simp only [List.mem_cons, List.not_mem_nil, or_false] at hr
    rcases hr with rfl | rfl | rfl <;> exact consistent_twoRanks (by decide) _).mpr
      (.inr (by decide)) _ List.prefix_rfl

/-- A rank that registers twice makes a deployment of two ranks ready. -/
theorem not_readyIsComplete_twoRanks :
    (∀ r ∈ [twoRanks 0 9000, twoRanks 0 9002], (⟨1, 1, 2, 1⟩ : PrefillTopology).Consistent r) ∧
    ¬ (⟨1, 1, 2, 1⟩ : PrefillTopology).ReadyIsComplete [twoRanks 0 9000, twoRanks 0 9002] := by
  refine ⟨fun r hr => ?_, fun h => ?_⟩
  · simp only [List.mem_cons, List.not_mem_nil, or_false] at hr
    rcases hr with rfl | rfl <;> exact consistent_twoRanks (by decide) _
  · obtain ⟨info, hinfo, -⟩ := h (by decide) (0, 0, 1, 0) (by decide)
    exact nomatch hinfo

end PrefillTopology

end SglangRs
