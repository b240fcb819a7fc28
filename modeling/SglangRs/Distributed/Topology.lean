import SglangRs.Arithmetic.Checked
import SglangRs.Collections.Classes

/-!
# The 4D parallel topology

The ranks of a deployment are numbered stage by stage, and the ranks of one pipeline stage are laid
out twice: by attention data and tensor parallelism, and by expert and dense tensor parallelism
(`sglang-srt/src/distributed/parallel_topology.rs`, lines 62–304). The groups that communicate with
each other are the ranks that agree in some of the coordinates.

The size of a stage is checked for overflow, the size of the world is not: `worldSize` is a product
of machine words.

## Main definitions

* `Parallel4DConfig`, `Parallel4DConfig.new`: accepted sizes.
* `Parallel4DConfig.coordinate`, `Parallel4DTopology.new`: the coordinates of the ranks.
* `Parallel4DTopology.attnTpGroupFor` and its siblings, `ppPrevRank`, `ppNextRank`: the queries.
* `PartitionsWorld`: the groups of a kind partition the ranks.

## Main results

* `Parallel4DConfig.Accepted.bijOn_attn`, `Parallel4DConfig.Accepted.bijOn_moe`: both layouts number
  the ranks without gaps.
* `parallel_topology_consistent`: the layouts, the groups and the neighbours in the pipeline.
-/

namespace SglangRs

open Classes

/-- The coordinates of a rank. -/
structure Parallel4DCoordinate where
  globalRank : ℕ
  ppStage : ℕ
  attnDpRank : ℕ
  attnTpRank : ℕ
  epRank : ℕ
  denseTpRank : ℕ
deriving DecidableEq, Repr

/-- The sizes of the parallel groups. -/
structure Parallel4DConfig where
  ppSize : ℕ
  attnDpSize : ℕ
  attnTpSize : ℕ
  epSize : ℕ
  moeDenseTpSize : ℕ
deriving DecidableEq, Repr

inductive ParallelTopologyError where
  | zeroDimension (dimension : String)
  | overflow (field : String)
  | stageSizingMismatch (stageSizeAttn stageSizeMoe : ℕ)
  | rankOutOfBounds (rank worldSize : ℕ)
deriving DecidableEq, Repr

namespace Parallel4DConfig

/-- Source: `parallel_topology.rs`, lines 98–146. -/
def new (ppSize attnDpSize attnTpSize epSize moeDenseTpSize : ℕ) :
    Except ParallelTopologyError Parallel4DConfig :=
  if ppSize = 0 then .error (.zeroDimension "pp_size")
  else if attnDpSize = 0 then .error (.zeroDimension "attn_dp_size")
  else if attnTpSize = 0 then .error (.zeroDimension "attn_tp_size")
  else if epSize = 0 then .error (.zeroDimension "ep_size")
  else if moeDenseTpSize = 0 then .error (.zeroDimension "moe_dense_tp_size")
  else do
    let stageSizeAttn ← okOr (.overflow "stage_size_attn") (checkedMul 64 attnDpSize attnTpSize)
    let stageSizeMoe ← okOr (.overflow "stage_size_moe") (checkedMul 64 epSize moeDenseTpSize)
    if stageSizeAttn ≠ stageSizeMoe then
      .error (.stageSizingMismatch stageSizeAttn stageSizeMoe)
    else return { ppSize, attnDpSize, attnTpSize, epSize, moeDenseTpSize }

variable (c : Parallel4DConfig)

def stageSize : ℕ := c.attnDpSize * c.attnTpSize

/-- The number of ranks, as a machine word. -/
def worldSize : ℕ := c.ppSize * c.stageSize % 2 ^ 64

/-- The coordinates of a rank: the body of the loop of `Parallel4DTopology::new`. -/
def coordinate (g : ℕ) : Parallel4DCoordinate :=
  let intraStage := g % c.stageSize
  { globalRank := g
    ppStage := g / c.stageSize
    attnDpRank := intraStage / c.attnTpSize
    attnTpRank := intraStage % c.attnTpSize
    epRank := intraStage / c.moeDenseTpSize
    denseTpRank := intraStage % c.moeDenseTpSize }

end Parallel4DConfig

structure Parallel4DTopology where
  config : Parallel4DConfig
  worldSize : ℕ
  ranks : List Parallel4DCoordinate

namespace Parallel4DTopology

/-- Source: `parallel_topology.rs`, lines 162–192. The source returns a `Result` that is always
`Ok`. -/
def new (config : Parallel4DConfig) : Parallel4DTopology where
  config := config
  worldSize := config.worldSize
  ranks := (List.range config.worldSize).map config.coordinate

variable (t : Parallel4DTopology)

def coordinateOf (rank : ℕ) : Except ParallelTopologyError Parallel4DCoordinate :=
  okOr (.rankOutOfBounds rank t.worldSize) t.ranks[rank]?

/-- The ranks that agree with the given one on a key. -/
def groupFor {κ : Type} [DecidableEq κ] (key : Parallel4DCoordinate → κ) (rank : ℕ) :
    Except ParallelTopologyError (List ℕ) := do
  let coord ← t.coordinateOf rank
  return (t.ranks.filter fun c => key c = key coord).map Parallel4DCoordinate.globalRank

/-- Source: `parallel_topology.rs`, lines 216–228. -/
def attnTpGroupFor (rank : ℕ) : Except ParallelTopologyError (List ℕ) :=
  t.groupFor (fun c => (c.ppStage, c.attnDpRank)) rank

/-- Source: `parallel_topology.rs`, lines 231–243. -/
def attnDpGroupFor (rank : ℕ) : Except ParallelTopologyError (List ℕ) :=
  t.groupFor (fun c => (c.ppStage, c.attnTpRank)) rank

/-- Source: `parallel_topology.rs`, lines 246–255. -/
def epGroupFor (rank : ℕ) : Except ParallelTopologyError (List ℕ) :=
  t.groupFor (fun c => (c.ppStage, c.denseTpRank)) rank

/-- Source: `parallel_topology.rs`, lines 258–269. -/
def ppGroupFor (rank : ℕ) : Except ParallelTopologyError (List ℕ) :=
  t.groupFor (fun c => (c.attnDpRank, c.attnTpRank)) rank

/-- Source: `parallel_topology.rs`, lines 272–286. -/
def ppPrevRank (rank : ℕ) : Except ParallelTopologyError (Option ℕ) := do
  let coord ← t.coordinateOf rank
  if coord.ppStage = 0 then return none
  else
    let prevStage := coord.ppStage - 1
    let intraStage := rank % t.config.stageSize
    return some (prevStage * t.config.stageSize + intraStage)

/-- Source: `parallel_topology.rs`, lines 289–303. -/
def ppNextRank (rank : ℕ) : Except ParallelTopologyError (Option ℕ) := do
  let coord ← t.coordinateOf rank
  if coord.ppStage + 1 ≥ t.config.ppSize then return none
  else
    let nextStage := coord.ppStage + 1
    let intraStage := rank % t.config.stageSize
    return some (nextStage * t.config.stageSize + intraStage)

end Parallel4DTopology

/-! ### Both layouts of a stage -/

namespace Parallel4DConfig

/-- What `new` checks, and that the size of the world fits into a machine word. -/
structure Accepted (c : Parallel4DConfig) : Prop where
  ppSize_pos : 0 < c.ppSize
  attnDpSize_pos : 0 < c.attnDpSize
  attnTpSize_pos : 0 < c.attnTpSize
  epSize_pos : 0 < c.epSize
  moeDenseTpSize_pos : 0 < c.moeDenseTpSize
  stageSize_eq : c.attnDpSize * c.attnTpSize = c.epSize * c.moeDenseTpSize
  worldSize_lt : c.ppSize * (c.attnDpSize * c.attnTpSize) < 2 ^ 64

variable {c : Parallel4DConfig} {g : ℕ}

theorem accepted_of_new {ppSize attnDpSize attnTpSize epSize moeDenseTpSize : ℕ}
    (h : new ppSize attnDpSize attnTpSize epSize moeDenseTpSize = .ok c)
    (hworld : ppSize * (attnDpSize * attnTpSize) < 2 ^ 64) :
    c.Accepted ∧ c.ppSize = ppSize ∧ c.attnDpSize = attnDpSize ∧ c.attnTpSize = attnTpSize ∧
      c.epSize = epSize ∧ c.moeDenseTpSize = moeDenseTpSize := by
  unfold new at h
  split_ifs at h with hpp hdp htp hep hdense
  obtain ⟨attn, hattn, h⟩ := Except.bind_eq_ok.mp h
  obtain ⟨moe, hmoe, h⟩ := Except.bind_eq_ok.mp h
  obtain ⟨-, rfl⟩ := okOr_checkedMul_eq_ok.mp hattn
  obtain ⟨-, rfl⟩ := okOr_checkedMul_eq_ok.mp hmoe
  split_ifs at h with hsizes
  obtain rfl := Except.ok.inj h
  exact ⟨⟨Nat.pos_of_ne_zero hpp, Nat.pos_of_ne_zero hdp, Nat.pos_of_ne_zero htp,
    Nat.pos_of_ne_zero hep, Nat.pos_of_ne_zero hdense, not_not.mp hsizes, hworld⟩,
    rfl, rfl, rfl, rfl, rfl⟩

namespace Accepted

variable (h : c.Accepted)
include h

theorem stageSize_pos : 0 < c.stageSize := Nat.mul_pos h.attnDpSize_pos h.attnTpSize_pos

theorem worldSize_eq : c.worldSize = c.ppSize * c.stageSize := Nat.mod_eq_of_lt h.worldSize_lt

/-- A layout of a stage with `a` rows of `b` ranks numbers the ranks without gaps. -/
theorem bijOn_of_stageSize {a b : ℕ} (hb : 0 < b) (hab : c.stageSize = a * b) :
    Set.BijOn (fun g => (g / c.stageSize, g % c.stageSize / b, g % c.stageSize % b))
      { g | g < c.worldSize } { x | x.1 < c.ppSize ∧ x.2.1 < a ∧ x.2.2 < b } := by
  rw [h.worldSize_eq]
  refine ⟨fun g hg => ?_, fun g hg g' hg' heq => ?_, fun x hx => ?_⟩
  · obtain ⟨hstage, hintra⟩ := (lt_mul_iff h.stageSize_pos).mp hg
    have hlayout : g % c.stageSize < a * b := by rwa [← hab]
    obtain ⟨hrow, hcolumn⟩ := (lt_mul_iff hb).mp hlayout
    exact ⟨hstage, hrow, hcolumn⟩
  · obtain ⟨hstage, hrest⟩ := Prod.mk.inj heq
    obtain ⟨hrow, hcolumn⟩ := Prod.mk.inj hrest
    have hintra : g % c.stageSize = g' % c.stageSize := by
      rw [← Nat.div_add_mod (g % c.stageSize) b, hrow, hcolumn, Nat.div_add_mod]
    rw [← Nat.div_add_mod g c.stageSize, hstage, hintra, Nat.div_add_mod]
  · obtain ⟨p, d, e⟩ := x
    obtain ⟨hp, hd, he⟩ := hx
    have hintra : d * b + e < c.stageSize := hab ▸ mul_add_lt hd he
    obtain ⟨hdiv, hmod⟩ := (div_mod_iff hintra).mpr (rfl : p * c.stageSize + (d * b + e) = _)
    obtain ⟨hrow, hcolumn⟩ := (div_mod_iff he).mpr (rfl : d * b + e = _)
    refine ⟨p * c.stageSize + (d * b + e), mul_add_lt hp hintra, ?_⟩
    simp only [hdiv, hmod, hrow, hcolumn]

/-- Rank and attention coordinates determine each other. -/
theorem bijOn_attn : Set.BijOn
    (fun g => ((c.coordinate g).ppStage, (c.coordinate g).attnDpRank, (c.coordinate g).attnTpRank))
    { g | g < c.worldSize } { x | x.1 < c.ppSize ∧ x.2.1 < c.attnDpSize ∧ x.2.2 < c.attnTpSize } :=
  h.bijOn_of_stageSize h.attnTpSize_pos rfl

/-- Rank and expert coordinates determine each other. -/
theorem bijOn_moe : Set.BijOn
    (fun g => ((c.coordinate g).ppStage, (c.coordinate g).epRank, (c.coordinate g).denseTpRank))
    { g | g < c.worldSize }
    { x | x.1 < c.ppSize ∧ x.2.1 < c.epSize ∧ x.2.2 < c.moeDenseTpSize } :=
  h.bijOn_of_stageSize h.moeDenseTpSize_pos h.stageSize_eq

/-- The ranks of one row of a layout. -/
theorem length_classOf_row {a b : ℕ} (hb : 0 < b) (hab : c.stageSize = a * b)
    (hg : g < c.worldSize) :
    (classOf c.worldSize (fun g => (g / c.stageSize, g % c.stageSize / b)) g).length = b := by
  rw [h.worldSize_eq] at hg ⊢
  obtain ⟨hstage, hintra⟩ := (lt_mul_iff h.stageSize_pos).mp hg
  have hrow : g % c.stageSize / b < a := ((lt_mul_iff hb).mp (hab ▸ hintra : _ < a * b)).1
  refine length_classOf
    (f := fun k => g / c.stageSize * c.stageSize + (g % c.stageSize / b * b + k))
    (fun k k' heq => by simpa using heq) fun j => ⟨fun hj => ?_, ?_⟩
  · obtain ⟨hdiv, hdiv'⟩ := Prod.mk.inj hj.2
    refine ⟨j % c.stageSize % b, Nat.mod_lt _ hb, ?_⟩
    rw [← hdiv, ← hdiv', Nat.div_add_mod', Nat.div_add_mod']
  · rintro ⟨k, hk, rfl⟩
    have hlt : g % c.stageSize / b * b + k < c.stageSize := by
      rw [hab]
      exact mul_add_lt (hab ▸ hrow) hk
    obtain ⟨hdiv, hmod⟩ := (div_mod_iff hlt).mpr
      (rfl : g / c.stageSize * c.stageSize + (g % c.stageSize / b * b + k) = _)
    obtain ⟨hdiv', -⟩ := (div_mod_iff hk).mpr (rfl : g % c.stageSize / b * b + k = _)
    exact ⟨mul_add_lt hstage hlt, by rw [hdiv, hmod, hdiv']⟩

/-- The ranks of one column of a layout. -/
theorem length_classOf_column {a b : ℕ} (hb : 0 < b) (hab : c.stageSize = a * b)
    (hg : g < c.worldSize) :
    (classOf c.worldSize (fun g => (g / c.stageSize, g % c.stageSize % b)) g).length = a := by
  rw [h.worldSize_eq] at hg ⊢
  obtain ⟨hstage, hintra⟩ := (lt_mul_iff h.stageSize_pos).mp hg
  have hcolumn : g % c.stageSize % b < b := Nat.mod_lt _ hb
  refine length_classOf
    (f := fun k => g / c.stageSize * c.stageSize + (k * b + g % c.stageSize % b))
    (fun k k' heq => Nat.eq_of_mul_eq_mul_right hb (by simpa using heq)) fun j => ⟨fun hj => ?_, ?_⟩
  · obtain ⟨hdiv, hmod⟩ := Prod.mk.inj hj.2
    obtain ⟨-, hj'⟩ := (lt_mul_iff h.stageSize_pos).mp hj.1
    refine ⟨j % c.stageSize / b, ((lt_mul_iff hb).mp (hab ▸ hj' : _ < a * b)).1, ?_⟩
    rw [← hdiv, ← hmod, Nat.div_add_mod', Nat.div_add_mod']
  · rintro ⟨k, hk, rfl⟩
    have hlt : k * b + g % c.stageSize % b < c.stageSize := by
      conv_rhs => rw [hab]
      exact mul_add_lt hk hcolumn
    obtain ⟨hdiv, hmod⟩ := (div_mod_iff hlt).mpr
      (rfl : g / c.stageSize * c.stageSize + (k * b + g % c.stageSize % b) = _)
    obtain ⟨-, hmod'⟩ := (div_mod_iff hcolumn).mpr (rfl : k * b + g % c.stageSize % b = _)
    exact ⟨mul_add_lt hstage hlt, by rw [hdiv, hmod, hmod']⟩

/-- The ranks at one place of all stages. -/
theorem length_classOf_place {b : ℕ} :
    (classOf c.worldSize (fun g => (g % c.stageSize / b, g % c.stageSize % b)) g).length =
      c.ppSize := by
  rw [h.worldSize_eq]
  have hintra := Nat.mod_lt g h.stageSize_pos
  refine length_classOf (f := fun k => k * c.stageSize + g % c.stageSize)
    (fun k k' heq => Nat.eq_of_mul_eq_mul_right h.stageSize_pos (by simpa using heq))
    fun j => ⟨fun hj => ?_, ?_⟩
  · obtain ⟨hdiv, hmod⟩ := Prod.mk.inj hj.2
    refine ⟨j / c.stageSize, ((lt_mul_iff h.stageSize_pos).mp hj.1).1, ?_⟩
    rw [← Nat.div_add_mod (g % c.stageSize) b, ← hdiv, ← hmod, Nat.div_add_mod, Nat.div_add_mod']
  · rintro ⟨k, hk, rfl⟩
    obtain ⟨-, hmod⟩ := (div_mod_iff hintra).mpr (rfl : k * c.stageSize + g % c.stageSize = _)
    exact ⟨mul_add_lt hk hintra, by rw [hmod]⟩

end Accepted

end Parallel4DConfig

/-! ### The groups -/

/-- Every rank has a group of the given size, of ranks of the world and with the rank itself among
them, and the groups of two ranks are the same or disjoint. -/
structure PartitionsWorld (worldSize size : ℕ)
    (groupFor : ℕ → Except ParallelTopologyError (List ℕ)) : Prop where
  exists_group : ∀ rank < worldSize, ∃ group, groupFor rank = .ok group ∧ rank ∈ group ∧
    group.Nodup ∧ group.length = size ∧ ∀ r ∈ group, r < worldSize
  eq_or_disjoint : ∀ rank rank' group group', groupFor rank = .ok group →
    groupFor rank' = .ok group' → group = group' ∨ group.Disjoint group'

namespace Parallel4DTopology

variable {c : Parallel4DConfig} {rank : ℕ}

theorem coordinateOf_new (hrank : rank < c.worldSize) :
    (new c).coordinateOf rank = .ok (c.coordinate rank) := by
  simp [coordinateOf, new, hrank]

theorem lt_of_coordinateOf {coord : Parallel4DCoordinate}
    (h : (new c).coordinateOf rank = .ok coord) : rank < c.worldSize := by
  rw [coordinateOf, okOr_eq_ok] at h
  simpa [new] using (List.getElem?_eq_some_iff.mp h).1

section Group

variable {κ : Type} [DecidableEq κ] {key : Parallel4DCoordinate → κ}

/-- A group is a class of ranks. -/
theorem groupFor_new (hrank : rank < c.worldSize) : (new c).groupFor key rank =
    .ok (classOf c.worldSize (fun g => key (c.coordinate g)) rank) := by
  have hranks (ranks : List ℕ) (coord : Parallel4DCoordinate) :
      ((ranks.map c.coordinate).filter fun c => key c = key coord).map
        Parallel4DCoordinate.globalRank =
      ranks.filter fun g => key (c.coordinate g) = key coord := by
    rw [List.filter_map, List.map_map]
    exact List.map_id _
  simp only [groupFor, coordinateOf_new hrank, bind, Except.bind, pure, Except.pure]
  exact congrArg Except.ok (hranks _ _)

theorem lt_of_groupFor {group : List ℕ} (h : (new c).groupFor key rank = .ok group) :
    rank < c.worldSize := by
  obtain ⟨coord, hcoord, -⟩ := Except.bind_eq_ok.mp h
  exact lt_of_coordinateOf hcoord

theorem partitionsWorld_groupFor {size : ℕ} (hsize : ∀ rank < c.worldSize,
    (classOf c.worldSize (fun g => key (c.coordinate g)) rank).length = size) :
    PartitionsWorld c.worldSize size ((new c).groupFor key) where
  exists_group rank hrank := ⟨_, groupFor_new hrank, mem_classOf_self hrank, nodup_classOf _ _ _,
    hsize rank hrank, fun r hr => (mem_classOf.mp hr).1⟩
  eq_or_disjoint rank rank' group group' hgroup hgroup' := by
    rw [groupFor_new (lt_of_groupFor hgroup)] at hgroup
    rw [groupFor_new (lt_of_groupFor hgroup')] at hgroup'
    rw [← Except.ok.inj hgroup, ← Except.ok.inj hgroup']
    exact classOf_eq_or_disjoint _ _ _ _

end Group

/-- The groups of the four kinds. -/
theorem partitionsWorld (h : c.Accepted) :
    PartitionsWorld c.worldSize c.attnTpSize (new c).attnTpGroupFor ∧
      PartitionsWorld c.worldSize c.attnDpSize (new c).attnDpGroupFor ∧
      PartitionsWorld c.worldSize c.epSize (new c).epGroupFor ∧
      PartitionsWorld c.worldSize c.ppSize (new c).ppGroupFor :=
  ⟨partitionsWorld_groupFor fun _ hrank => h.length_classOf_row h.attnTpSize_pos rfl hrank,
    partitionsWorld_groupFor fun _ hrank => h.length_classOf_column h.attnTpSize_pos rfl hrank,
    partitionsWorld_groupFor fun _ hrank =>
      h.length_classOf_column h.moeDenseTpSize_pos h.stageSize_eq hrank,
    partitionsWorld_groupFor fun _ _ => h.length_classOf_place⟩

/-- A tensor parallel and a data parallel group of one stage meet in one rank: that of the row of
the one and the column of the other. -/
theorem existsUnique_attn (h : c.Accepted) {rank' : ℕ} {tpGroup dpGroup : List ℕ}
    (htp : (new c).attnTpGroupFor rank = .ok tpGroup)
    (hdp : (new c).attnDpGroupFor rank' = .ok dpGroup)
    (hstage : (c.coordinate rank).ppStage = (c.coordinate rank').ppStage) :
    ∃! r, r ∈ tpGroup ∧ r ∈ dpGroup := by
  have hrank := lt_of_groupFor htp
  have hrank' := lt_of_groupFor hdp
  rw [attnTpGroupFor, groupFor_new hrank] at htp
  rw [attnDpGroupFor, groupFor_new hrank'] at hdp
  rw [← Except.ok.inj htp, ← Except.ok.inj hdp]
  obtain ⟨hmaps, hinj, hsurj⟩ := h.bijOn_attn
  obtain ⟨hp, hd, -⟩ := hmaps hrank
  obtain ⟨-, -, he⟩ := hmaps hrank'
  obtain ⟨r, hr, heq⟩ := hsurj (show ((c.coordinate rank).ppStage, (c.coordinate rank).attnDpRank,
    (c.coordinate rank').attnTpRank) ∈ _ from ⟨hp, hd, he⟩)
  obtain ⟨hrp, hrest⟩ := Prod.mk.inj heq
  obtain ⟨hrd, hre⟩ := Prod.mk.inj hrest
  refine ⟨r, ⟨mem_classOf.mpr ⟨hr, by rw [hrp, hrd]⟩,
    mem_classOf.mpr ⟨hr, by rw [hrp, hre, hstage]⟩⟩, ?_⟩
  rintro r' ⟨hrow, hcolumn⟩
  obtain ⟨hr', hrow⟩ := mem_classOf.mp hrow
  obtain ⟨hp', hd'⟩ := Prod.mk.inj hrow
  obtain ⟨-, he'⟩ := Prod.mk.inj (mem_classOf.mp hcolumn).2
  refine hinj hr' hr ?_
  dsimp only
  rw [hrp, hrd, hre, hp', hd', he']

/-! ### Neighbours in the pipeline -/

theorem ppNextRank_new (hrank : rank < c.worldSize) : (new c).ppNextRank rank =
    .ok (if rank / c.stageSize + 1 < c.ppSize then some (rank + c.stageSize) else none) := by
  have hnext :
      (rank / c.stageSize + 1) * c.stageSize + rank % c.stageSize = rank + c.stageSize := by
    rw [Nat.succ_mul, Nat.add_right_comm, Nat.div_add_mod']
  rw [ppNextRank, coordinateOf_new hrank]
  by_cases hlast : rank / c.stageSize + 1 < c.ppSize
  · simp [bind, Except.bind, new, Parallel4DConfig.coordinate, hlast, hnext, pure, Except.pure]
  · simp [bind, Except.bind, new, Parallel4DConfig.coordinate, hlast, pure, Except.pure]

theorem ppPrevRank_new (h : c.Accepted) (hrank : rank < c.worldSize) : (new c).ppPrevRank rank =
    .ok (if rank < c.stageSize then none else some (rank - c.stageSize)) := by
  rw [ppPrevRank, coordinateOf_new hrank]
  by_cases hfirst : rank < c.stageSize
  · have hstage : rank / c.stageSize = 0 := Nat.div_eq_of_lt hfirst
    simp [bind, Except.bind, Parallel4DConfig.coordinate, hfirst, hstage, pure, Except.pure]
  · have hstage : rank / c.stageSize ≠ 0 := fun h0 =>
      hfirst ((Nat.div_eq_zero_iff_lt h.stageSize_pos).mp h0)
    have hprev : (rank / c.stageSize - 1) * c.stageSize + rank % c.stageSize =
        rank - c.stageSize := by
      rw [Nat.sub_one_mul,
        ← Nat.sub_add_comm (Nat.le_mul_of_pos_left _ (Nat.pos_of_ne_zero hstage)),
        Nat.div_add_mod']
    simp [bind, Except.bind, new, Parallel4DConfig.coordinate, hfirst, hstage, hprev, pure,
      Except.pure]

/-- The next rank is one stage further, where that is a rank. -/
theorem ppNextRank_eq_some_iff (h : c.Accepted) {next : ℕ} :
    (new c).ppNextRank rank = .ok (some next) ↔ next < c.worldSize ∧ next = rank + c.stageSize := by
  have hstage : rank / c.stageSize + 1 < c.ppSize ↔ rank + c.stageSize < c.worldSize := by
    rw [h.worldSize_eq, ← Nat.add_div_right _ h.stageSize_pos,
      Nat.div_lt_iff_lt_mul h.stageSize_pos]
  constructor
  · intro hnext
    obtain ⟨coord, hcoord, -⟩ := Except.bind_eq_ok.mp hnext
    rw [ppNextRank_new (lt_of_coordinateOf hcoord), Except.ok.injEq] at hnext
    split_ifs at hnext with hlast
    obtain rfl := Option.some.inj hnext
    exact ⟨hstage.mp hlast, rfl⟩
  · rintro ⟨hnext, rfl⟩
    rw [ppNextRank_new (Nat.lt_of_le_of_lt (Nat.le_add_right _ _) hnext),
      if_pos (hstage.mpr hnext)]

/-- The previous rank is one stage before. -/
theorem ppPrevRank_eq_some_iff (h : c.Accepted) {prev : ℕ} :
    (new c).ppPrevRank rank = .ok (some prev) ↔ rank < c.worldSize ∧ rank = prev + c.stageSize := by
  constructor
  · intro hprev
    obtain ⟨coord, hcoord, -⟩ := Except.bind_eq_ok.mp hprev
    have hrank := lt_of_coordinateOf hcoord
    rw [ppPrevRank_new h hrank, Except.ok.injEq] at hprev
    split_ifs at hprev with hfirst
    obtain rfl := Option.some.inj hprev
    exact ⟨hrank, (Nat.sub_add_cancel (Nat.le_of_not_lt hfirst)).symm⟩
  · rintro ⟨hrank, rfl⟩
    rw [ppPrevRank_new h hrank, if_neg (Nat.not_lt.mpr (Nat.le_add_left _ _)), Nat.add_sub_cancel]

/-- The ranks at the same place of a stage are in the pipeline group. -/
theorem mem_ppGroupFor {r : ℕ} {group : List ℕ} (hr : r < c.worldSize)
    (hplace : r % c.stageSize = rank % c.stageSize)
    (hgroup : (new c).ppGroupFor rank = .ok group) : r ∈ group := by
  rw [ppGroupFor, groupFor_new (lt_of_groupFor hgroup)] at hgroup
  rw [← Except.ok.inj hgroup, mem_classOf]
  exact ⟨hr, by simp only [Parallel4DConfig.coordinate, hplace]⟩

end Parallel4DTopology

open Parallel4DTopology in
/-- **The 4D topology is consistent.** For accepted sizes whose product is a machine word, both
layouts number the ranks without gaps, the groups of the four kinds partition the world, a tensor
parallel and a data parallel group of one stage meet in one rank, and the neighbours in the pipeline
are inverse to each other and in one pipeline group. The pipeline ends with the last stage. -/
theorem parallel_topology_consistent {ppSize attnDpSize attnTpSize epSize moeDenseTpSize : ℕ}
    {c : Parallel4DConfig}
    (hc : Parallel4DConfig.new ppSize attnDpSize attnTpSize epSize moeDenseTpSize = .ok c)
    (hworld : ppSize * (attnDpSize * attnTpSize) < 2 ^ 64) :
    c.worldSize = ppSize * (attnDpSize * attnTpSize) ∧
    (∀ rank < c.worldSize, (new c).coordinateOf rank = .ok (c.coordinate rank)) ∧
    Set.BijOn (fun rank => ((c.coordinate rank).ppStage, (c.coordinate rank).attnDpRank,
        (c.coordinate rank).attnTpRank))
      { rank | rank < c.worldSize } { x | x.1 < ppSize ∧ x.2.1 < attnDpSize ∧ x.2.2 < attnTpSize } ∧
    Set.BijOn (fun rank => ((c.coordinate rank).ppStage, (c.coordinate rank).epRank,
        (c.coordinate rank).denseTpRank))
      { rank | rank < c.worldSize } { x | x.1 < ppSize ∧ x.2.1 < epSize ∧ x.2.2 < moeDenseTpSize } ∧
    (PartitionsWorld c.worldSize attnTpSize (new c).attnTpGroupFor ∧
      PartitionsWorld c.worldSize attnDpSize (new c).attnDpGroupFor ∧
      PartitionsWorld c.worldSize epSize (new c).epGroupFor ∧
      PartitionsWorld c.worldSize ppSize (new c).ppGroupFor) ∧
    (∀ rank rank' tpGroup dpGroup, (new c).attnTpGroupFor rank = .ok tpGroup →
      (new c).attnDpGroupFor rank' = .ok dpGroup →
      (c.coordinate rank).ppStage = (c.coordinate rank').ppStage →
      ∃! r, r ∈ tpGroup ∧ r ∈ dpGroup) ∧
    (∀ rank next, (new c).ppNextRank rank = .ok (some next) ↔
      (new c).ppPrevRank next = .ok (some rank)) ∧
    (∀ rank r group,
      (new c).ppNextRank rank = .ok (some r) ∨ (new c).ppPrevRank rank = .ok (some r) →
      (new c).ppGroupFor rank = .ok group → r ∈ group) ∧
    ∀ rank < c.worldSize,
      ((new c).ppNextRank rank = .ok none ↔ (c.coordinate rank).ppStage + 1 = ppSize) ∧
      ((new c).ppPrevRank rank = .ok none ↔ (c.coordinate rank).ppStage = 0) := by
  obtain ⟨h, rfl, rfl, rfl, rfl, rfl⟩ := Parallel4DConfig.accepted_of_new hc hworld
  refine ⟨h.worldSize_eq, fun rank hrank => coordinateOf_new hrank, h.bijOn_attn, h.bijOn_moe,
    partitionsWorld h, fun rank rank' _ _ htp hdp hstage => existsUnique_attn h htp hdp hstage,
    fun rank next => ?_, fun rank r group hr hgroup => ?_, fun rank hrank => ⟨?_, ?_⟩⟩
  · rw [ppNextRank_eq_some_iff h, ppPrevRank_eq_some_iff h]
  · rcases hr with hr | hr
    · obtain ⟨hlt, rfl⟩ := (ppNextRank_eq_some_iff h).mp hr
      exact mem_ppGroupFor hlt (Nat.add_mod_right _ _) hgroup
    · obtain ⟨hlt, rfl⟩ := (ppPrevRank_eq_some_iff h).mp hr
      exact mem_ppGroupFor (Nat.lt_of_le_of_lt (Nat.le_add_right _ _) hlt)
        (Nat.add_mod_right _ _).symm hgroup
  · have hstage := (h.bijOn_attn.mapsTo hrank).1
    simp only [Parallel4DConfig.coordinate] at hstage ⊢
    rw [ppNextRank_new hrank, Except.ok.injEq, ite_eq_right_iff]
    simp only [reduceCtorEq, imp_false]
    omega
  · rw [ppPrevRank_new h hrank, Except.ok.injEq, ite_eq_left_iff]
    simp only [reduceCtorEq, imp_false, not_not]
    exact (Nat.div_eq_zero_iff_lt h.stageSize_pos).symm

/-- Two stages of four ranks, as two by two and as four by one. -/
theorem parallel_topology_consistent_of_two_stages :
    ∃ c, Parallel4DConfig.new 2 2 2 4 1 = .ok c ∧ c.worldSize = 8 ∧
      ∀ rank next, (Parallel4DTopology.new c).ppNextRank rank = .ok (some next) ↔
        (Parallel4DTopology.new c).ppPrevRank next = .ok (some rank) := by
  have hnew : Parallel4DConfig.new 2 2 2 4 1 = .ok ⟨2, 2, 2, 4, 1⟩ := by decide
  obtain ⟨hworld, -, -, -, -, -, hneighbours, -⟩ := parallel_topology_consistent hnew (by decide)
  exact ⟨_, hnew, hworld, hneighbours⟩

end SglangRs
