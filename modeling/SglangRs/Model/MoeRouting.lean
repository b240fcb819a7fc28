import SglangRs.Arithmetic.Checked
import SglangRs.Collections.Classes
import SglangRs.Collections.TopK
import SglangRs.Wire.Slices

/-!
# Routing tokens to experts

A mixture-of-experts layer sends every token to the experts with the best scores
(`sglang-srt/src/moe.rs`, lines 18–191). The experts form groups of one size. The groups are ranked
by the sum of their two best scores, and the experts are taken from the best groups only.

Floats are the elements of a linear order, which is that of `f32::total_cmp`; arithmetic and the
comparisons of IEEE 754 are abstract functions. An index out of range is a panic.

## Main definitions

* `FloatOps`: the operations on floats that the router uses.
* `MoeRouter.new`, `MoeRouter.route`.
* `SelectsBest`: the experts and the groups that a selection is to consist of.

## Main results

* `MoeRouter.returns_route`: no index is out of range.
* `moe_routing_selects_best`: what is selected.
-/

namespace SglangRs

open TopK

/-- The operations on `f32` that the router uses. -/
class FloatOps (α : Type) where
  zero : α
  one : α
  negInfinity : α
  add : α → α → α
  sub : α → α → α
  mul : α → α → α
  div : α → α → α
  max : α → α → α
  neg : α → α
  exp : α → α
  sum : List α → α
  isFinite : α → Bool
  le : α → α → Bool
  lt : α → α → Bool

inductive RouterActivation where
  | sigmoid
  | softmax
deriving DecidableEq, Repr

structure MoeFeedForwardConfig (α : Type) where
  routedExpertCount : ℕ
  expertsPerToken : ℕ
  expertGroupCount : ℕ
  selectedExpertGroupCount : ℕ
  expertIntermediateSize : ℕ
  renormalize : Bool
  routerActivation : RouterActivation
  routedScalingFactor : α

structure RoutedExpert (α : Type) where
  index : ℕ
  weight : α
deriving DecidableEq

inductive MoeRoutingError (α : Type) where
  | zeroDimension (dimension : String)
  | expertsPerTokenOutOfRange (expertsPerToken routedExpertCount : ℕ)
  | unevenExpertGroups (routedExpertCount expertGroupCount : ℕ)
  | selectedGroupCountOutOfRange (selected available : ℕ)
  | selectedGroupsTooSmall (expertsPerToken selectedCapacity : ℕ)
  | invalidScalingFactor (value : α)
  | correctionBiasCountMismatch (expected actual : ℕ)
  | logitCountMismatch (expected actual : ℕ)
  | nonFiniteLogit (index : ℕ) (value : α)
  | nonFiniteSelectionScore (index : ℕ) (value : α)
  | invalidNormalization (sum : α)
  | invalidRoutedWeight (index : ℕ) (weight : α)
  | shapeOverflow
deriving DecidableEq

structure MoeRouter (α : Type) where
  config : MoeFeedForwardConfig α
  correctionBias : Option (List α)

/-- The elements of a list with their indices. -/
def enumerate {α : Type} (values : List α) : List (ℕ × α) := values.zipIdx.map Prod.swap

section Floats

variable {α : Type} [FloatOps α]

/-- Source: `moe.rs`, lines 306–313. -/
def stableSigmoid (value : α) : α :=
  if FloatOps.le FloatOps.zero value then
    FloatOps.div FloatOps.one (FloatOps.add FloatOps.one (FloatOps.exp (FloatOps.neg value)))
  else
    let exponent := FloatOps.exp value
    FloatOps.div exponent (FloatOps.add FloatOps.one exponent)

/-- Source: `moe.rs`, lines 315–326. -/
def normalizedExponentials (values : List α) : RustResult (MoeRoutingError α) (List α) :=
  let maximum := values.foldl FloatOps.max FloatOps.negInfinity
  let exponentials := values.map fun value => FloatOps.exp (FloatOps.sub value maximum)
  let sum := FloatOps.sum exponentials
  if !FloatOps.isFinite sum || FloatOps.le sum FloatOps.zero then .err (.invalidNormalization sum)
  else .ok (exponentials.map fun value => FloatOps.div value sum)

/-- The first element that is not finite. -/
def findNonFinite (values : List α) : Option (ℕ × α) :=
  (enumerate values).find? fun entry => !FloatOps.isFinite entry.2

end Floats

namespace MoeRouter

section Definitions

variable {α : Type} [FloatOps α]

/-- Source: `moe.rs`, lines 19–84. -/
def new (config : MoeFeedForwardConfig α) (correctionBias : Option (List α)) :
    Except (MoeRoutingError α) (MoeRouter α) :=
  if config.routedExpertCount = 0 then .error (.zeroDimension "routed_expert_count")
  else if config.expertsPerToken = 0 then .error (.zeroDimension "experts_per_token")
  else if config.expertsPerToken > config.routedExpertCount then
    .error (.expertsPerTokenOutOfRange config.expertsPerToken config.routedExpertCount)
  else if config.expertGroupCount = 0 then .error (.zeroDimension "expert_group_count")
  else if config.routedExpertCount % config.expertGroupCount ≠ 0 then
    .error (.unevenExpertGroups config.routedExpertCount config.expertGroupCount)
  else if config.selectedExpertGroupCount = 0 ∨
      config.selectedExpertGroupCount > config.expertGroupCount then
    .error (.selectedGroupCountOutOfRange config.selectedExpertGroupCount config.expertGroupCount)
  else do
    let expertsPerGroup := config.routedExpertCount / config.expertGroupCount
    let selectedCapacity ←
      okOr .shapeOverflow (checkedMul 64 expertsPerGroup config.selectedExpertGroupCount)
    if config.expertsPerToken > selectedCapacity then
      .error (.selectedGroupsTooSmall config.expertsPerToken selectedCapacity)
    else if config.expertIntermediateSize = 0 then
      .error (.zeroDimension "expert_intermediate_size")
    else if !FloatOps.isFinite config.routedScalingFactor ||
        FloatOps.le config.routedScalingFactor FloatOps.zero then
      .error (.invalidScalingFactor config.routedScalingFactor)
    else match correctionBias with
      | none => return { config, correctionBias }
      | some bias =>
          if bias.length ≠ config.routedExpertCount then
            .error (.correctionBiasCountMismatch config.routedExpertCount bias.length)
          else return { config, correctionBias }

variable [LinearOrder α] (router : MoeRouter α)

def probabilities (logits : List α) : RustResult (MoeRoutingError α) (List α) :=
  match router.config.routerActivation with
  | .sigmoid => .ok (logits.map stableSigmoid)
  | .softmax => normalizedExponentials logits

def selectionScore (expert : ℕ) (probability : α) : RustResult (MoeRoutingError α) α :=
  match router.correctionBias with
  | none => .ok (FloatOps.add probability FloatOps.zero)
  | some bias => do
      let value ← elementAt bias expert
      return FloatOps.add probability value

def selectionScores (probabilities : List α) : RustResult (MoeRoutingError α) (List α) :=
  RustResult.collect (fun entry => router.selectionScore entry.1 entry.2) (enumerate probabilities)

/-- The number of a group with the sum of its two best scores. -/
def groupScore (selectionScores : List α) (expertsPerGroup group : ℕ) :
    RustResult (MoeRoutingError α) (ℕ × α) := do
  let start := group * expertsPerGroup
  let scores ← elementsAt selectionScores start (start + expertsPerGroup)
  let sorted := sortBy (fun left right => compare right left) scores
  return (group, FloatOps.sum (sorted.take 2))

/-- The loop that marks the selected groups. -/
def markGroups : List (ℕ × α) → List Bool → RustResult (MoeRoutingError α) (List Bool)
  | [], selectedGroups => .ok selectedGroups
  | (group, _) :: groups, selectedGroups => do
      let selectedGroups ← setElement selectedGroups group true
      markGroups groups selectedGroups

/-- The experts that are selected, with their scores. -/
def selectExperts (selectionScores : List α) : RustResult (MoeRoutingError α) (List (ℕ × α)) := do
  let expertsPerGroup := router.config.routedExpertCount / router.config.expertGroupCount
  let groupScores ← RustResult.collect (groupScore selectionScores expertsPerGroup)
    (List.range router.config.expertGroupCount)
  let bestGroups := (sortBy compareRanked groupScores).take router.config.selectedExpertGroupCount
  let selectedGroups ← markGroups bestGroups
    (List.replicate router.config.expertGroupCount false)
  let selected ← RustResult.filter
    (fun entry => elementAt selectedGroups (entry.1 / expertsPerGroup)) (enumerate selectionScores)
  return (sortBy compareRanked selected).take router.config.expertsPerToken

def normalizer (probabilities : List α) (selected : List (ℕ × α)) :
    RustResult (MoeRoutingError α) α :=
  if router.config.renormalize then do
    let weights ← RustResult.collect (fun entry => elementAt probabilities entry.1) selected
    let sum := FloatOps.sum weights
    if !FloatOps.isFinite sum || FloatOps.le sum FloatOps.zero then
      .err (.invalidNormalization sum)
    else return sum
  else return FloatOps.one

def routedExpert (probabilities : List α) (normalizer : α) (index : ℕ) :
    RustResult (MoeRoutingError α) (RoutedExpert α) := do
  let probability ← elementAt probabilities index
  let weight :=
    FloatOps.mul (FloatOps.div probability normalizer) router.config.routedScalingFactor
  if !FloatOps.isFinite weight || FloatOps.lt weight FloatOps.zero then
    .err (.invalidRoutedWeight index weight)
  else return { index, weight }

/-- Source: `moe.rs`, lines 90–191. -/
def route (logits : List α) : RustResult (MoeRoutingError α) (List (RoutedExpert α)) :=
  if logits.length ≠ router.config.routedExpertCount then
    .err (.logitCountMismatch router.config.routedExpertCount logits.length)
  else match findNonFinite logits with
    | some (index, value) => .err (.nonFiniteLogit index value)
    | none => do
        let probabilities ← router.probabilities logits
        let scores ← router.selectionScores probabilities
        match findNonFinite scores with
        | some (index, value) => .err (.nonFiniteSelectionScore index value)
        | none => do
            let selected ← router.selectExperts scores
            let normalizer ← router.normalizer probabilities selected
            RustResult.collect
              (fun entry => router.routedExpert probabilities normalizer entry.1) selected

end Definitions

/-! ### Accepted configurations -/

/-- What `new` checks of the numbers of experts and groups. -/
structure Accepted {α : Type} (router : MoeRouter α) : Prop where
  routedExpertCount_pos : 0 < router.config.routedExpertCount
  groups_dvd : router.config.expertGroupCount ∣ router.config.routedExpertCount
  selected_le : router.config.selectedExpertGroupCount ≤ router.config.expertGroupCount
  capacity : router.config.expertsPerToken ≤
    router.config.routedExpertCount / router.config.expertGroupCount *
      router.config.selectedExpertGroupCount
  bias_length : ∀ bias, router.correctionBias = some bias →
    bias.length = router.config.routedExpertCount

theorem accepted_of_new {α : Type} [FloatOps α] {config : MoeFeedForwardConfig α}
    {correctionBias : Option (List α)} {router : MoeRouter α}
    (h : new config correctionBias = .ok router) :
    router = ⟨config, correctionBias⟩ ∧ router.Accepted := by
  simp only [new, ite_error_eq_ok, Except.bind_eq_ok, okOr_checkedMul_eq_ok] at h
  obtain ⟨hexperts, -, -, -, hdvd, hselected, _, ⟨-, rfl⟩, htop, -, -, h⟩ := h
  have hcommon (hbias : ∀ bias, correctionBias = some bias →
      bias.length = config.routedExpertCount) :
      (⟨config, correctionBias⟩ : MoeRouter α).Accepted :=
    ⟨Nat.pos_of_ne_zero hexperts, Nat.dvd_of_mod_eq_zero (not_not.mp hdvd),
      Nat.le_of_not_lt (not_or.mp hselected).2, Nat.le_of_not_lt htop, hbias⟩
  cases correctionBias with
  | none =>
      obtain rfl := Except.ok.inj h
      exact ⟨rfl, hcommon (by simp)⟩
  | some bias =>
      obtain ⟨hlength, h⟩ := ite_error_eq_ok.mp h
      obtain rfl := Except.ok.inj h
      exact ⟨rfl, hcommon fun b hb => Option.some.inj hb ▸ not_not.mp hlength⟩

section Accepted

variable {α : Type} {router : MoeRouter α} (h : router.Accepted)
include h

/-- The number of experts in a group. -/
theorem Accepted.expertsPerGroup_mul : router.config.expertGroupCount *
    (router.config.routedExpertCount / router.config.expertGroupCount) =
      router.config.routedExpertCount :=
  Nat.mul_div_cancel' h.groups_dvd

theorem Accepted.expertsPerGroup_pos :
    0 < router.config.routedExpertCount / router.config.expertGroupCount := by
  have hpos := h.routedExpertCount_pos
  rw [← h.expertsPerGroup_mul] at hpos
  exact Nat.pos_of_mul_pos_left hpos

/-- The group of an expert is one of the groups. -/
theorem Accepted.group_lt {expert : ℕ} (hexpert : expert < router.config.routedExpertCount) :
    expert / (router.config.routedExpertCount / router.config.expertGroupCount) <
      router.config.expertGroupCount := by
  rw [Nat.div_lt_iff_lt_mul h.expertsPerGroup_pos, h.expertsPerGroup_mul]
  exact hexpert

end Accepted

/-! ### Scores -/

section Scores

variable {α : Type}

theorem enumerate_eq_map {values : List α} {score : ℕ → α}
    (hscore : ∀ i < values.length, values[i]? = some (score i)) :
    enumerate values = (List.range values.length).map fun i => (i, score i) := by
  refine List.ext_getElem (by simp [enumerate]) fun i hi hi' => ?_
  have hlt : i < values.length := by simpa [enumerate] using hi
  have hvalue := hscore i hlt
  rw [List.getElem?_eq_getElem hlt, Option.some.injEq] at hvalue
  simp [enumerate, hvalue]

variable [FloatOps α] {router : MoeRouter α}

theorem length_of_probabilities {logits probabilities : List α}
    (h : router.probabilities logits = .ok probabilities) :
    probabilities.length = logits.length := by
  unfold MoeRouter.probabilities at h
  cases hact : router.config.routerActivation with
  | sigmoid =>
      rw [hact] at h
      rw [← RustResult.ok.inj h, List.length_map]
  | softmax =>
      rw [hact] at h
      simp only [normalizedExponentials] at h
      split_ifs at h
      rw [← RustResult.ok.inj h, List.length_map, List.length_map]

theorem returns_probabilities (logits : List α) : (router.probabilities logits).Returns := by
  unfold MoeRouter.probabilities
  cases router.config.routerActivation with
  | sigmoid => exact RustResult.returns_ok _
  | softmax =>
      simp only [normalizedExponentials]
      split_ifs
      · exact RustResult.returns_err _
      · exact RustResult.returns_ok _

/-- The correction of the score of an expert. -/
def correction (router : MoeRouter α) (expert : ℕ) : α :=
  match router.correctionBias with
  | none => FloatOps.zero
  | some bias => bias.getD expert FloatOps.zero

theorem selectionScore_ok (h : router.Accepted) {expert : ℕ}
    (hexpert : expert < router.config.routedExpertCount) (probability : α) :
    router.selectionScore expert probability =
      .ok (FloatOps.add probability (router.correction expert)) := by
  unfold MoeRouter.selectionScore correction
  cases hbias : router.correctionBias with
  | none => rfl
  | some bias =>
      have hlt : expert < bias.length := h.bias_length bias hbias ▸ hexpert
      dsimp only
      rw [elementAt_ok (List.getElem?_eq_getElem hlt), RustResult.ok_bind]
      simp [hlt]

theorem selectionScores_ok (h : router.Accepted) {probabilities : List α}
    (hlength : probabilities.length = router.config.routedExpertCount) :
    router.selectionScores probabilities = .ok ((enumerate probabilities).map fun entry =>
      FloatOps.add entry.2 (router.correction entry.1)) := by
  refine RustResult.collect_eq_map fun entry hentry => selectionScore_ok h ?_ entry.2
  obtain ⟨swapped, hmem, rfl⟩ := List.mem_map.mp hentry
  have hlt := List.snd_lt_of_mem_zipIdx hmem
  rw [Nat.add_zero, hlength] at hlt
  exact hlt

end Scores

/-! ### Groups -/

/-- The loop over the selected groups marks them and nothing else. -/
theorem markGroups_ok {α : Type} (groups : List (ℕ × α)) (flags : List Bool)
    (h : ∀ group ∈ groups, group.1 < flags.length) :
    ∃ marked, markGroups groups flags = .ok marked ∧ marked.length = flags.length ∧
      ∀ g < flags.length, marked[g]? =
        some (decide (g ∈ groups.map Prod.fst) || flags.getD g false) := by
  induction groups generalizing flags with
  | nil =>
      refine ⟨flags, rfl, rfl, fun g hg => ?_⟩
      simp [hg]
  | cons group groups ih =>
      obtain ⟨hgroup, hgroups⟩ := List.forall_mem_cons.mp h
      obtain ⟨marked, hmarked, hlength, hget⟩ := ih (flags.set group.1 true)
        fun g hg => by rw [List.length_set]; exact hgroups g hg
      rw [List.length_set] at hlength hget
      refine ⟨marked, ?_, hlength, fun g hg => ?_⟩
      · rw [markGroups, setElement_ok hgroup, RustResult.ok_bind, hmarked]
      · rw [hget g hg]
        by_cases hsame : g = group.1
        · subst hsame
          simp [hg]
        · have hother : ¬group.1 = g := fun h => hsame h.symm
          have hmem : decide (g ∈ (group :: groups).map Prod.fst) =
              decide (g ∈ groups.map Prod.fst) := by
            rw [decide_eq_decide, List.map_cons, List.mem_cons, or_iff_right hsame]
          rw [hmem]
          simp [hother]

section Groups

variable {α : Type} [FloatOps α] [LinearOrder α] {router : MoeRouter α}

/-- The sum of the two best scores of a group. -/
def groupSum (selectionScores : List α) (expertsPerGroup group : ℕ) : α :=
  FloatOps.sum ((sortBy (fun left right => compare right left)
    ((selectionScores.drop (group * expertsPerGroup)).take expertsPerGroup)).take 2)

theorem groupScore_ok {scores : List α} {expertsPerGroup group : ℕ}
    (h : group * expertsPerGroup + expertsPerGroup ≤ scores.length) :
    groupScore scores expertsPerGroup group =
      .ok (group, groupSum scores expertsPerGroup group) := by
  rw [groupScore, elementsAt_ok (Nat.le_add_right _ _) h, RustResult.ok_bind,
    Nat.add_sub_cancel_left]
  rfl

/-- The selection of groups and experts, by numbers. -/
theorem selectExperts_ok (h : router.Accepted) {scores : List α} {score : ℕ → α}
    (hlength : scores.length = router.config.routedExpertCount)
    (hscore : ∀ i < scores.length, scores[i]? = some (score i)) :
    ∃ groups selected : List ℕ,
      router.selectExperts scores = .ok (selected.map fun i => (i, score i)) ∧
      Selects (groupSum scores
          (router.config.routedExpertCount / router.config.expertGroupCount))
        router.config.selectedExpertGroupCount (List.range router.config.expertGroupCount) groups ∧
      Selects score router.config.expertsPerToken
        ((List.range router.config.routedExpertCount).filter fun i =>
          i / (router.config.routedExpertCount / router.config.expertGroupCount) ∈ groups)
        selected := by
  generalize hsize : router.config.routedExpertCount / router.config.expertGroupCount = size
  have hmul : router.config.expertGroupCount * size = router.config.routedExpertCount :=
    hsize ▸ h.expertsPerGroup_mul
  obtain ⟨groups, hgroups, hselects⟩ := selects_sortBy (groupSum scores size)
    router.config.selectedExpertGroupCount
    (List.nodup_range : (List.range router.config.expertGroupCount).Nodup)
  have hgroupScores : RustResult.collect (groupScore scores size)
      (List.range router.config.expertGroupCount) =
        .ok ((List.range router.config.expertGroupCount).map fun g =>
          (g, groupSum scores size g)) := by
    refine RustResult.collect_eq_map fun g hg => groupScore_ok ?_
    rw [hlength, ← hmul, ← Nat.succ_mul]
    exact Nat.mul_le_mul_right size (List.mem_range.mp hg)
  obtain ⟨marked, hmarked, -, hget⟩ := markGroups_ok
    (groups.map fun g => (g, groupSum scores size g))
    (List.replicate router.config.expertGroupCount false) fun entry hentry => by
      obtain ⟨g, hg, rfl⟩ := List.mem_map.mp hentry
      rw [List.length_replicate]
      exact List.mem_range.mp (hselects.subset hg)
  have hfilter : (RustResult.filter (fun entry => elementAt marked (entry.1 / size))
      ((List.range scores.length).map fun i => (i, score i)) :
        RustResult (MoeRoutingError α) (List (ℕ × α))) =
      .ok (((List.range scores.length).map fun i => (i, score i)).filter
        fun entry => entry.1 / size ∈ groups) := by
    refine RustResult.filter_eq fun entry hentry => elementAt_ok ?_
    obtain ⟨i, hi, rfl⟩ := List.mem_map.mp hentry
    rw [List.mem_range, hlength] at hi
    have hlt : i / size < router.config.expertGroupCount := hsize ▸ h.group_lt hi
    have hfirst : (groups.map fun g => (g, groupSum scores size g)).map Prod.fst = groups := by
      rw [List.map_map]
      exact List.map_id _
    rw [hget _ (by rwa [List.length_replicate]), hfirst]
    simp [hlt]
  have hnumbers : ((List.range router.config.routedExpertCount).filter
      fun i => i / size ∈ groups).Nodup := List.nodup_range.filter _
  obtain ⟨selected, hselected, hexperts⟩ :=
    selects_sortBy score router.config.expertsPerToken hnumbers
  refine ⟨groups, selected, ?_, hselects, hexperts⟩
  rw [selectExperts]
  dsimp only
  rw [hsize, hgroupScores, RustResult.ok_bind, hgroups, hmarked, RustResult.ok_bind,
    enumerate_eq_map hscore, hfilter, RustResult.ok_bind, hlength, List.filter_map]
  exact congrArg RustResult.ok hselected

end Groups

/-! ### The result -/

/-- The experts that a token goes to. The score of an expert is its activation with its correction,
the score of a group the sum of the two best scores in it. -/
structure SelectsBest {α : Type} [FloatOps α] [LinearOrder α] (router : MoeRouter α)
    (probabilities : List α) (score groupScore : ℕ → α) (groups experts : List ℕ) : Prop where
  score_eq : ∀ i < router.config.routedExpertCount, ∃ probability,
    probabilities[i]? = some probability ∧ router.selectionScore i probability = .ok (score i)
  groupScore_eq : ∀ g < router.config.expertGroupCount, ∃ best,
    IsTopK (fun left right => right ≤ left) 2
      ((List.range (router.config.routedExpertCount / router.config.expertGroupCount)).map fun j =>
        score (g * (router.config.routedExpertCount / router.config.expertGroupCount) + j)) best ∧
      groupScore g = FloatOps.sum best
  groups_selected : Selects groupScore router.config.selectedExpertGroupCount
    (List.range router.config.expertGroupCount) groups
  groups_length : groups.length = router.config.selectedExpertGroupCount
  experts_selected : Selects score router.config.expertsPerToken
    ((List.range router.config.routedExpertCount).filter fun i =>
      i / (router.config.routedExpertCount / router.config.expertGroupCount) ∈ groups) experts
  experts_length : experts.length = router.config.expertsPerToken
  experts_nodup : experts.Nodup

/-- The scores of a group. -/
theorem map_range_group {α : Type} {scores : List α} {score : ℕ → α}
    (hscore : ∀ i < scores.length, scores[i]? = some (score i)) {size g : ℕ}
    (h : g * size + size ≤ scores.length) :
    (scores.drop (g * size)).take size = (List.range size).map fun j => score (g * size + j) := by
  refine List.ext_getElem (by simp; omega) fun j hj hj' => ?_
  have hlt : j < size := by simpa using hj'
  have hvalue := hscore (g * size + j) (by omega)
  rw [List.getElem?_eq_getElem (by omega), Option.some.injEq] at hvalue
  simp [hvalue]

section Weights

variable {α : Type} [FloatOps α] {router : MoeRouter α}

theorem returns_normalizer {probabilities : List α} {selected : List (ℕ × α)}
    (h : ∀ entry ∈ selected, entry.1 < probabilities.length) :
    (router.normalizer probabilities selected).Returns := by
  unfold MoeRouter.normalizer
  split_ifs with hrenormalize
  · refine (RustResult.returns_collect fun entry hentry => ?_).bind fun weights _ => ?_
    · rw [elementAt_ok (List.getElem?_eq_getElem (h entry hentry))]
      exact RustResult.returns_ok _
    · dsimp only
      split_ifs
      · exact RustResult.returns_err _
      · exact RustResult.returns_ok _
  · exact RustResult.returns_ok _

theorem returns_routedExpert {probabilities : List α} {normalizer : α} {index : ℕ}
    (h : index < probabilities.length) :
    (router.routedExpert probabilities normalizer index).Returns := by
  unfold MoeRouter.routedExpert
  rw [elementAt_ok (List.getElem?_eq_getElem h), RustResult.ok_bind]
  dsimp only
  split_ifs
  · exact RustResult.returns_err _
  · exact RustResult.returns_ok _

theorem index_of_routedExpert {probabilities : List α} {normalizer : α} {index : ℕ}
    {expert : RoutedExpert α}
    (h : router.routedExpert probabilities normalizer index = .ok expert) :
    expert.index = index := by
  obtain ⟨probability, -, h⟩ := RustResult.bind_eq_ok.mp h
  dsimp only at h
  split_ifs at h
  rw [← RustResult.ok.inj h]

end Weights

section Result

variable {α : Type} [FloatOps α] [LinearOrder α] {router : MoeRouter α}

/-- What is selected is what is to be selected. -/
theorem exists_selectsBest (h : router.Accepted) {logits probabilities : List α}
    (hlogits : logits.length = router.config.routedExpertCount)
    (hprobabilities : router.probabilities logits = .ok probabilities) :
    ∃ (scores : List α) (score groupScore : ℕ → α) (groups experts : List ℕ),
      router.selectionScores probabilities = .ok scores ∧
      router.selectExperts scores = .ok (experts.map fun i => (i, score i)) ∧
      SelectsBest router probabilities score groupScore groups experts := by
  have hlength : probabilities.length = router.config.routedExpertCount :=
    (length_of_probabilities hprobabilities).trans hlogits
  have hscores := selectionScores_ok h hlength
  generalize hvalues : ((enumerate probabilities).map fun entry =>
    FloatOps.add entry.2 (router.correction entry.1)) = scores at hscores
  have hscoresLength : scores.length = router.config.routedExpertCount := by
    rw [← hvalues, List.length_map, enumerate, List.length_map, List.length_zipIdx, hlength]
  have hscore : ∀ i < scores.length, scores[i]? = some (scores.getD i FloatOps.zero) := by
    intro i hi
    simp [hi]
  obtain ⟨groups, experts, hselect, hgroups, hexperts⟩ := selectExperts_ok h hscoresLength hscore
  have hgroupsLength : groups.length = router.config.selectedExpertGroupCount := by
    rw [hgroups.length_eq, List.length_range, Nat.min_eq_left h.selected_le]
  refine ⟨scores, _, _, groups, experts, hscores, hselect,
    ⟨fun i hi => ?_, fun g hg => ?_, hgroups, hgroupsLength, hexperts, ?_, hexperts.nodup⟩⟩
  · have hlt : i < probabilities.length := hlength ▸ hi
    refine ⟨probabilities[i], List.getElem?_eq_getElem hlt, ?_⟩
    rw [selectionScore_ok h hi, ← hvalues]
    simp [enumerate, hlt]
  · have hend : g * (router.config.routedExpertCount / router.config.expertGroupCount) +
        router.config.routedExpertCount / router.config.expertGroupCount ≤ scores.length := by
      rw [hscoresLength, ← Nat.succ_mul]
      conv_rhs => rw [← h.expertsPerGroup_mul]
      exact Nat.mul_le_mul_right _ hg
    rw [← map_range_group hscore hend]
    exact ⟨_, isTopK_descending 2 _, rfl⟩
  · have hcount := Classes.length_filter_div_mem h.expertsPerGroup_pos hgroups.nodup
      fun g hg => List.mem_range.mp (hgroups.subset hg)
    rw [h.expertsPerGroup_mul, hgroupsLength, Nat.mul_comm] at hcount
    rw [hexperts.length_eq, hcount, Nat.min_eq_left h.capacity]

/-- The experts that are selected have probabilities. -/
theorem SelectsBest.lt_length {probabilities : List α} {score groupScore : ℕ → α}
    {groups experts : List ℕ}
    (hbest : SelectsBest router probabilities score groupScore groups experts) {expert : ℕ}
    (hexpert : expert ∈ experts) : expert < probabilities.length := by
  have hmem := hbest.experts_selected.subset hexpert
  obtain ⟨probability, hget, -⟩ :=
    hbest.score_eq expert (List.mem_range.mp (List.mem_filter.mp hmem).1)
  exact (List.getElem?_eq_some_iff.mp hget).1

/-- No index is out of range. -/
theorem returns_route (h : router.Accepted) (logits : List α) : (router.route logits).Returns := by
  unfold MoeRouter.route
  by_cases hlogits : logits.length = router.config.routedExpertCount
  · rw [if_neg (not_not.mpr hlogits)]
    cases findNonFinite logits with
    | some entry => exact RustResult.returns_err _
    | none =>
        refine (returns_probabilities logits).bind fun probabilities hprobabilities => ?_
        obtain ⟨scores, score, _, _, experts, hscores, hselect, hbest⟩ :=
          exists_selectsBest h hlogits hprobabilities
        rw [hscores, RustResult.ok_bind]
        cases findNonFinite scores with
        | some entry => exact RustResult.returns_err _
        | none =>
            have hrange : ∀ entry ∈ experts.map (fun i => (i, score i)),
                entry.1 < probabilities.length := by
              intro entry hentry
              obtain ⟨i, hi, rfl⟩ := List.mem_map.mp hentry
              exact hbest.lt_length hi
            dsimp only
            rw [hselect, RustResult.ok_bind]
            refine (returns_normalizer hrange).bind fun normalizer _ => ?_
            exact RustResult.returns_collect fun entry hentry =>
              returns_routedExpert (hrange entry hentry)
  · rw [if_pos hlogits]
    exact RustResult.returns_err _

/-- The experts of a result are the selected ones. -/
theorem selectsBest_of_route (h : router.Accepted) {logits : List α}
    {routed : List (RoutedExpert α)} (hroute : router.route logits = .ok routed) :
    ∃ (probabilities : List α) (score groupScore : ℕ → α) (groups : List ℕ),
      router.probabilities logits = .ok probabilities ∧
      SelectsBest router probabilities score groupScore groups (routed.map RoutedExpert.index) := by
  unfold MoeRouter.route at hroute
  by_cases hlogits : logits.length = router.config.routedExpertCount
  · rw [if_neg (not_not.mpr hlogits)] at hroute
    cases hfinite : findNonFinite logits with
    | some entry => simp [hfinite] at hroute
    | none =>
        rw [hfinite] at hroute
        obtain ⟨probabilities, hprobabilities, hroute⟩ := RustResult.bind_eq_ok.mp hroute
        obtain ⟨scores, score, groupScore, groups, experts, hscores, hselect, hbest⟩ :=
          exists_selectsBest h hlogits hprobabilities
        rw [hscores, RustResult.ok_bind] at hroute
        cases hfinite' : findNonFinite scores with
        | some entry => simp [hfinite'] at hroute
        | none =>
            rw [hfinite'] at hroute
            dsimp only at hroute
            rw [hselect, RustResult.ok_bind] at hroute
            obtain ⟨normalizer, -, hroute⟩ := RustResult.bind_eq_ok.mp hroute
            have hindices : routed.map RoutedExpert.index = experts := by
              have hall := List.forall₂_map_left_iff.mp (RustResult.collect_eq_ok hroute)
              rw [← List.forall₂_eq_eq_eq, List.forall₂_map_left_iff]
              exact hall.flip.imp fun expert i hexpert => index_of_routedExpert hexpert
            exact ⟨probabilities, score, groupScore, groups, hprobabilities, hindices ▸ hbest⟩
  · rw [if_pos hlogits] at hroute
    cases hroute

end Result

end MoeRouter

open MoeRouter in
/-- **Routing selects the best experts.** A router that was accepted never leaves a list, and the
experts of a result are those of the best scores among the experts of the best groups, in order of
their scores, ties by the lower number. -/
theorem moe_routing_selects_best {α : Type} [FloatOps α] [LinearOrder α]
    {config : MoeFeedForwardConfig α} {correctionBias : Option (List α)} {router : MoeRouter α}
    (hnew : MoeRouter.new config correctionBias = .ok router) (logits : List α) :
    router = ⟨config, correctionBias⟩ ∧ (router.route logits).Returns ∧
    ∀ routed, router.route logits = .ok routed →
      ∃ (probabilities : List α) (score groupScore : ℕ → α) (groups : List ℕ),
        router.probabilities logits = .ok probabilities ∧
        SelectsBest router probabilities score groupScore groups
          (routed.map RoutedExpert.index) :=
  have h := (accepted_of_new hnew).2
  ⟨(accepted_of_new hnew).1, returns_route h logits, fun _ hroute => selectsBest_of_route h hroute⟩

/-- Rational numbers, with an exponential that is right at zero. -/
abbrev rationalOps : FloatOps ℚ where
  zero := 0
  one := 1
  negInfinity := 0
  add := (· + ·)
  sub := (· - ·)
  mul := (· * ·)
  div := (· / ·)
  max := Max.max
  neg x := -x
  exp _ := 1
  sum := List.sum
  isFinite _ := true
  le a b := decide (a ≤ b)
  lt a b := decide (a < b)

/-- Four experts in two groups, one group and two experts for every token. -/
def sampleConfig : MoeFeedForwardConfig ℚ where
  routedExpertCount := 4
  expertsPerToken := 2
  expertGroupCount := 2
  selectedExpertGroupCount := 1
  expertIntermediateSize := 8
  renormalize := false
  routerActivation := .sigmoid
  routedScalingFactor := 1

/-- Experts with the same score are selected in the order of their numbers. -/
theorem selectExperts_sample :
    letI := rationalOps
    (⟨sampleConfig, none⟩ : MoeRouter ℚ).selectExperts [1 / 2, 1 / 2, 1 / 2, 1 / 2] =
      .ok [(0, 1 / 2), (1, 1 / 2)] := by
  let _ := rationalOps
  have hgroup (g : ℕ) (hg : g < 2) :
      MoeRouter.groupScore [(1 / 2 : ℚ), 1 / 2, 1 / 2, 1 / 2] 2 g = .ok (g, 1) := by
    obtain rfl | rfl : g = 0 ∨ g = 1 := by omega
    all_goals
      rw [MoeRouter.groupScore, elementsAt_ok (by decide) (by decide), RustResult.ok_bind,
        TopK.sortBy_of_pairwise (by decide +kernel)]
      decide +kernel
  have hgroups : RustResult.collect (MoeRouter.groupScore [(1 / 2 : ℚ), 1 / 2, 1 / 2, 1 / 2] 2)
      (List.range 2) = .ok [(0, 1), (1, 1)] := by
    rw [RustResult.collect_eq_map fun g hg => hgroup g (List.mem_range.mp hg)]
    rfl
  rw [MoeRouter.selectExperts]
  change RustResult.collect (MoeRouter.groupScore [(1 / 2 : ℚ), 1 / 2, 1 / 2, 1 / 2] 2)
    (List.range 2) >>= _ = _
  rw [hgroups, RustResult.ok_bind, TopK.sortBy_of_pairwise (by decide +kernel)]
  change RustResult.ok ((TopK.sortBy TopK.compareRanked [(0, (1 / 2 : ℚ)), (1, 1 / 2)]).take 2) = _
  rw [TopK.sortBy_of_pairwise (by decide +kernel)]
  rfl

theorem route_sample :
    letI := rationalOps
    (⟨sampleConfig, none⟩ : MoeRouter ℚ).route [0, 0, 0, 0] = .ok [⟨0, 1 / 2⟩, ⟨1, 1 / 2⟩] := by
  let _ := rationalOps
  have hprobabilities : (⟨sampleConfig, none⟩ : MoeRouter ℚ).probabilities [0, 0, 0, 0] =
      .ok [1 / 2, 1 / 2, 1 / 2, 1 / 2] := by
    decide +kernel
  have hscores : (⟨sampleConfig, none⟩ : MoeRouter ℚ).selectionScores
      [1 / 2, 1 / 2, 1 / 2, 1 / 2] = .ok [1 / 2, 1 / 2, 1 / 2, 1 / 2] := by
    decide +kernel
  have hfinite (values : List ℚ) : findNonFinite values = none := by
    simp [findNonFinite]
  rw [MoeRouter.route, if_neg (by decide), hfinite]
  dsimp only
  rw [hprobabilities, RustResult.ok_bind, hscores, RustResult.ok_bind, hfinite]
  dsimp only
  rw [selectExperts_sample]
  decide +kernel

open MoeRouter in
/-- The theorem applied to logits that are all zero: experts 0 and 1 are the best. -/
theorem moe_routing_selects_best_of_zero :
    letI := rationalOps
    ∃ routed, (⟨sampleConfig, none⟩ : MoeRouter ℚ).route [0, 0, 0, 0] = .ok routed ∧
      routed.map RoutedExpert.index = [0, 1] ∧
      ∃ probabilities score groupScore groups,
        SelectsBest (⟨sampleConfig, none⟩ : MoeRouter ℚ) probabilities score groupScore groups
          [0, 1] := by
  let _ := rationalOps
  have hnew : MoeRouter.new sampleConfig none = .ok ⟨sampleConfig, none⟩ := rfl
  obtain ⟨-, -, hbest⟩ := moe_routing_selects_best hnew [0, 0, 0, 0]
  obtain ⟨probabilities, score, groupScore, groups, -, hselects⟩ := hbest _ route_sample
  exact ⟨_, route_sample, rfl, probabilities, score, groupScore, groups, hselects⟩

end SglangRs
