import Mathlib.Data.Finset.Card
import Mathlib.Data.List.Basic
import Mathlib.Order.Defs.LinearOrder

/-!
# The best entries of a list

The best entries of a list are found by sorting it and cutting it off. This file says what such a
selection is without reference to sorting: a sorted part of the list such that nothing outside
precedes anything inside. Entries with a number and a score are ranked by score, ties by number.

## Main definitions

* `TopK.sortBy`: the stable sort by a comparison.
* `TopK.IsTopK`: the best entries of a list.
* `TopK.compareRanked`, `TopK.Precedes`, `TopK.Selects`: numbers ranked by a score.

## Main results

* `TopK.isTopK_sortBy`: cutting off a sorted list selects the best entries.
* `TopK.IsTopK.of_not_mem`: what is not selected does not precede what is.
* `TopK.selects_sortBy`: the selection of ranked numbers.
-/

namespace TopK

variable {α : Type}

/-- The stable sort by a comparison. -/
def sortBy (cmp : α → α → Ordering) (l : List α) : List α := l.mergeSort fun a b => (cmp a b).isLE

theorem sortBy_of_pairwise {cmp : α → α → Ordering} {l : List α}
    (h : l.Pairwise fun a b => (cmp a b).isLE) : sortBy cmp l = l :=
  List.mergeSort_of_pairwise h

/-- The entries of `best` are in order, there are `k` of them or all, and none of the others comes
before them. -/
structure IsTopK (r : α → α → Prop) (k : ℕ) (l best : List α) : Prop where
  length_eq : best.length = min k l.length
  sorted : best.Pairwise r
  exists_rest : ∃ rest, l.Perm (best ++ rest) ∧ ∀ a ∈ best, ∀ b ∈ rest, r a b

/-- **Selection by sorting.** The first entries of a sorted list are the best ones. -/
theorem isTopK_sortBy (cmp : α → α → Ordering) {r : α → α → Prop}
    (hcmp : ∀ a b, (cmp a b).isLE = true ↔ r a b) (htrans : ∀ a b c, r a b → r b c → r a c)
    (htotal : ∀ a b, r a b ∨ r b a) (k : ℕ) (l : List α) :
    IsTopK r k l ((sortBy cmp l).take k) := by
  have hsorted : (sortBy cmp l).Pairwise r := by
    refine (List.pairwise_mergeSort (fun a b c => ?_) (fun a b => ?_) l).imp
      fun h => (hcmp _ _).mp h
    · simpa only [hcmp] using htrans a b c
    · simpa only [Bool.or_eq_true, hcmp] using htotal a b
  rw [← List.take_append_drop k (sortBy cmp l)] at hsorted
  obtain ⟨htake, -, hacross⟩ := List.pairwise_append.mp hsorted
  refine ⟨?_, htake, (sortBy cmp l).drop k, ?_, hacross⟩
  · rw [List.length_take, sortBy, List.length_mergeSort]
  · rw [List.take_append_drop]
    exact (List.mergeSort_perm l _).symm

section IsTopK

variable {r : α → α → Prop} {k : ℕ} {l best : List α}

theorem IsTopK.subset (h : IsTopK r k l best) {a : α} (ha : a ∈ best) : a ∈ l := by
  obtain ⟨rest, hperm, -⟩ := h.exists_rest
  exact hperm.mem_iff.mpr (List.mem_append_left _ ha)

/-- An entry that is not selected comes after all that are. -/
theorem IsTopK.of_not_mem (h : IsTopK r k l best) {a b : α} (ha : a ∈ best) (hb : b ∈ l)
    (hnot : b ∉ best) : r a b := by
  obtain ⟨rest, hperm, hacross⟩ := h.exists_rest
  exact hacross a ha b ((List.mem_append.mp (hperm.mem_iff.mp hb)).resolve_left hnot)

theorem IsTopK.nodup (h : IsTopK r k l best) (hl : l.Nodup) : best.Nodup := by
  obtain ⟨rest, hperm, -⟩ := h.exists_rest
  exact (List.nodup_append.mp (hperm.nodup_iff.mp hl)).1

end IsTopK

/-! ### Ranked numbers -/

section Ranked

variable [LinearOrder α]

/-- Selection of the largest values. -/
theorem isTopK_descending (k : ℕ) (values : List α) :
    IsTopK (fun left right => right ≤ left) k values
      ((sortBy (fun left right => compare right left) values).take k) := by
  refine isTopK_sortBy _ (fun left right => ?_) (fun a b c hab hbc => hbc.trans hab)
    (fun a b => le_total b a) k values
  rw [Ordering.isLE_iff_ne_gt]
  exact compare_le_iff_le

/-- Descending by score, then ascending by number. -/
def compareRanked (p q : ℕ × α) : Ordering := (compare q.2 p.2).then (compare p.1 q.1)

/-- The order of ranked entries. -/
def RankedLE (p q : ℕ × α) : Prop := q.2 < p.2 ∨ p.2 = q.2 ∧ p.1 ≤ q.1

/-- Number `i` comes before `j`: it has a higher score, or the same score and is smaller. -/
def Precedes (score : ℕ → α) (i j : ℕ) : Prop := score j < score i ∨ score i = score j ∧ i < j

theorem isLE_compareRanked {p q : ℕ × α} : (compareRanked p q).isLE = true ↔ RankedLE p q := by
  unfold compareRanked RankedLE
  rcases lt_trichotomy q.2 p.2 with h | h | h
  · simp [compare_lt_iff_lt.mpr h, h]
  · simp [h, Ordering.isLE_iff_ne_gt, compare_le_iff_le]
  · simp [compare_gt_iff_gt.mpr h, h.not_gt, h.ne]

theorem RankedLE.trans {p q s : ℕ × α} (h : RankedLE p q) (h' : RankedLE q s) : RankedLE p s := by
  rcases h with h | ⟨h, hi⟩ <;> rcases h' with h' | ⟨h', hi'⟩
  · exact .inl (h'.trans h)
  · exact .inl (h' ▸ h)
  · exact .inl (h.symm ▸ h')
  · exact .inr ⟨h.trans h', hi.trans hi'⟩

theorem rankedLE_total (p q : ℕ × α) : RankedLE p q ∨ RankedLE q p := by
  rcases lt_trichotomy q.2 p.2 with h | h | h
  · exact .inl (.inl h)
  · rcases Nat.le_total p.1 q.1 with hi | hi
    · exact .inl (.inr ⟨h.symm, hi⟩)
    · exact .inr (.inr ⟨h, hi⟩)
  · exact .inr (.inl h)

/-- The selected numbers are in order, there are `k` of them or all, and each comes before every
number that is not selected. -/
structure Selects (score : ℕ → α) (k : ℕ) (numbers selected : List ℕ) : Prop where
  length_eq : selected.length = min k numbers.length
  subset : selected ⊆ numbers
  sorted : selected.Pairwise (Precedes score)
  precedes : ∀ i ∈ selected, ∀ j ∈ numbers, j ∉ selected → Precedes score i j

theorem Precedes.ne {score : ℕ → α} {i j : ℕ} (h : Precedes score i j) : i ≠ j := by
  rintro rfl
  rcases h with h | ⟨-, h⟩
  · exact lt_irrefl _ h
  · exact lt_irrefl _ h

theorem Selects.nodup {score : ℕ → α} {k : ℕ} {numbers selected : List ℕ}
    (h : Selects score k numbers selected) : selected.Nodup :=
  h.sorted.imp Precedes.ne

theorem RankedLE.precedes {score : ℕ → α} {i j : ℕ} (h : RankedLE (i, score i) (j, score j))
    (hne : i ≠ j) : Precedes score i j :=
  h.imp_right fun h => ⟨h.1, lt_of_le_of_ne h.2 hne⟩

/-- **Selection of ranked numbers.** Sorting and cutting off selects the best numbers. -/
theorem selects_sortBy (score : ℕ → α) (k : ℕ) {numbers : List ℕ} (hnumbers : numbers.Nodup) :
    ∃ selected, (sortBy compareRanked (numbers.map fun i => (i, score i))).take k =
      selected.map (fun i => (i, score i)) ∧ Selects score k numbers selected := by
  have htop := isTopK_sortBy compareRanked (fun a b => isLE_compareRanked)
    (fun a b c => RankedLE.trans) rankedLE_total k (numbers.map fun i => (i, score i))
  generalize (sortBy compareRanked (numbers.map fun i => (i, score i))).take k = best at htop ⊢
  have hentry (p : ℕ × α) (hp : p ∈ best) : p.1 ∈ numbers ∧ (p.1, score p.1) = p := by
    obtain ⟨i, hi, rfl⟩ := List.mem_map.mp (htop.subset hp)
    exact ⟨hi, rfl⟩
  have hbest : best = (best.map Prod.fst).map fun i => (i, score i) := by
    rw [List.map_map]
    conv_lhs => rw [← List.map_id best]
    exact List.map_congr_left fun p hp => (hentry p hp).2.symm
  have hnodup : (best.map Prod.fst).Nodup := by
    have hpairs := htop.nodup (hnumbers.map fun i j h => congrArg Prod.fst h)
    rw [hbest] at hpairs
    exact hpairs.of_map
  have hmem {i : ℕ} : i ∈ best.map Prod.fst ↔ (i, score i) ∈ best := by
    refine ⟨fun hi => ?_, fun hi => List.mem_map.mpr ⟨_, hi, rfl⟩⟩
    obtain ⟨p, hp, rfl⟩ := List.mem_map.mp hi
    rwa [(hentry p hp).2]
  refine ⟨best.map Prod.fst, hbest, ?_, fun i hi => ?_, ?_, fun i hi j hj hnot => ?_⟩
  · rw [List.length_map, htop.length_eq, List.length_map]
  · exact (hentry _ (hmem.mp hi)).1
  · have hsorted := htop.sorted
    rw [hbest] at hsorted
    exact (List.pairwise_map.mp hsorted).imp₂ (fun i j => RankedLE.precedes) hnodup
  · refine RankedLE.precedes (htop.of_not_mem (hmem.mp hi) (List.mem_map.mpr ⟨j, hj, rfl⟩)
      (mt hmem.mpr hnot)) ?_
    rintro rfl
    exact hnot hi

end Ranked

end TopK
