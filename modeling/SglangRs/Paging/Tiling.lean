import Mathlib.Algebra.Order.Group.Nat
import Mathlib.Algebra.Order.Monoid.Unbundled.Basic
import Mathlib.Data.Nat.SuccPred
import Mathlib.Data.Set.Lattice.Image
import Mathlib.Data.Set.Pairwise.Basic
import Mathlib.Data.Set.Prod
import Mathlib.Order.CompletePartialOrder
import Mathlib.Order.SuccPred.IntervalSucc

/-!
# Tilings

A family of cells tiles a set when the cells are disjoint and fill it. Tilings compose: when the
cells of a tiling are tiled themselves by cells of a second level, the cells of the second level
tile the whole. Blocks laid one behind the other at increasing offsets tile an interval, so that
nested blocks of a memory address every byte exactly once.

## Main definitions

* `Paging.Tiling`: the cells of some indices are disjoint and fill a set.
* `Paging.Consecutive`: ranges in a list that lie one behind the other.

## Main results

* `Paging.Tiling.refine`: tilings of the cells of a tiling.
* `Paging.tiling_blocks`, `Paging.tiling_equal_blocks`: blocks at increasing offsets.
* `Paging.consecutive_equal_blocks`: blocks of one size in a list.
-/

open Set

namespace Paging

variable {ι κ α : Type*}

/-- The cells of the indices in `I` are disjoint and fill `whole`. -/
structure Tiling (I : Set ι) (cell : ι → Set α) (whole : Set α) : Prop where
  disjoint : I.PairwiseDisjoint cell
  cover : ⋃ i ∈ I, cell i = whole

variable {I : Set ι} {J : Set κ} {cell : ι → Set α} {whole : Set α}

theorem Tiling.congr (h : Tiling I cell whole) {cell' : ι → Set α}
    (hcell : ∀ i ∈ I, cell' i = cell i) : Tiling I cell' whole where
  disjoint i hi j hj hne := by
    simpa only [Function.onFun, hcell i hi, hcell j hj] using h.disjoint hi hj hne
  cover := (iUnion₂_congr hcell).trans h.cover

theorem Tiling.subset (h : Tiling I cell whole) {i : ι} (hi : i ∈ I) : cell i ⊆ whole :=
  h.cover ▸ subset_biUnion_of_mem hi

/-- **Composing tilings.** When the cells of a tiling are tiled in turn, so is the whole. -/
theorem Tiling.refine (h : Tiling I cell whole) (sub : ι → κ → Set α)
    (hsub : ∀ i ∈ I, Tiling J (sub i) (cell i)) :
    Tiling (I ×ˢ J) (fun p => sub p.1 p.2) whole where
  disjoint := by
    rintro ⟨i, j⟩ ⟨hi, hj⟩ ⟨i', j'⟩ ⟨hi', hj'⟩ hne
    by_cases heq : i = i'
    · subst heq
      exact (hsub i hi).disjoint hj hj' fun heq => hne (Prod.ext rfl heq)
    · exact (h.disjoint hi hi' heq).mono ((hsub i hi).subset hj) ((hsub i' hi').subset hj')
  cover := by
    rw [biUnion_prod', ← h.cover]
    exact iUnion₂_congr fun i hi => (hsub i hi).cover

/-- **Blocks.** The blocks between increasing offsets tile the interval that they span. -/
theorem tiling_blocks {offset : ℕ → ℕ} (h : Monotone offset) (a n : ℕ) :
    Tiling (Iio n) (fun i => Ico (a + offset i) (a + offset (i + 1)))
      (Ico (a + offset 0) (a + offset n)) where
  disjoint i _ j _ hne := (h.const_add a).pairwise_disjoint_on_Ico_succ hne
  cover := by
    have hmono : Monotone fun i => a + offset i := h.const_add a
    induction n with
    | zero => simp
    | succ n ih =>
      rw [← Order.succ_eq_add_one, Order.Iio_succ_eq_insert, biUnion_insert, ih, union_comm]
      exact Ico_union_Ico_eq_Ico (hmono (Nat.zero_le n)) (hmono (Nat.le_succ n))

/-- Blocks of one size. -/
theorem tiling_equal_blocks (a b n : ℕ) :
    Tiling (Iio n) (fun i => Ico (a + i * b) (a + i * b + b)) (Ico a (a + n * b)) := by
  have hmono : Monotone fun i => i * b := fun i j hij => Nat.mul_le_mul_right b hij
  have h := tiling_blocks hmono a n
  rw [Nat.zero_mul, Nat.add_zero] at h
  exact h.congr fun i _ => by rw [Nat.succ_mul, Nat.add_assoc]

/-! ### Ranges in a list -/

/-- The ranges, each a start and a length, lie one behind the other from `a` to `b`. -/
def Consecutive : List (ℕ × ℕ) → ℕ → ℕ → Prop
  | [], a, b => a = b
  | range :: ranges, a, b => range.1 = a ∧ Consecutive ranges (a + range.2) b

theorem consecutive_singleton {start length a b : ℕ} :
    Consecutive [(start, length)] a b ↔ start = a ∧ a + length = b := Iff.rfl

theorem Consecutive.append {ranges ranges' : List (ℕ × ℕ)} {a b c : ℕ}
    (h : Consecutive ranges a b) (h' : Consecutive ranges' b c) :
    Consecutive (ranges ++ ranges') a c := by
  induction ranges generalizing a with
  | nil =>
      obtain rfl : a = b := h
      exact h'
  | cons range ranges ih => exact ⟨h.1, ih h.2⟩

/-- Blocks of one size lie one behind the other. -/
theorem consecutive_equal_blocks (a b n : ℕ) :
    Consecutive ((List.range n).map fun i => (a + i * b, b)) a (a + n * b) := by
  induction n with
  | zero => rw [Nat.zero_mul, Nat.add_zero]; rfl
  | succ n ih =>
      rw [List.range_succ, List.map_append]
      refine ih.append (consecutive_singleton.mpr ⟨rfl, ?_⟩)
      rw [Nat.succ_mul, Nat.add_assoc]

end Paging
