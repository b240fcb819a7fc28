import Mathlib.Algebra.Order.Ring.Nat
import Mathlib.Data.List.Basic

/-!
# Regions of a buffer

A region of a buffer is read and written as a whole. What was written to a region is read there, and
a region that has no cell in common with it is read as before.

## Main definitions

* `Paging.Buffer.region`, `Paging.Buffer.writeRegion`: reading and writing.

## Main results

* `Paging.Buffer.region_writeRegion`: what was written is read.
* `Paging.Buffer.region_writeRegion_of_disjoint`: nothing else is changed.
-/

namespace Paging.Buffer

variable {α : Type*}

/-- The cells of a buffer from `start` on. -/
def region (data : List α) (start len : ℕ) : List α := (data.drop start).take len

/-- The buffer with some values from `start` on. -/
def writeRegion (data : List α) (start : ℕ) (values : List α) : List α :=
  data.take start ++ values ++ data.drop (start + values.length)

variable {data values : List α} {start len start' len' i : ℕ}

theorem getElem?_region : (region data start len)[i]? = if i < len then data[start + i]? else none := by
  rw [region, List.getElem?_take]
  split_ifs
  · rw [List.getElem?_drop]
  · rfl

theorem length_writeRegion (h : start + values.length ≤ data.length) :
    (writeRegion data start values).length = data.length := by
  rw [writeRegion, List.length_append, List.length_append, List.length_take, List.length_drop]
  omega

/-- What was written is read. -/
theorem region_writeRegion (h : start + values.length ≤ data.length) :
    region (writeRegion data start values) start values.length = values := by
  have hstart : (data.take start).length = start := by
    rw [List.length_take]
    omega
  rw [region, writeRegion, List.append_assoc, List.drop_left' hstart, List.take_left' rfl]

/-- The cells outside what was written. -/
theorem getElem?_writeRegion (h : start + values.length ≤ data.length)
    (hi : i < start ∨ start + values.length ≤ i) :
    (writeRegion data start values)[i]? = data[i]? := by
  have hstart : (data.take start).length = start := by
    rw [List.length_take]
    omega
  rw [writeRegion]
  rcases hi with hi | hi
  · rw [List.append_assoc, List.getElem?_append_left (by omega), List.getElem?_take_of_lt hi]
  · have hleft : (data.take start ++ values).length = start + values.length := by
      rw [List.length_append, hstart]
    rw [List.getElem?_append_right (by omega), hleft, List.getElem?_drop, Nat.add_sub_cancel' hi]

/-- A region without a cell in common with what was written. -/
theorem region_writeRegion_of_disjoint (h : start + values.length ≤ data.length)
    (hdisjoint : ∀ i, start' ≤ i → i < start' + len' → i < start ∨ start + values.length ≤ i) :
    region (writeRegion data start values) start' len' = region data start' len' := by
  refine List.ext_getElem? fun i => ?_
  rw [getElem?_region, getElem?_region]
  split_ifs with hi
  · exact getElem?_writeRegion h (hdisjoint _ (Nat.le_add_right _ _) (by omega))
  · rfl

end Paging.Buffer
