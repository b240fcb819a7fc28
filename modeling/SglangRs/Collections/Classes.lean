import Mathlib.Data.List.NodupEquivFin
import Mathlib.Data.Set.Function
import SglangRs.Collections.Rows

/-!
# Classes of a key

The numbers below `n` fall into classes by the value of a key. A class is listed in increasing
order. This file says that the classes partition the numbers, and counts a class whose members are
enumerated by a formula. The keys of interest are the digits of a number in mixed radices.

## Main definitions

* `Classes.classOf`: the numbers below `n` with the key of a given one.

## Main results

* `Classes.mem_classOf_self`, `Classes.classOf_eq_or_disjoint`: the classes partition the numbers.
* `Classes.length_classOf`: the size of a class.
* `Classes.div_mod_iff`: a number from its quotient and its remainder.
* `Classes.length_filter_div_mem`: the numbers with quotients in a list.
-/

namespace Classes

variable {κ : Type} [DecidableEq κ] {n : ℕ} {key : ℕ → κ}

/-- The numbers below `n` that have the same key as `i`. -/
def classOf (n : ℕ) (key : ℕ → κ) (i : ℕ) : List ℕ := (List.range n).filter fun j => key j = key i

variable {i j : ℕ}

@[simp] theorem mem_classOf : j ∈ classOf n key i ↔ j < n ∧ key j = key i := by
  simp [classOf]

theorem mem_classOf_self (hi : i < n) : i ∈ classOf n key i := mem_classOf.mpr ⟨hi, rfl⟩

theorem nodup_classOf (n : ℕ) (key : ℕ → κ) (i : ℕ) : (classOf n key i).Nodup :=
  List.nodup_range.filter _

/-- Two classes are the same or have nothing in common. -/
theorem classOf_eq_or_disjoint (n : ℕ) (key : ℕ → κ) (i j : ℕ) :
    classOf n key i = classOf n key j ∨ (classOf n key i).Disjoint (classOf n key j) := by
  by_cases h : key i = key j
  · exact .inl (by rw [classOf, classOf, h])
  · refine .inr fun k hk hk' => h ?_
    rw [← (mem_classOf.mp hk).2, (mem_classOf.mp hk').2]

/-- A class whose members are enumerated by the numbers below `m` has `m` members. -/
theorem length_classOf {m : ℕ} {f : ℕ → ℕ} (hf : Function.Injective f)
    (h : ∀ j, j < n ∧ key j = key i ↔ ∃ k < m, f k = j) : (classOf n key i).length = m := by
  have hperm : (classOf n key i).Perm ((List.range m).map f) := by
    refine (List.perm_ext_iff_of_nodup (nodup_classOf n key i) (List.nodup_range.map hf)).mpr ?_
    intro j
    rw [mem_classOf, h, List.mem_map]
    simp only [List.mem_range]
  rw [hperm.length_eq, List.length_map, List.length_range]

/-- A number is determined by its quotient and its remainder. -/
theorem div_mod_iff {b x y : ℕ} (hy : y < b) : i / b = x ∧ i % b = y ↔ i = x * b + y := by
  rw [Nat.div_mod_unique (Nat.zero_lt_of_lt hy), Nat.mul_comm x b, Nat.add_comm]
  exact ⟨fun h => h.1.symm, fun h => ⟨h.symm, hy⟩⟩

/-- Combining a quotient and a remainder stays below the product. -/
theorem mul_add_lt {a b x y : ℕ} (hx : x < a) (hy : y < b) : x * b + y < a * b := by
  calc x * b + y < x * b + b := Nat.add_lt_add_left hy _
    _ = (x + 1) * b := (Nat.succ_mul x b).symm
    _ ≤ a * b := Nat.mul_le_mul_right b hx

/-- A number below a product has a quotient and a remainder below the factors. -/
theorem lt_mul_iff {a b : ℕ} (hb : 0 < b) : i < a * b ↔ i / b < a ∧ i % b < b :=
  ⟨fun h => ⟨(Nat.div_lt_iff_lt_mul hb).mpr h, Nat.mod_lt i hb⟩,
    fun h => (Nat.div_lt_iff_lt_mul hb).mp h.1⟩

/-- The numbers whose quotients are in a list. -/
theorem length_filter_div_mem {a b : ℕ} {quotients : List ℕ} (hb : 0 < b)
    (hnodup : quotients.Nodup) (hlt : ∀ q ∈ quotients, q < a) :
    ((List.range (a * b)).filter fun i => i / b ∈ quotients).length = quotients.length * b := by
  have hperm : ((List.range (a * b)).filter fun i => i / b ∈ quotients).Perm
      (quotients.flatMap fun q => (List.range b).map fun r => q * b + r) := by
    refine (List.perm_ext_iff_of_nodup (List.nodup_range.filter _) ?_).mpr fun i => ?_
    · refine List.nodup_flatMap.mpr ⟨fun q _ => List.nodup_range.map fun r r' heq => ?_, ?_⟩
      · exact Nat.add_left_cancel heq
      · refine hnodup.imp fun {q q'} hne i hi hi' => hne ?_
        obtain ⟨r, hr, rfl⟩ := List.mem_map.mp hi
        obtain ⟨r', hr', heq⟩ := List.mem_map.mp hi'
        have hq := (div_mod_iff (List.mem_range.mp hr)).mpr (rfl : q * b + r = _)
        have hq' := (div_mod_iff (List.mem_range.mp hr')).mpr (rfl : q' * b + r' = _)
        rw [← hq.1, ← hq'.1, heq]
    · simp only [List.mem_filter, List.mem_range, decide_eq_true_eq, List.mem_flatMap,
        List.mem_map]
      constructor
      · rintro ⟨-, hq⟩
        exact ⟨i / b, hq, i % b, Nat.mod_lt i hb, Nat.div_add_mod' i b⟩
      · rintro ⟨q, hq, r, hr, rfl⟩
        refine ⟨mul_add_lt (hlt q hq) hr, ?_⟩
        rwa [((div_mod_iff hr).mpr rfl).1]
  rw [hperm.length_eq,
    Rows.length_flatMap_const fun q _ => by rw [List.length_map, List.length_range]]

end Classes
