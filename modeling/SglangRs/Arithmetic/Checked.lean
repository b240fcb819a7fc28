import Mathlib.Algebra.Ring.Nat
import Mathlib.Tactic.SplitIfs

/-!
# Checked arithmetic

Sizes and offsets are computed on machine words of `w` bits. An operation that overflows has no
result, and the functions that use it turn this into an error of their own.

## Main definitions

* `checkedMul`, `checkedAdd`: the operations on words.
* `okOr`: a missing result becomes an error.

## Main results

* `checkedMul_eq`, `checkedAdd_eq`: results in range.
* `okOr_checkedMul_eq_ok`, `okOr_checkedAdd_eq_ok`: what a result means.
-/

namespace SglangRs

/-- `checked_mul` on `usize` of `w` bits. -/
def checkedMul (w a b : ℕ) : Option ℕ := if a * b < 2 ^ w then some (a * b) else none

/-- `checked_add` on `usize` of `w` bits. -/
def checkedAdd (w a b : ℕ) : Option ℕ := if a + b < 2 ^ w then some (a + b) else none

/-- `ok_or`: a value, or an error if there is none. -/
def okOr {ε α : Type} (error : ε) : Option α → Except ε α
  | some value => .ok value
  | none => .error error

variable {w a b c : ℕ}

theorem checkedMul_eq (h : a * b < 2 ^ w) : checkedMul w a b = some (a * b) := if_pos h

theorem checkedAdd_eq (h : a + b < 2 ^ w) : checkedAdd w a b = some (a + b) := if_pos h

@[simp] theorem okOr_some {ε α : Type} (error : ε) (value : α) :
    okOr error (some value) = .ok value := rfl

@[simp] theorem okOr_none {ε α : Type} (error : ε) :
    okOr error (none : Option α) = .error error := rfl

theorem okOr_eq_ok {ε α : Type} {error : ε} {x : Option α} {value : α} :
    okOr error x = .ok value ↔ x = some value := by
  cases x <;> simp

theorem checkedMul_eq_some : checkedMul w a b = some c ↔ a * b < 2 ^ w ∧ a * b = c := by
  unfold checkedMul
  split_ifs with h <;> simp [h]

theorem checkedAdd_eq_some : checkedAdd w a b = some c ↔ a + b < 2 ^ w ∧ a + b = c := by
  unfold checkedAdd
  split_ifs with h <;> simp [h]

/-- A product that is used is in range. -/
theorem okOr_checkedMul_eq_ok {ε : Type} {error : ε} :
    okOr error (checkedMul w a b) = .ok c ↔ a * b < 2 ^ w ∧ a * b = c :=
  okOr_eq_ok.trans checkedMul_eq_some

/-- A sum that is used is in range. -/
theorem okOr_checkedAdd_eq_ok {ε : Type} {error : ε} :
    okOr error (checkedAdd w a b) = .ok c ↔ a + b < 2 ^ w ∧ a + b = c :=
  okOr_eq_ok.trans checkedAdd_eq_some

theorem Except.bind_eq_ok {ε α β : Type} {x : Except ε α} {f : α → Except ε β} {b : β} :
    (x >>= f) = .ok b ↔ ∃ a, x = .ok a ∧ f a = .ok b := by
  cases x with
  | error e => exact iff_of_false (by rintro ⟨⟩) (by rintro ⟨_, ⟨⟩, -⟩)
  | ok a => exact ⟨fun h => ⟨a, rfl, h⟩, by rintro ⟨_, ⟨⟩, h⟩; exact h⟩

/-- A check that is passed. -/
theorem ite_error_eq_ok {ε α : Type} {p : Prop} [Decidable p] {error : ε} {x : Except ε α}
    {value : α} : (if p then .error error else x) = .ok value ↔ ¬p ∧ x = .ok value := by
  by_cases h : p
  · simp [h]
  · simp [h]

end SglangRs
