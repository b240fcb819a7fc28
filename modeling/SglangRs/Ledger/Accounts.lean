import Mathlib.Algebra.BigOperators.Group.Multiset.Basic
import Mathlib.Algebra.Ring.Nat

/-!
# Accounts of deposits

Amounts are deposited into accounts, every deposit under a key of its own, and withdrawn again
later. The journal records the movements, newest first. In a balanced journal every key moves in one
of three ways, not at all, in, or in and out of the same account, and what is left in an account is
the sum of its open deposits.

## Main definitions

* `Ledger.Deposit`, `Ledger.Movement`: deposits and what the journal records of them.
* `Ledger.movementsOf`, `Ledger.deposited`, `Ledger.withdrawn`: the movements of a key and the
  turnover of an account.
* `Ledger.Balanced`: a journal with its open deposits.

## Main results

* `Ledger.Balanced.deposit`, `Ledger.Balanced.withdraw`: the two ways a journal grows.
* `Ledger.Balanced.withdrawn_le`: no account is overdrawn.
-/

namespace Ledger

/-- An amount in an account, under a key. -/
structure Deposit (κ α : Type) where
  key : κ
  account : α
  amount : ℕ
deriving DecidableEq, Repr

/-- What the journal records. -/
inductive Movement (κ α : Type) where
  | deposited (d : Deposit κ α)
  | withdrawn (d : Deposit κ α)
deriving DecidableEq, Repr

variable {κ α : Type} [DecidableEq κ] [DecidableEq α]

/-- The key of a movement. -/
def Movement.key : Movement κ α → κ
  | .deposited d | .withdrawn d => d.key

/-- The movements of a key. -/
def movementsOf (journal : List (Movement κ α)) (k : κ) : List (Movement κ α) :=
  journal.filter (·.key = k)

/-- What was deposited into an account. -/
def deposited (journal : List (Movement κ α)) (a : α) : ℕ :=
  (journal.map fun | .deposited d => if d.account = a then d.amount else 0 | .withdrawn _ => 0).sum

/-- What was withdrawn from an account. -/
def withdrawn (journal : List (Movement κ α)) (a : α) : ℕ :=
  (journal.map fun | .withdrawn d => if d.account = a then d.amount else 0 | .deposited _ => 0).sum

/-- What a collection of deposits holds in an account. -/
def holding (deposits : Multiset (Deposit κ α)) (a : α) : ℕ :=
  ((deposits.filter (·.account = a)).map Deposit.amount).sum

variable {journal : List (Movement κ α)} {d : Deposit κ α} {rest : Multiset (Deposit κ α)} {k : κ}
  {a : α}

omit [DecidableEq α] in
theorem movementsOf_cons_of_eq (m : Movement κ α) (h : m.key = k) :
    movementsOf (m :: journal) k = m :: movementsOf journal k :=
  List.filter_cons_of_pos (by simpa using h)

omit [DecidableEq α] in
theorem movementsOf_cons_of_ne (m : Movement κ α) (h : m.key ≠ k) :
    movementsOf (m :: journal) k = movementsOf journal k :=
  List.filter_cons_of_neg (by simpa using h)

omit [DecidableEq κ] in
@[simp] theorem holding_zero : holding (0 : Multiset (Deposit κ α)) a = 0 := rfl

omit [DecidableEq κ] in
theorem holding_cons : holding (d ::ₘ rest) a =
    (if d.account = a then d.amount else 0) + holding rest a := by
  by_cases h : d.account = a <;> simp [holding, h]

omit [DecidableEq κ] in
theorem deposited_cons (m : Movement κ α) : deposited (m :: journal) a =
    (match m with | .deposited d => if d.account = a then d.amount else 0 | .withdrawn _ => 0) +
      deposited journal a := rfl

omit [DecidableEq κ] in
theorem withdrawn_cons (m : Movement κ α) : withdrawn (m :: journal) a =
    (match m with | .withdrawn d => if d.account = a then d.amount else 0 | .deposited _ => 0) +
      withdrawn journal a := rfl

/-- The journal is balanced and `openDeposits` are the deposits not yet withdrawn. -/
structure Balanced (journal : List (Movement κ α)) (openDeposits : Multiset (Deposit κ α)) :
    Prop where
  nodup : (openDeposits.map Deposit.key).Nodup
  opened : ∀ d ∈ openDeposits, movementsOf journal d.key = [.deposited d]
  closed : ∀ k ∉ openDeposits.map Deposit.key,
    movementsOf journal k = [] ∨ ∃ d, movementsOf journal k = [.withdrawn d, .deposited d]
  balance : ∀ a, deposited journal a = withdrawn journal a + holding openDeposits a

namespace Balanced

theorem empty : Balanced ([] : List (Movement κ α)) 0 where
  nodup := Multiset.nodup_zero
  opened := by simp
  closed _ _ := .inl rfl
  balance _ := rfl

/-- A key that never moved makes a deposit. -/
theorem deposit (h : Balanced journal rest) (hnew : movementsOf journal d.key = []) :
    Balanced (.deposited d :: journal) (d ::ₘ rest) where
  nodup := by
    rw [Multiset.map_cons, Multiset.nodup_cons]
    refine ⟨fun hmem => ?_, h.nodup⟩
    obtain ⟨e, he, hkey⟩ := Multiset.mem_map.1 hmem
    have hmoved := h.opened e he
    rw [hkey, hnew] at hmoved
    exact List.cons_ne_nil _ _ hmoved.symm
  opened e he := by
    by_cases hkey : d.key = e.key
    · rw [movementsOf_cons_of_eq (.deposited d) hkey]
      obtain rfl | he := Multiset.mem_cons.1 he
      · rw [hnew]
      · have hmoved := h.opened e he
        rw [← hkey, hnew] at hmoved
        exact absurd hmoved.symm (List.cons_ne_nil _ _)
    · rw [movementsOf_cons_of_ne (.deposited d) hkey]
      obtain rfl | he := Multiset.mem_cons.1 he
      · exact absurd rfl hkey
      · exact h.opened e he
  closed k hk := by
    rw [Multiset.map_cons, Multiset.mem_cons, not_or] at hk
    rw [movementsOf_cons_of_ne (.deposited d) (Ne.symm hk.1)]
    exact h.closed k hk.2
  balance a := by
    simp only [deposited_cons, withdrawn_cons, holding_cons, h.balance a]
    omega

/-- An open deposit is withdrawn. -/
theorem withdraw (h : Balanced journal (d ::ₘ rest)) : Balanced (.withdrawn d :: journal) rest where
  nodup := (Multiset.nodup_cons.1 (by simpa using h.nodup)).2
  opened e he := by
    have hfresh := (Multiset.nodup_cons.1 (Multiset.map_cons Deposit.key d rest ▸ h.nodup)).1
    have hkey : d.key ≠ e.key := fun heq => hfresh (heq ▸ Multiset.mem_map_of_mem _ he)
    rw [movementsOf_cons_of_ne (.withdrawn d) hkey]
    exact h.opened e (Multiset.mem_cons_of_mem he)
  closed k hk := by
    by_cases hkey : d.key = k
    · refine .inr ⟨d, ?_⟩
      rw [movementsOf_cons_of_eq (.withdrawn d) hkey, ← hkey,
        h.opened d (Multiset.mem_cons_self d rest)]
    · rw [movementsOf_cons_of_ne (.withdrawn d) hkey]
      refine h.closed k ?_
      rw [Multiset.map_cons, Multiset.mem_cons, not_or]
      exact ⟨Ne.symm hkey, hk⟩
  balance a := by
    have hbalance := h.balance a
    rw [holding_cons] at hbalance
    simp only [deposited_cons, withdrawn_cons, hbalance]
    omega

theorem withdrawn_le {openDeposits : Multiset (Deposit κ α)} (h : Balanced journal openDeposits)
    (a : α) : withdrawn journal a ≤ deposited journal a :=
  h.balance a ▸ Nat.le_add_right _ _

end Balanced

end Ledger
