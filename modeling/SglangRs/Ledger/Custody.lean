import Mathlib.Tactic.Abel
import SglangRs.Ledger.Histories

/-!
# Custody of items

A carrier takes items in, holds them while they are under way, settles each with a verdict, and
hands the settled ones over; an item may be withdrawn before it is handed over. A `Custody` divides
the items taken in by what has become of them, and each operation moves items between the parts.
Items need not be distinct, hence the multisets.

## Main definitions

* `Ledger.Custody`: the items by what has become of them.
* `Ledger.Custody.items`: all items taken in.

## Main results

* `Ledger.Custody.items_settle`, `Ledger.Custody.items_deliver`, `Ledger.Custody.items_withdraw`,
  `Ledger.Custody.items_withdrawSettled`: no operation loses or duplicates an item.
-/

namespace Ledger

/-- The items a carrier has taken in, by what has become of them. -/
structure Custody (ι υ : Type) where
  held : Multiset ι := 0
  settled : Multiset (ι × υ) := 0
  delivered : Multiset (ι × υ) := 0
  withdrawn : Multiset ι := 0

namespace Custody

variable {ι υ : Type} (c : Custody ι υ)

/-- The items that are no longer held. -/
def released : Multiset ι := c.settled.map Prod.fst + c.delivered.map Prod.fst + c.withdrawn

/-- All items taken in. -/
def items : Multiset ι := c.held + c.released

/-- An item is taken in. -/
def receive (i : ι) : Custody ι υ := { c with held := i ::ₘ c.held }

/-- An item is settled at once. -/
def receiveSettled (i : ι) (v : υ) : Custody ι υ := { c with settled := (i, v) ::ₘ c.settled }

/-- A held item is settled, and the items `rest` stay held. -/
def settle (i : ι) (v : υ) (rest : Multiset ι) : Custody ι υ :=
  { c with held := rest, settled := (i, v) ::ₘ c.settled }

/-- The settled items are handed over. -/
def deliver : Custody ι υ := { c with settled := 0, delivered := c.delivered + c.settled }

/-- A held item is withdrawn, and the items `rest` stay held. -/
def withdraw (i : ι) (rest : Multiset ι) : Custody ι υ :=
  { c with held := rest, withdrawn := i ::ₘ c.withdrawn }

/-- The settled items with the property `p` are withdrawn. -/
def withdrawSettled (p : ι → Prop) [DecidablePred p] : Custody ι υ :=
  { c with
    settled := c.settled.filter fun d => ¬ p d.1
    withdrawn := (c.settled.filter fun d => p d.1).map Prod.fst + c.withdrawn }

theorem items_receive (i : ι) : (c.receive i).items = i ::ₘ c.items := by
  simp [items, receive, released]

@[simp] theorem released_receive (i : ι) : (c.receive i).released = c.released := rfl

theorem released_receiveSettled (i : ι) (v : υ) :
    (c.receiveSettled i v).released = i ::ₘ c.released := by
  simp [receiveSettled, released]

theorem items_receiveSettled (i : ι) (v : υ) :
    (c.receiveSettled i v).items = i ::ₘ c.items := by
  rw [items, released_receiveSettled, items, Multiset.add_cons]
  rfl

theorem released_settle (i : ι) (v : υ) (rest : Multiset ι) :
    (c.settle i v rest).released = i ::ₘ c.released := by
  simp [settle, released]

theorem released_withdraw (i : ι) (rest : Multiset ι) :
    (c.withdraw i rest).released = i ::ₘ c.released := by
  simp [withdraw, released]

theorem released_deliver : c.deliver.released = c.released := by
  simp only [deliver, released, Multiset.map_zero, Multiset.map_add]
  abel

theorem released_withdrawSettled (p : ι → Prop) [DecidablePred p] :
    (c.withdrawSettled p).released = c.released := by
  have hsplit := Multiset.filter_add_not (fun d : ι × υ => p d.1) c.settled
  have hmap := congrArg (Multiset.map Prod.fst) hsplit
  rw [Multiset.map_add] at hmap
  simp only [withdrawSettled, released]
  rw [← hmap]
  abel

variable {c} {i : ι} {rest : Multiset ι}

theorem items_settle (h : c.held = i ::ₘ rest) (v : υ) :
    (c.settle i v rest).items = c.items := by
  rw [items, released_settle, items, h, Multiset.add_cons, Multiset.cons_add]
  rfl

theorem items_withdraw (h : c.held = i ::ₘ rest) : (c.withdraw i rest).items = c.items := by
  rw [items, released_withdraw, items, h, Multiset.add_cons, Multiset.cons_add]
  rfl

variable (c)

theorem items_deliver : c.deliver.items = c.items := by
  rw [items, released_deliver, items]
  rfl

theorem items_withdrawSettled (p : ι → Prop) [DecidablePred p] :
    (c.withdrawSettled p).items = c.items := by
  rw [items, released_withdrawSettled, items]
  rfl

variable {c} in
/-- What is withdrawn while nothing is taken in or handed over was held or settled. -/
theorem le_held_add_settled {c' : Custody ι υ} {new : Multiset ι} (hitems : c'.items = c.items)
    (hdelivered : c'.delivered = c.delivered) (hnew : c'.withdrawn = new + c.withdrawn) :
    new ≤ c.held + c.settled.map Prod.fst := by
  have heq : c'.held + c'.settled.map Prod.fst + new = c.held + c.settled.map Prod.fst := by
    refine add_right_cancel (b := c.delivered.map Prod.fst + c.withdrawn) ?_
    rw [items, released, hdelivered, hnew, items, released] at hitems
    convert hitems using 1 <;> abel
  rw [← heq]
  exact Multiset.le_add_left _ _

end Custody

end Ledger
