import SglangRs.Paging.Layout

/-!
# Slots that follow the tokens through the pages

A kernel that reads a sequence block by block needs every block of `p` slots to lie on one page,
each slot at the offset of its position. Unlike a list that is laid out on the pages it starts
(`Paging.Paged`), such a list may come back to a page it has left, as sequences do that are spliced
from parts of different origin.

## Main definitions

* `Paging.OnPages`: every block of a list lies on one page.
* `Paging.BeginsOnPages`: every block of the beginning of a list does.

## Main results

* `Paging.onPages_iff`: the slots of a block are consecutive and start a page.
* `Paging.Paged.onPages`, `Paging.onPages_of_take_drop`: lists laid out on pages, and splices at a
  page boundary.
-/

namespace Paging

variable {p : ℕ} {slots : List ℕ}

/-- The slot at position `i` is the slot `i % p` of the page of the block `i / p`. -/
def OnPages (p : ℕ) (slots : List ℕ) : Prop :=
  ∃ page : ℕ → ℕ, ∀ i x, slots[i]? = some x → x = page (i / p) * p + i % p

/-- Every block starts at the first slot of a page and is consecutive. -/
theorem onPages_iff (hp : 0 < p) : OnPages p slots ↔
    ∀ k j, j < p → k * p + j < slots.length →
      p ∣ slots.getD (k * p) 0 ∧ slots.getD (k * p + j) 0 = slots.getD (k * p) 0 + j := by
  have hblock (k j : ℕ) (hj : j < p) : (k * p + j) / p = k ∧ (k * p + j) % p = j := by
    rw [Nat.mul_comm, Nat.mul_add_div hp, Nat.div_eq_of_lt hj, Nat.mul_add_mod, Nat.mod_eq_of_lt hj]
    exact ⟨rfl, rfl⟩
  constructor
  · rintro ⟨page, h⟩ k j hj hlt
    have hslot (j : ℕ) (hj : j < p) (hlt : k * p + j < slots.length) :
        slots.getD (k * p + j) 0 = page k * p + j := by
      have hx := h _ _ (List.getElem?_eq_getElem hlt)
      rw [(hblock k j hj).1, (hblock k j hj).2] at hx
      rw [List.getD_eq_getElem _ _ hlt, hx]
    have hfirst := hslot 0 hp (by omega)
    rw [Nat.add_zero, Nat.add_zero] at hfirst
    rw [hslot j hj hlt, hfirst]
    exact ⟨Nat.dvd_mul_left _ _, rfl⟩
  · refine fun h => ⟨fun k => slots.getD (k * p) 0 / p, fun i x hx => ?_⟩
    obtain ⟨hlt, rfl⟩ := List.getElem?_eq_some_iff.mp hx
    have hi : i / p * p + i % p = i := Nat.div_add_mod' i p
    obtain ⟨hdvd, heq⟩ := h (i / p) (i % p) (Nat.mod_lt _ hp) (by rwa [hi])
    rw [hi, List.getD_eq_getElem _ _ hlt] at heq
    rw [heq, Nat.div_mul_cancel hdvd]

theorem OnPages.nil (p : ℕ) : OnPages p [] := ⟨fun _ => 0, by simp⟩

theorem OnPages.take (h : OnPages p slots) (n : ℕ) : OnPages p (slots.take n) := by
  obtain ⟨page, h⟩ := h
  refine ⟨page, fun i x hx => h i x ?_⟩
  rw [List.getElem?_take] at hx
  split_ifs at hx
  exact hx

/-- A list laid out on the pages it starts. -/
theorem Paged.onPages (h : Paged p slots) : OnPages p slots := by
  refine ⟨fun k => (firstPages p slots).getD k 0, fun i x hx => ?_⟩
  obtain ⟨hlt, rfl⟩ := List.getElem?_eq_some_iff.mp hx
  exact h.getElem_eq hlt

/-- Two parts that meet at a page boundary. -/
theorem onPages_of_take_drop (hp : 0 < p) {k : ℕ} (hk : p ∣ k) (htake : OnPages p (slots.take k))
    (hdrop : OnPages p (slots.drop k)) : OnPages p slots := by
  obtain ⟨m, rfl⟩ := hk
  obtain ⟨page, h⟩ := htake
  obtain ⟨page', h'⟩ := hdrop
  refine ⟨fun b => if b < m then page b else page' (b - m), fun i x hx => ?_⟩
  dsimp only
  rcases Nat.lt_or_ge i (p * m) with hi | hi
  · rw [if_pos (Nat.div_lt_of_lt_mul hi)]
    exact h i x ((List.getElem?_take_of_lt hi).trans hx)
  · have hge : m ≤ i / p := (Nat.le_div_iff_mul_le hp).mpr (by rwa [Nat.mul_comm])
    have hx' := h' (i - p * m) x (by rw [List.getElem?_drop, Nat.add_sub_cancel' hi]; exact hx)
    rw [if_neg (Nat.not_lt.mpr hge), hx', Nat.sub_mul_div, Nat.sub_mul_mod hi]

/-! ### The beginning of a list -/

/-- The first `n` slots lie on pages. -/
structure BeginsOnPages (p n : ℕ) (slots : List ℕ) : Prop where
  le_length : n ≤ slots.length
  onPages : OnPages p (slots.take n)

theorem BeginsOnPages.append {n : ℕ} (h : BeginsOnPages p n slots) (slots' : List ℕ) :
    BeginsOnPages p n (slots ++ slots') := by
  refine ⟨h.le_length.trans (by simp), ?_⟩
  rw [List.take_append_of_le_length h.le_length]
  exact h.onPages

theorem BeginsOnPages.of_take {n m : ℕ} (h : BeginsOnPages p n (slots.take m)) :
    BeginsOnPages p n slots := by
  rw [← List.take_append_drop m slots]
  exact h.append _

end Paging
