import Mathlib.Data.List.GetD
import Mathlib.Data.List.Nodup
import Mathlib.Data.List.Range
import Mathlib.Data.Nat.ModEq
import Mathlib.Tactic.Ring

/-!
# Slots laid out on pages

Memory is cut into pages of `p` consecutive slots, the page `g` holding the slots
`g * p, …, g * p + p - 1`. A growing sequence fills its pages one after the other: its `i`-th slot
is the slot `i % p` of its page number `i / p`. This file develops these layouts.

`layout p pages n` is the list of the first `n` slots laid out on `pages`. Growing a layout by
`m` slots first fills the rest of the last page and then starts new pages
(`layout_append_grow`). `firstPages p xs` lists the pages whose first slot occurs in `xs`; for a
whole layout these are its pages (`firstPages_layout`).

## Main definitions

* `Paging.layout`: the first `n` slots laid out on a list of pages.
* `Paging.firstPages`: the pages whose first slot occurs in a list of slots.
* `Paging.Paged`: a list of slots laid out on the pages it starts.

## Main results

* `Paging.layout_append_grow`: growing a layout.
* `Paging.firstPages_layout`: the pages started by a layout.
* `Paging.Paged.page_mem_firstPages`, `Paging.Paged.nodup`: a slot of a paged list lies on a
  page the list starts, and its slots are distinct if its pages are.
-/

namespace Paging

variable {p : ℕ}

/-- The first `n` slots laid out on `pages`: position `i` is the slot `i % p` of the page number
`i / p`. -/
def layout (p : ℕ) (pages : List ℕ) (n : ℕ) : List ℕ :=
  (List.range n).map fun i => pages.getD (i / p) 0 * p + i % p

/-- The pages whose first slot occurs in `slots`, in order of occurrence. -/
def firstPages (p : ℕ) (slots : List ℕ) : List ℕ :=
  (slots.filter fun x => x % p = 0).map fun x => x / p

@[simp] theorem length_layout (p : ℕ) (pages : List ℕ) (n : ℕ) :
    (layout p pages n).length = n := by
  simp [layout]

@[simp] theorem layout_zero (p : ℕ) (pages : List ℕ) : layout p pages 0 = [] := rfl

theorem getElem_layout (p : ℕ) (pages : List ℕ) {n i : ℕ} (hi : i < (layout p pages n).length) :
    (layout p pages n)[i] = pages.getD (i / p) 0 * p + i % p := by
  simp [layout]

theorem take_layout (p : ℕ) (pages : List ℕ) {m n : ℕ} (h : m ≤ n) :
    (layout p pages n).take m = layout p pages m := by
  simp [layout, ← List.map_take, List.take_range, Nat.min_eq_left h]

/-- A layout starts with the first slots of its first page. -/
theorem layout_cons (hp : 0 < p) (g : ℕ) (pages : List ℕ) (n : ℕ) :
    layout p (g :: pages) n =
      List.range' (g * p) (min n p) ++ layout p pages (n - min n p) := by
  apply List.ext_getElem
  · simp
  · intro i h₁ h₂
    rw [getElem_layout]
    have hin : i < n := by simpa using h₁
    by_cases hip : i < p
    · rw [List.getElem_append_left (by simp; omega)]
      simp [Nat.div_eq_of_lt hip, Nat.mod_eq_of_lt hip]
    · have hmin : min n p = p := by omega
      rw [List.getElem_append_right (by simp; omega), getElem_layout]
      have hdiv : i / p = (i - p) / p + 1 := by
        rw [Nat.div_eq_sub_div hp (by omega)]
      have hmod : i % p = (i - p) % p := Nat.mod_eq_sub_mod (by omega)
      simp [hmin, hdiv, hmod]

/-- **Growing a layout.** A sequence of `n` slots on `pages`, the last of which has `rest` free
slots, grows by `m` slots: first the free slots of the last page, then the slots of the new
pages. -/
theorem layout_append_grow (hp : 0 < p) (pages fresh : List ℕ) {n rest m r : ℕ}
    (hrest : n + rest = pages.length * p) (hlt : rest < p) (hr : r = min rest m) :
    layout p (pages ++ fresh) (n + m) =
      layout p pages n ++
        (List.range' (pages.getD ((n - 1) / p) 0 * p + (n - 1) % p + 1) r ++
          layout p fresh (m - r)) := by
  apply List.ext_getElem
  · simp
    omega
  · intro i h₁ h₂
    have hi : i < n + m := by simpa using h₁
    rw [getElem_layout]
    rcases lt_or_ge i n with hin | hin
    · -- a slot already laid out
      rw [List.getElem_append_left (by simpa using hin), getElem_layout]
      have hidx : i / p < pages.length := by
        rw [Nat.div_lt_iff_lt_mul hp]
        omega
      rw [List.getD_append _ _ _ _ hidx]
    · rw [List.getElem_append_right (by simpa using hin)]
      rcases lt_or_ge i (n + r) with hir | hir
      · -- a slot in the rest of the last page, which is then not empty
        rw [List.getElem_append_left (by simp; omega)]
        have hn : 0 < n := by
          rcases Nat.eq_zero_or_pos n with rfl | hn
          · have : pages.length = 0 := by
              by_contra hne
              have := Nat.le_mul_of_pos_left p (Nat.pos_of_ne_zero hne)
              omega
            simp [this] at hrest
            omega
          · exact hn
        have hlen : 1 ≤ pages.length := by
          by_contra h0
          have : pages.length = 0 := by omega
          simp [this] at hrest
          omega
        have hblock : ∀ j, n - 1 ≤ j → j < pages.length * p → j / p = pages.length - 1 := by
          intro j hj hj'
          have hsub : (pages.length - 1) * p = pages.length * p - p := by
            rw [Nat.sub_mul, one_mul]
          apply Nat.div_eq_of_lt_le
          · omega
          · rw [Nat.sub_add_cancel hlen]
            exact hj'
        have hi1 := hblock i (by omega) (by omega)
        have hn1 := hblock (n - 1) le_rfl (by omega)
        have hmi := Nat.div_add_mod i p
        have hmn := Nat.div_add_mod (n - 1) p
        rw [hi1] at hmi
        rw [hn1] at hmn
        rw [hi1, hn1, List.getD_append _ _ _ _ (by omega)]
        simp only [List.getElem_range', length_layout, one_mul]
        omega
      · -- a slot on a new page: the last old page is full
        rw [List.getElem_append_right (by simp; omega), getElem_layout]
        have hrr : r = rest := by omega
        have hidx : i = pages.length * p + (i - n - r) := by omega
        have hdiv : i / p = pages.length + (i - n - r) / p := by
          conv_lhs => rw [hidx, mul_comm, Nat.mul_add_div hp]
        have hmod : i % p = (i - n - r) % p := by
          conv_lhs => rw [hidx, mul_comm, Nat.mul_add_mod]
        rw [hdiv, hmod, List.getD_append_right _ _ _ _ (Nat.le_add_right _ _)]
        simp

/-! ### The pages started by a list of slots -/

@[simp] theorem firstPages_nil (p : ℕ) : firstPages p [] = [] := rfl

@[simp] theorem firstPages_append (p : ℕ) (xs ys : List ℕ) :
    firstPages p (xs ++ ys) = firstPages p xs ++ firstPages p ys := by
  simp [firstPages]

theorem mem_firstPages (hp : 0 < p) {slots : List ℕ} {g : ℕ} :
    g ∈ firstPages p slots ↔ g * p ∈ slots := by
  simp only [firstPages, List.mem_map, List.mem_filter, decide_eq_true_eq]
  constructor
  · rintro ⟨x, ⟨hx, hmod⟩, rfl⟩
    rwa [Nat.div_mul_cancel (Nat.dvd_of_mod_eq_zero hmod)]
  · intro hg
    exact ⟨g * p, ⟨hg, Nat.mul_mod_left g p⟩, Nat.mul_div_cancel g hp⟩

/-- Slots past the first one of a page start no page. -/
theorem firstPages_range'_tail {x n : ℕ} (hfit : x % p + n < p) :
    firstPages p (List.range' (x + 1) n) = [] := by
  simp only [firstPages, List.map_eq_nil_iff, List.filter_eq_nil_iff, List.mem_range'_1,
    decide_eq_true_eq]
  intro y hy h0
  obtain ⟨k, rfl⟩ : ∃ k, y = x + k := ⟨y - x, by omega⟩
  rw [Nat.add_mod, Nat.mod_eq_of_lt (show k < p by omega), Nat.mod_eq_of_lt (by omega)] at h0
  omega

/-- The first slots of a page start that page and no other. -/
theorem firstPages_range'_head (hp : 0 < p) {g n : ℕ} (h0 : 0 < n) (hn : n ≤ p) :
    firstPages p (List.range' (g * p) n) = [g] := by
  obtain ⟨n, rfl⟩ : ∃ k, n = k + 1 := ⟨n - 1, by omega⟩
  rw [List.range'_succ, ← List.singleton_append, firstPages_append,
    firstPages_range'_tail (by rw [Nat.mul_mod_left]; omega)]
  simp [firstPages, Nat.mul_div_cancel g hp]

/-- A layout that reaches its last page starts exactly its pages. -/
theorem firstPages_layout (hp : 0 < p) (pages : List ℕ) {n rest : ℕ}
    (hrest : n + rest = pages.length * p) (hlt : rest < p) :
    firstPages p (layout p pages n) = pages := by
  induction pages generalizing n with
  | nil =>
    have : n = 0 := by simp at hrest; omega
    simp [this]
  | cons g pages ih =>
    rw [List.length_cons, Nat.add_mul, one_mul] at hrest
    have hn : 0 < n := by
      have := Nat.zero_le (pages.length * p)
      omega
    rw [layout_cons hp, firstPages_append, firstPages_range'_head hp (by omega) (by omega)]
    rcases Nat.lt_or_ge n p with hnp | hnp
    · have h0 : pages.length * p = 0 := by
        by_contra hne
        have hpos : 0 < pages.length := Nat.pos_of_ne_zero fun h => hne (by rw [h, zero_mul])
        have := Nat.le_mul_of_pos_left p hpos
        omega
      have hnil : pages = [] := by
        rcases Nat.mul_eq_zero.mp h0 with h | h
        · exact List.length_eq_zero_iff.mp h
        · omega
      simp [hnil, show n - min n p = 0 by omega]
    · rw [ih (n := n - min n p) (by omega)]
      rfl

/-! ### Paged lists of slots -/

/-- A list of slots is *paged* when it is laid out on the pages it starts. -/
structure Paged (p : ℕ) (slots : List ℕ) : Prop where
  eq_layout : slots = layout p (firstPages p slots) slots.length
  fills : ∃ rest < p, slots.length + rest = (firstPages p slots).length * p

theorem Paged.nil (hp : 0 < p) : Paged p [] := ⟨rfl, 0, hp, by simp⟩

theorem paged_layout (hp : 0 < p) (pages : List ℕ) {n rest : ℕ}
    (hrest : n + rest = pages.length * p) (hlt : rest < p) : Paged p (layout p pages n) := by
  have hfirst := firstPages_layout hp pages hrest hlt
  refine ⟨by rw [hfirst, length_layout], rest, hlt, by rw [hfirst, length_layout, hrest]⟩

namespace Paged

variable {slots : List ℕ}

theorem getElem_eq (h : Paged p slots) {i : ℕ} (hi : i < slots.length) :
    slots[i] = (firstPages p slots).getD (i / p) 0 * p + i % p := by
  have := getElem_layout p (firstPages p slots) (n := slots.length) (i := i) (by simpa using hi)
  rw [← this]
  congr 1
  exact h.eq_layout

theorem div_lt (hp : 0 < p) (h : Paged p slots) {i : ℕ} (hi : i < slots.length) :
    i / p < (firstPages p slots).length := by
  obtain ⟨rest, -, hrest⟩ := h.fills
  rw [Nat.div_lt_iff_lt_mul hp]
  omega

theorem mod_getElem (h : Paged p slots) {i : ℕ} (hi : i < slots.length) :
    slots[i] % p = i % p := by
  rw [h.getElem_eq hi, Nat.mul_comm, Nat.mul_add_mod, Nat.mod_mod]

theorem div_getElem (hp : 0 < p) (h : Paged p slots) {i : ℕ} (hi : i < slots.length) :
    slots[i] / p = (firstPages p slots).getD (i / p) 0 := by
  rw [h.getElem_eq hi, Nat.mul_comm, Nat.mul_add_div hp,
    Nat.div_eq_of_lt (Nat.mod_lt _ hp), Nat.add_zero]

/-- A slot of a paged list lies on a page the list starts. -/
theorem page_mem_firstPages (hp : 0 < p) (h : Paged p slots) {x : ℕ} (hx : x ∈ slots) :
    x / p ∈ firstPages p slots := by
  obtain ⟨i, hi, rfl⟩ := List.mem_iff_getElem.mp hx
  rw [h.div_getElem hp hi, List.getD_eq_getElem _ _ (h.div_lt hp hi)]
  exact List.getElem_mem _

/-- A paged list on distinct pages has no repeated slot. -/
theorem nodup (hp : 0 < p) (h : Paged p slots) (hn : (firstPages p slots).Nodup) :
    slots.Nodup := by
  rw [List.nodup_iff_injective_get]
  rintro ⟨i, hi⟩ ⟨j, hj⟩ hij
  have hij : slots[i] = slots[j] := hij
  have hmod : i % p = j % p := by
    rw [← h.mod_getElem hi, ← h.mod_getElem hj, hij]
  have hdiv : i / p = j / p := by
    have hpage : slots[i] / p = slots[j] / p := by rw [hij]
    rw [h.div_getElem hp hi, h.div_getElem hp hj, List.getD_eq_getElem _ _ (h.div_lt hp hi),
      List.getD_eq_getElem _ _ (h.div_lt hp hj)] at hpage
    exact (List.Nodup.getElem_inj_iff hn).mp hpage
  rw [Fin.mk.injEq, ← Nat.div_add_mod i p, ← Nat.div_add_mod j p, hdiv, hmod]

theorem take (hp : 0 < p) (h : Paged p slots) (k : ℕ) : Paged p (slots.take k) := by
  rcases Nat.lt_or_ge slots.length k with hk | hk
  · rwa [List.take_of_length_le hk.le]
  · have htake : slots.take k =
        layout p ((firstPages p slots).take ((k + p - 1) / p)) k := by
      conv_lhs => rw [h.eq_layout, take_layout p _ hk]
      refine List.map_congr_left fun i hi => ?_
      have hi : i < k := List.mem_range.mp hi
      have hlt : i / p < (k + p - 1) / p := by
        rw [Nat.div_lt_iff_lt_mul hp]
        have := Nat.div_add_mod (k + p - 1) p
        have := Nat.mod_lt (k + p - 1) hp
        rw [Nat.mul_comm]
        omega
      simp [List.getD_eq_getElem?_getD, hlt]
    obtain ⟨rest, -, hrest⟩ := h.fills
    have hceil : (k + p - 1) / p ≤ (firstPages p slots).length := by
      rw [Nat.div_le_iff_le_mul_add_pred hp, Nat.mul_comm]
      omega
    rw [htake]
    have hmod := Nat.div_add_mod (k + p - 1) p
    have hlt := Nat.mod_lt (k + p - 1) hp
    rw [Nat.mul_comm] at hmod
    have hfill : k + (p - 1 - (k + p - 1) % p) =
        ((firstPages p slots).take ((k + p - 1) / p)).length * p := by
      rw [List.length_take, Nat.min_eq_left hceil]
      omega
    exact paged_layout hp _ hfill (by omega)

/-- **Growing a paged list.** Extending a paged list by the free slots after its last slot `last`
and then by slots laid out on fresh pages gives a paged list, which starts the fresh pages in
addition. -/
theorem grow (hp : 0 < p) (h : Paged p slots) {fresh : List ℕ} {last m r : ℕ}
    (hne : slots ≠ []) (hlast : slots.getLast hne = last) (hr : r = min (p - last % p - 1) m)
    (hfresh : ∃ rest < p, m - r + rest = fresh.length * p) :
    Paged p (slots ++ (List.range' (last + 1) r ++ layout p fresh (m - r))) ∧
      firstPages p (List.range' (last + 1) r ++ layout p fresh (m - r)) = fresh := by
  obtain ⟨rest, hlt, hrest⟩ := h.fills
  obtain ⟨rest', hlt', hrest'⟩ := hfresh
  have hlen : 0 < slots.length := List.length_pos_iff.mpr hne
  have hget : last = slots[slots.length - 1] := by rw [← hlast, List.getLast_eq_getElem]
  have hlastmod : last % p = (slots.length - 1) % p := by
    rw [hget, h.mod_getElem (by omega)]
  have hpages : 1 ≤ (firstPages p slots).length := by
    by_contra h0
    have h0' : (firstPages p slots).length = 0 := by omega
    rw [h0', zero_mul] at hrest
    omega
  have hidx : (slots.length - 1) / p = (firstPages p slots).length - 1 := by
    apply Nat.div_eq_of_lt_le
    · rw [Nat.sub_mul, one_mul]
      omega
    · rw [Nat.sub_add_cancel hpages]
      omega
  have hfree : p - last % p - 1 = rest := by
    have hmul := Nat.div_add_mod (slots.length - 1) p
    rw [hidx, Nat.mul_comm, Nat.sub_mul, one_mul] at hmul
    have := Nat.le_mul_of_pos_left p (Nat.lt_of_lt_of_le Nat.zero_lt_one hpages)
    have := Nat.mod_lt (slots.length - 1) hp
    rw [hlastmod]
    omega
  have hfirst : firstPages p (List.range' (last + 1) r ++ layout p fresh (m - r)) = fresh := by
    rw [firstPages_append, firstPages_range'_tail (by have := Nat.mod_lt last hp; omega),
      firstPages_layout hp fresh hrest' hlt', List.nil_append]
  have heq : slots ++ (List.range' (last + 1) r ++ layout p fresh (m - r)) =
      layout p (firstPages p slots ++ fresh) (slots.length + m) := by
    rw [layout_append_grow hp (firstPages p slots) fresh hrest hlt (hfree ▸ hr),
      ← h.eq_layout]
    have hlast' : last = (firstPages p slots).getD ((slots.length - 1) / p) 0 * p +
        (slots.length - 1) % p := by
      rw [hget, h.getElem_eq (by omega)]
    rw [← hlast']
  refine ⟨?_, hfirst⟩
  rw [heq]
  -- the new last page is the last fresh one, or the old one when no page is fresh
  rcases Nat.lt_or_ge m rest with hm | hm
  · have hf : fresh.length = 0 := by
      by_contra hne
      have := Nat.le_mul_of_pos_left p (Nat.pos_of_ne_zero hne)
      omega
    have hfill : slots.length + m + (rest - m) = (firstPages p slots ++ fresh).length * p := by
      rw [List.length_append, hf, Nat.add_zero]
      omega
    exact paged_layout hp _ hfill (by omega)
  · have hfill : slots.length + m + rest' = (firstPages p slots ++ fresh).length * p := by
      rw [List.length_append, Nat.add_mul]
      omega
    exact paged_layout hp _ hfill hlt'

end Paged

end Paging
