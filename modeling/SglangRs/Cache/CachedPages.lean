import SglangRs.Cache.Radix
import SglangRs.Paging.Blocks

/-!
# Whole pages in the radix prefix cache

Lookups are cut to whole pages (`match_prefix_page_aligned`, `cache.rs`, lines 531–539), so that the
slots matched should be those of pages. But the cache holds one slot per token, and an insertion
overwrites the slots of the prompt's prefixes only (lines 485–504). If a cached prompt and the one
inserted part ways inside a page, then the cached page keeps its old slots past this point and gets
new ones before it. The page is still one page only if the slots before it are the same.

## Main definitions

* `RadixCache.WholePages`: the slots of every cached page lie on one page.
* `RadixCache.KeepsPages`: an insertion gives the tokens of cached pages the slots they have.

## Main results

* `RadixCache.WholePages.onPages`: lookups give slots that follow the tokens through the pages.
* `RadixCache.WholePages.of_keepsPages`: insertions of this kind keep all cached pages.
-/

namespace SglangRs

open Paging

namespace RadixCache

/-- The slots of every cached page lie on one page: if all tokens of the last page of `w` have a
slot then these are the slots of a page, each at its offset. -/
def WholePages (p : ℕ) (c : RadixCache) : Prop :=
  ∀ w : List UInt32, p ∣ w.length → w ≠ [] →
    (∀ i < w.length, w.length ≤ i + p → (c.slotAt (w.take (i + 1))).isSome) →
    ∃ g, ∀ i < w.length, w.length ≤ i + p → c.slotAt (w.take (i + 1)) = some (g * p + i % p)

/-- Giving the prompt `u` the slots `slots` keeps the cached pages: where the last page of a cached
`w` begins like `u` and goes on differently, the tokens they share have these slots already. -/
def KeepsPages (p : ℕ) (c : RadixCache) (u : List UInt32) (slots : List ℕ) : Prop :=
  ∀ w : List UInt32, p ∣ w.length → ¬w <+: u →
    (∀ i < w.length, w.length ≤ i + p → ¬w.take (i + 1) <+: u →
      (c.slotAt (w.take (i + 1))).isSome) →
    ∀ i < w.length, w.length ≤ i + p → w.take (i + 1) <+: u →
      slots[i]? = c.slotAt (w.take (i + 1))

variable {p : ℕ} {c c' : RadixCache} {u : List UInt32} {slots : List ℕ}

theorem wholePages_default (p : ℕ) : WholePages p {} := by
  intro w _ hne hcached
  have hpos := List.length_pos_iff.mpr hne
  have hlast := hcached (w.length - 1) (by omega)
  rcases Nat.eq_zero_or_pos p with rfl | hp
  · exact ⟨0, fun i hi hle => absurd hle (by omega)⟩
  · simp at hlast
    omega

/-- An empty cache has no page to keep. -/
theorem keepsPages_default (p : ℕ) (u : List UInt32) (slots : List ℕ) :
    KeepsPages p {} u slots := by
  intro w _ hnot hcached i hi hrange _
  have hcached' := hcached (w.length - 1) (by omega) (by omega) (by
    rwa [Nat.sub_add_cancel (Nat.one_le_of_lt hi), List.take_length])
  simp at hcached'

/-- **Lookups give whole pages.** -/
theorem WholePages.onPages (hp : 0 < p) (h : c.WholePages p) (inputIds : List UInt32) :
    OnPages p (c.matchPrefixPageAligned inputIds p).cachePages := by
  set m := (c.matchPrefixPageAligned inputIds p).matchedTokenCount with hm
  have hle : m ≤ inputIds.length := c.matchedTokenCount_aligned_le_length inputIds p
  have hslot {i : ℕ} (hi : i < m) := c.getElem?_matchPrefixPageAligned inputIds p hi
  have hsome {i : ℕ} (hi : i < m) : (c.slotAt (inputIds.take (i + 1))).isSome := by
    rw [← hslot hi, List.getElem?_eq_getElem (by rwa [length_cachePages_aligned]), Option.isSome_some]
  have hblock (k : ℕ) : ∃ g, (k + 1) * p ≤ m → ∀ i < (k + 1) * p, (k + 1) * p ≤ i + p →
      c.slotAt (inputIds.take (i + 1)) = some (g * p + i % p) := by
    by_cases hk : (k + 1) * p ≤ m
    · have hlength : (inputIds.take ((k + 1) * p)).length = (k + 1) * p := by
        rw [List.length_take, Nat.min_eq_left (hk.trans hle)]
      have htake {i : ℕ} (hi : i < (k + 1) * p) :
          (inputIds.take ((k + 1) * p)).take (i + 1) = inputIds.take (i + 1) := by
        rw [List.take_take, Nat.min_eq_left hi]
      have hdvd : p ∣ (inputIds.take ((k + 1) * p)).length := by
        rw [hlength]
        exact Nat.dvd_mul_left _ _
      have hne : inputIds.take ((k + 1) * p) ≠ [] := by
        refine List.ne_nil_of_length_pos ?_
        rw [hlength]
        exact Nat.mul_pos (Nat.succ_pos k) hp
      obtain ⟨g, hg⟩ := h (inputIds.take ((k + 1) * p)) hdvd hne fun i hi _ => by
        rw [hlength] at hi
        rw [htake hi]
        exact hsome (hi.trans_le hk)
      refine ⟨g, fun _ i hi hrange => ?_⟩
      rw [← htake hi]
      exact hg i (hlength.symm ▸ hi) (hlength.symm ▸ hrange)
    · exact ⟨0, fun hk' => absurd hk' hk⟩
  choose page hpage using hblock
  refine ⟨page, fun i x hx => ?_⟩
  have hi : i < m := by
    rw [hm, ← length_cachePages_aligned]
    exact (List.getElem?_eq_some_iff.mp hx).1
  obtain ⟨b, hb⟩ : p ∣ m := c.dvd_matchedTokenCount_aligned inputIds p
  have hmod := Nat.div_add_mod' i p
  have hlt := Nat.mod_lt i hp
  have hblock : (i / p + 1) * p ≤ m := by
    rw [hb, Nat.mul_comm p b]
    exact Nat.mul_le_mul_right p (Nat.div_lt_of_lt_mul (hb ▸ hi))
  have hrange := hpage (i / p) hblock i (by rw [Nat.add_mul, one_mul]; omega)
    (by rw [Nat.add_mul, one_mul]; omega)
  rw [hslot hi, hrange] at hx
  exact (Option.some.inj hx).symm

/-- **Insertions that keep the cached pages keep them whole.** -/
theorem WholePages.of_keepsPages (h : c.WholePages p)
    (hinsert : ∀ w, c'.slotAt w =
      if w ≠ [] ∧ w <+: u then slots[w.length - 1]? else c.slotAt w)
    (hslots : OnPages p (slots.take u.length)) (hkeeps : c.KeepsPages p u slots) :
    c'.WholePages p := by
  intro w hdvd hne hcached
  have hnext {i : ℕ} (hi : i < w.length) : (w.take (i + 1)).length - 1 = i := by
    rw [List.length_take]
    omega
  have htake {i : ℕ} (hi : i < w.length) : w.take (i + 1) ≠ [] :=
    List.ne_nil_of_length_pos (by rw [List.length_take]; omega)
  by_cases hw : w <+: u
  · -- the page is one of the prompt
    obtain ⟨page, hpage⟩ := hslots
    obtain ⟨b, hb⟩ := hdvd
    refine ⟨page (b - 1), fun i hi hrange => ?_⟩
    have hslot := hcached i hi hrange
    rw [hinsert, if_pos ⟨htake hi, (List.take_prefix _ _).trans hw⟩, hnext hi] at hslot ⊢
    obtain ⟨x, hx⟩ := Option.isSome_iff_exists.mp hslot
    have hblock : i / p = b - 1 := by
      have hpos : 0 < b := Nat.pos_of_ne_zero fun h0 => by
        rw [h0, Nat.mul_zero] at hb
        omega
      refine Nat.div_eq_of_lt_le ?_ ?_
      · rw [Nat.sub_mul, Nat.mul_comm b p, one_mul]
        omega
      · rw [Nat.sub_add_cancel hpos, Nat.mul_comm]
        omega
    rw [hx, hpage i x ((List.getElem?_take_of_lt (hi.trans_le hw.length_le)).trans hx), hblock]
  · -- the page is a cached one, and none of its slots changes
    have hsame {i : ℕ} (hi : i < w.length) (hrange : w.length ≤ i + p) :
        c'.slotAt (w.take (i + 1)) = c.slotAt (w.take (i + 1)) := by
      rw [hinsert]
      split_ifs with hshared
      · rw [hnext hi]
        refine hkeeps w hdvd hw (fun j hj hrange hnot => ?_) i hi hrange hshared.2
        have hold := hcached j hj hrange
        rwa [hinsert, if_neg fun h => hnot h.2] at hold
      · rfl
    obtain ⟨g, hg⟩ := h w hdvd hne fun i hi hrange => hsame hi hrange ▸ hcached i hi hrange
    exact ⟨g, fun i hi hrange => (hsame hi hrange).trans (hg i hi hrange)⟩

end RadixCache

end SglangRs
