import Mathlib.Order.Basic
import Mathlib.Order.Lattice
import SglangRs.Paging.Trie

/-!
# The radix prefix cache

`RadixCache` remembers, for every prompt prefix the model has computed, the KV cache slot of its
last token: a trie over token ids whose nodes carry slots (`cache.rs`, lines 475–547).

## Main definitions

* `RadixCache`, `RadixCache.insert`, `RadixCache.clear`.
* `PrefixMatch`, `RadixCache.matchPrefix`, `RadixCache.matchPrefixPageAligned`.
* `RadixCache.slotAt`: the slot held for a token prefix.

## Main results

* `RadixCache.slotAt_insert`: inserting a prompt overwrites the slots of its prefixes and no
  others.
* `RadixCache.getElem?_matchPrefix`: the slots matched are the slots of the prefixes matched.
-/

namespace SglangRs

open Paging

/-- A node of the prefix cache: `cache_page` is the value of the trie node. -/
abbrev RadixNode := Trie UInt32 ℕ

/-- The prefix cache. -/
structure RadixCache where
  root : RadixNode := {}

/-- The result of a prefix lookup. -/
structure PrefixMatch where
  matchedTokenCount : ℕ
  cachePages : List ℕ
  remainingInputIds : List UInt32
deriving DecidableEq, Repr

inductive RadixCacheError where
  | tokenPageLengthMismatch (tokenCount cachePageCount : ℕ)
deriving DecidableEq, Repr

namespace RadixCache

/-- Forget every prefix. -/
def clear (_ : RadixCache) : RadixCache := {}

/-- Remember one slot for every prefix of `inputIds`, overwriting the slots already there.

Source: `cache.rs`, lines 485–504. -/
def insert (c : RadixCache) (inputIds : List UInt32) (cachePages : List ℕ) :
    Except RadixCacheError RadixCache :=
  if inputIds.length ≠ cachePages.length then
    .error (.tokenPageLengthMismatch inputIds.length cachePages.length)
  else .ok { root := c.root.writePath (inputIds.zip cachePages) }

/-- The longest remembered prefix of `inputIds`.

Source: `cache.rs`, lines 506–529. -/
def matchPrefix (c : RadixCache) (inputIds : List UInt32) : PrefixMatch :=
  let cachePages := c.root.readPath inputIds
  { matchedTokenCount := cachePages.length
    cachePages
    remainingInputIds := inputIds.drop cachePages.length }

/-- The longest remembered prefix, cut to a multiple of the page size.

Source: `cache.rs`, lines 531–539. -/
def matchPrefixPageAligned (c : RadixCache) (inputIds : List UInt32) (pageSize : ℕ) :
    PrefixMatch :=
  let prefixMatch := c.matchPrefix inputIds
  let alignedTokenCount := prefixMatch.matchedTokenCount / pageSize * pageSize
  { matchedTokenCount := alignedTokenCount
    cachePages := prefixMatch.cachePages.take alignedTokenCount
    remainingInputIds := inputIds.drop alignedTokenCount }

/-- The slot the cache holds for the last token of the prefix `w`. -/
def slotAt (c : RadixCache) (w : List UInt32) : Option ℕ := c.root.get w

/-- The cache holds the slot `x` for some prefix. -/
def Holds (c : RadixCache) (x : ℕ) : Prop := ∃ w, c.slotAt w = some x

variable {c c' : RadixCache} {inputIds : List UInt32} {cachePages : List ℕ}

@[simp] theorem slotAt_default (w : List UInt32) : ({} : RadixCache).slotAt w = none :=
  Trie.get_empty w

@[simp] theorem slotAt_clear (w : List UInt32) : c.clear.slotAt w = none :=
  Trie.get_empty w

@[simp] theorem not_holds_default (x : ℕ) : ¬({} : RadixCache).Holds x := by
  simp [Holds]

@[simp] theorem not_holds_clear (x : ℕ) : ¬c.clear.Holds x := by
  simp [Holds]

/-- **Inserting a prompt.** The slot of every non-empty prefix of the prompt becomes the one
given, whatever was there; every other slot is kept. -/
theorem slotAt_insert (h : c.insert inputIds cachePages = .ok c') (w : List UInt32) :
    c'.slotAt w = if w ≠ [] ∧ w <+: inputIds then cachePages[w.length - 1]? else c.slotAt w := by
  unfold insert at h
  split_ifs at h with hlen
  obtain rfl := Except.ok.inj h
  push Not at hlen
  rw [slotAt, Trie.get_writePath, List.map_fst_zip hlen.le, List.map_snd_zip hlen.ge]
  rfl

theorem insert_eq_ok (hlen : inputIds.length = cachePages.length) :
    ∃ c', c.insert inputIds cachePages = .ok c' :=
  ⟨_, if_neg (not_not.mpr hlen)⟩

/-! ### Lookups -/

theorem matchedTokenCount_le (c : RadixCache) (inputIds : List UInt32) :
    (c.matchPrefix inputIds).matchedTokenCount ≤ inputIds.length :=
  Trie.length_readPath_le _ _

/-- The `i`-th slot matched is the one held for the prefix of length `i + 1`. -/
theorem getElem?_matchPrefix (c : RadixCache) (inputIds : List UInt32) {i : ℕ}
    (hi : i < (c.matchPrefix inputIds).cachePages.length) :
    (c.matchPrefix inputIds).cachePages[i]? = c.slotAt (inputIds.take (i + 1)) :=
  Trie.getElem?_readPath _ _ hi

section PageAligned

variable (c) (inputIds) (p : ℕ)

theorem matchedTokenCount_aligned_le :
    (c.matchPrefixPageAligned inputIds p).matchedTokenCount ≤
      (c.matchPrefix inputIds).cachePages.length :=
  Nat.div_mul_le_self _ _

theorem matchedTokenCount_aligned_le_length :
    (c.matchPrefixPageAligned inputIds p).matchedTokenCount ≤ inputIds.length :=
  (c.matchedTokenCount_aligned_le inputIds p).trans (c.matchedTokenCount_le inputIds)

theorem dvd_matchedTokenCount_aligned :
    p ∣ (c.matchPrefixPageAligned inputIds p).matchedTokenCount :=
  Nat.dvd_mul_left _ _

@[simp] theorem length_cachePages_aligned :
    (c.matchPrefixPageAligned inputIds p).cachePages.length =
      (c.matchPrefixPageAligned inputIds p).matchedTokenCount := by
  have := c.matchedTokenCount_aligned_le inputIds p
  exact (List.length_take).trans (Nat.min_eq_left this)

/-- The slots of a page-aligned match are held by the cache for the prefixes matched. -/
theorem getElem?_matchPrefixPageAligned {i : ℕ}
    (hi : i < (c.matchPrefixPageAligned inputIds p).matchedTokenCount) :
    (c.matchPrefixPageAligned inputIds p).cachePages[i]? = c.slotAt (inputIds.take (i + 1)) := by
  rw [← c.getElem?_matchPrefix inputIds
    (hi.trans_le (c.matchedTokenCount_aligned_le inputIds p))]
  exact List.getElem?_take_of_lt hi

end PageAligned

end RadixCache

end SglangRs
