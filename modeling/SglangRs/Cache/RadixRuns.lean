import SglangRs.Cache.Radix

/-!
# Runs of the radix prefix cache

Inserts overwrite the slots of the prefixes that they share, token by token, so that one lookup may
splice slots of several inserts. The purpose of the cache is a map from token prefixes to slots: the
slot of a prefix is the one that the latest insert covering it gave it. Every run of the cache is
such a map, and lookups read it along the longest prefix that it knows.

## Main definitions

* `RadixCache.Call`, `RadixCache.run`: the calls of a cache and its runs.
* `RadixCache.inserted`: the successful inserts since the last clear, latest first.
* `RadixCache.latestSlot`: the slot of a prefix according to the inserts.
* `RadixCache.Matches`: what a lookup promises.

## Main results

* `RadixCache.represents_run`: a run of the cache is the map of its inserts.
* `radix_cache_refines_prefix_map`: lookups read this map.
-/

namespace SglangRs

namespace RadixCache

/-- The calls that change a cache. -/
inductive Call where
  | insert (inputIds : List UInt32) (cachePages : List ℕ)
  | clear

/-- The cache after a call. An insert that is rejected changes nothing. -/
def apply (c : RadixCache) : Call → RadixCache
  | .insert inputIds cachePages =>
      match c.insert inputIds cachePages with
      | .error _ => c
      | .ok c' => c'
  | .clear => c.clear

def run (c : RadixCache) (calls : List Call) : RadixCache := calls.foldl apply c

/-! ### The map of the inserts -/

/-- An insert: the tokens with the slot of each. -/
abbrev Insertion := List UInt32 × List ℕ

/-- The inserts after a call. -/
def record (inserts : List Insertion) : Call → List Insertion
  | .insert inputIds cachePages =>
      if inputIds.length = cachePages.length then (inputIds, cachePages) :: inserts else inserts
  | .clear => []

/-- The successful inserts since the last clear, latest first. -/
def inserted (calls : List Call) : List Insertion := calls.foldl record []

/-- The slot that the latest insert covering the prefix gave to its last token. -/
def latestSlot (inserts : List Insertion) (w : List UInt32) : Option ℕ :=
  (inserts.find? fun insertion => w <+: insertion.1).bind fun insertion =>
    insertion.2[w.length - 1]?

/-- The cache is the map of the inserts. -/
structure Represents (c : RadixCache) (inserts : List Insertion) : Prop where
  slotAt_nil : c.slotAt [] = none
  slotAt_eq : ∀ w, w ≠ [] → c.slotAt w = latestSlot inserts w
  lengths : ∀ insertion ∈ inserts, insertion.1.length = insertion.2.length

/-- What a lookup of `q` promises. -/
structure Matches (inserts : List Insertion) (q : List UInt32) (m : PrefixMatch) : Prop where
  le_length : m.matchedTokenCount ≤ q.length
  covered : m.matchedTokenCount = 0 ∨
    ∃ insertion ∈ inserts, q.take m.matchedTokenCount <+: insertion.1
  longest : ∀ k ≤ q.length, (∃ insertion ∈ inserts, q.take k <+: insertion.1) →
    k ≤ m.matchedTokenCount
  length_eq : m.cachePages.length = m.matchedTokenCount
  slots : ∀ d < m.matchedTokenCount, m.cachePages[d]? = latestSlot inserts (q.take (d + 1))
  append_eq : q.take m.matchedTokenCount ++ m.remainingInputIds = q

/-- `m'` is the longest part of the match `m` whose length is a multiple of `p`. -/
structure AlignsTo (p : ℕ) (q : List UInt32) (m m' : PrefixMatch) : Prop where
  dvd : p ∣ m'.matchedTokenCount
  le : m'.matchedTokenCount ≤ m.matchedTokenCount
  longest : ∀ k ≤ m.matchedTokenCount, p ∣ k → k ≤ m'.matchedTokenCount
  slots : m'.cachePages = m.cachePages.take m'.matchedTokenCount
  append_eq : q.take m'.matchedTokenCount ++ m'.remainingInputIds = q

variable {c : RadixCache} {inserts : List Insertion} {w : List UInt32}

theorem isSome_latestSlot (hlengths : ∀ insertion ∈ inserts, insertion.1.length = insertion.2.length)
    (hw : w ≠ []) :
    (latestSlot inserts w).isSome ↔ ∃ insertion ∈ inserts, w <+: insertion.1 := by
  unfold latestSlot
  cases hfind : inserts.find? fun insertion => w <+: insertion.1 with
  | none =>
    have hnone := List.find?_eq_none.mp hfind
    refine iff_of_false (by simp) ?_
    rintro ⟨insertion, hmem, hcovers⟩
    exact hnone insertion hmem (decide_eq_true hcovers)
  | some insertion =>
    have hmem := List.mem_of_find?_eq_some hfind
    have hcovers : w <+: insertion.1 := by simpa using List.find?_some hfind
    have hlt : w.length - 1 < insertion.2.length := by
      rw [← hlengths insertion hmem]
      have := List.length_pos_iff.mpr hw
      have := hcovers.length_le
      omega
    refine iff_of_true ?_ ⟨insertion, hmem, hcovers⟩
    rw [Option.bind_some, List.getElem?_eq_getElem hlt]
    rfl

/-! ### Calls -/

theorem represents_default : Represents {} [] :=
  ⟨slotAt_default [], fun w _ => slotAt_default w, nofun⟩

/-- An insert is rejected exactly if the lengths differ. -/
theorem insert_eq_error_iff {inputIds : List UInt32} {cachePages : List ℕ} :
    (∃ error, c.insert inputIds cachePages = .error error) ↔
      inputIds.length ≠ cachePages.length := by
  unfold insert
  split_ifs with hlen
  · exact iff_of_true ⟨_, rfl⟩ hlen
  · exact iff_of_false (by simp) hlen

theorem latestSlot_cons (insertion : Insertion) (inserts : List Insertion) (w : List UInt32) :
    latestSlot (insertion :: inserts) w =
      if w <+: insertion.1 then insertion.2[w.length - 1]? else latestSlot inserts w := by
  unfold latestSlot
  rw [List.find?_cons]
  split_ifs with hcovers
  · simp [hcovers]
  · simp [hcovers]

theorem Represents.insert (h : Represents c inserts) (inputIds : List UInt32)
    (cachePages : List ℕ) :
    Represents (c.apply (.insert inputIds cachePages))
      (record inserts (.insert inputIds cachePages)) := by
  by_cases hlen : inputIds.length = cachePages.length
  · obtain ⟨c', hc'⟩ := insert_eq_ok (c := c) hlen
    simp only [apply, hc', record, if_pos hlen]
    refine ⟨?_, fun w hw => ?_, List.forall_mem_cons.mpr ⟨hlen, h.lengths⟩⟩
    · rw [slotAt_insert hc', if_neg (by simp)]
      exact h.slotAt_nil
    · rw [slotAt_insert hc', latestSlot_cons, ← h.slotAt_eq w hw]
      simp only [ne_eq, hw, not_false_eq_true, true_and]
  · have hrejected := insert_eq_error_iff (c := c).mpr hlen
    obtain ⟨error, herror⟩ := hrejected
    simp only [apply, herror, record, if_neg hlen]
    exact h

theorem Represents.apply (h : Represents c inserts) (call : Call) :
    Represents (c.apply call) (record inserts call) := by
  cases call with
  | insert inputIds cachePages => exact h.insert inputIds cachePages
  | clear => exact represents_default

/-- **The map of a run.** -/
theorem represents_run (calls : List Call) :
    Represents (({} : RadixCache).run calls) (inserted calls) := by
  have hrun (c : RadixCache) (inserts : List Insertion) (h : Represents c inserts) :
      Represents (c.run calls) (calls.foldl record inserts) := by
    induction calls generalizing c inserts with
    | nil => exact h
    | cons call calls ih => exact ih _ _ (h.apply call)
  exact hrun _ _ represents_default

/-! ### Lookups -/

/-- The prefixes up to the matched one are covered by inserts, and the next one is not. -/
theorem Represents.covered_iff (h : Represents c inserts) (q : List UInt32) {k : ℕ}
    (hk : k < q.length) :
    (∃ insertion ∈ inserts, q.take (k + 1) <+: insertion.1) ↔
      (c.slotAt (q.take (k + 1))).isSome := by
  have hne : q.take (k + 1) ≠ [] := by
    intro hnil
    have hlen := congrArg List.length hnil
    rw [List.length_take, List.length_nil] at hlen
    omega
  rw [h.slotAt_eq _ hne, isSome_latestSlot h.lengths hne]

theorem Represents.matches (h : Represents c inserts) (q : List UInt32) :
    Matches inserts q (c.matchPrefix q) := by
  have hle := c.matchedTokenCount_le q
  have hslot {d : ℕ} (hd : d < (c.matchPrefix q).matchedTokenCount) :
      (c.matchPrefix q).cachePages[d]? = c.slotAt (q.take (d + 1)) :=
    c.getElem?_matchPrefix q hd
  refine ⟨hle, ?_, fun k hk hcovered => ?_, rfl, fun d hd => ?_, ?_⟩
  · rcases hcount : (c.matchPrefix q).matchedTokenCount with _ | count
    · exact .inl rfl
    · have hd : count < (c.matchPrefix q).matchedTokenCount := by omega
      refine .inr ((h.covered_iff q (by omega)).mpr ?_)
      have hlt : count < (c.matchPrefix q).cachePages.length := hd
      rw [← hslot hd, List.getElem?_eq_getElem hlt]
      rfl
  · by_contra hlt
    have hcount : (c.root.readPath q).length < q.length :=
      Nat.lt_of_lt_of_le (Nat.lt_of_not_le hlt) hk
    -- the first prefix that is not matched is shorter than `k`, so it is covered as well
    have hnext : ∃ insertion ∈ inserts,
        q.take ((c.matchPrefix q).matchedTokenCount + 1) <+: insertion.1 := by
      obtain ⟨insertion, hmem, hcovers⟩ := hcovered
      exact ⟨insertion, hmem, (List.take_prefix_take_left (by omega)).trans hcovers⟩
    have hsome := (h.covered_iff q hcount).mp hnext
    rw [slotAt, Paging.Trie.get_length_readPath _ _ hcount] at hsome
    cases hsome
  · rw [hslot hd]
    refine h.slotAt_eq _ fun hnil => ?_
    have hlen := congrArg List.length hnil
    rw [List.length_take, List.length_nil] at hlen
    omega
  · exact List.take_append_drop _ _

theorem alignsTo_matchPrefixPageAligned (c : RadixCache) (q : List UInt32) {p : ℕ} (hp : 0 < p) :
    AlignsTo p q (c.matchPrefix q) (c.matchPrefixPageAligned q p) := by
  refine ⟨c.dvd_matchedTokenCount_aligned q p, c.matchedTokenCount_aligned_le q p, ?_, rfl,
    List.take_append_drop _ _⟩
  rintro _ hk ⟨m, rfl⟩
  change p * m ≤ (c.matchPrefix q).matchedTokenCount / p * p
  rw [Nat.mul_comm]
  exact Nat.mul_le_mul_right p ((Nat.le_div_iff_mul_le hp).mpr (Nat.mul_comm p m ▸ hk))

end RadixCache

open RadixCache

/-- **The radix cache is a map on token prefixes.** After every run a lookup of `q` matches the
longest prefix of `q` that some insert since the last clear has covered, each token with the slot
that the latest insert covering it has given to it; a page-aligned lookup cuts the match to whole
pages. An insert is rejected exactly if it does not give one slot for each token, and then changes
nothing. -/
theorem radix_cache_refines_prefix_map (calls : List Call) :
    let c := ({} : RadixCache).run calls
    (∀ q, Matches (inserted calls) q (c.matchPrefix q)) ∧
      (∀ q p, 0 < p → AlignsTo p q (c.matchPrefix q) (c.matchPrefixPageAligned q p)) ∧
      ∀ inputIds cachePages,
        ((∃ error, c.insert inputIds cachePages = .error error) ↔
          inputIds.length ≠ cachePages.length) ∧
        (inputIds.length ≠ cachePages.length → c.apply (.insert inputIds cachePages) = c) := by
  intro c
  refine ⟨fun q => (represents_run calls).matches q,
    fun q p hp => c.alignsTo_matchPrefixPageAligned q hp,
    fun inputIds cachePages => ⟨insert_eq_error_iff, fun hlen => ?_⟩⟩
  obtain ⟨error, herror⟩ := insert_eq_error_iff.mpr hlen
  rw [apply, herror]

/-- A later, shorter insert gives the slot of the first token, an earlier one that of the second. -/
theorem radix_cache_refines_prefix_map_spliced :
    let c := ({} : RadixCache).run [.insert [1, 2, 3] [10, 11, 12], .insert [1] [20],
      .insert [3] []]
    c.matchPrefix [1, 2, 3, 4] = ⟨3, [20, 11, 12], [4]⟩ ∧
      AlignsTo 2 [1, 2, 3, 4] (c.matchPrefix [1, 2, 3, 4])
        (c.matchPrefixPageAligned [1, 2, 3, 4] 2) :=
  ⟨by decide, (radix_cache_refines_prefix_map _).2.1 [1, 2, 3, 4] 2 (by decide)⟩

end SglangRs
