import SglangRs.Router.BlockSets
import SglangRs.Transfer.BlockHashes

/-!
# What the engine announces the router finds

The engine announces a prompt chunk by chunk: each event carries the hashes of the blocks from the
one that the chunk starts in to the one that it ends in, as they are when the prompt is cut off at
the end of the chunk, below the hash of the block before. The router hashes the whole prompt and
looks the chain up from the root.

If no two of the block chains involved have the same hash, a hash determines the hash of the block
before it. The stream of events is then chain-consistent, and the tree keeps the blocks of all
prompts, whatever the boundaries of the chunks.

## Main definitions

* `Router.Cuts`: a range of tokens is cut into chunks.
* `Router.Published`: prompts are announced chunk by chunk.
* `Router.Involved`: the block chains that are announced or looked up.

## Main results

* `Router.Published.chainConsistent`: the events fit together.
* `Router.published_prompts_match`: every prompt is found.
-/

namespace SglangRs.Router

open Transition

/-- The chunks cover a range of tokens one after the other. -/
def Cuts : ℕ → List (ℕ × ℕ) → ℕ → Prop
  | start, [], stop => start = stop
  | start, chunk :: chunks, stop => chunk.1 = start ∧ chunk.1 ≤ chunk.2 ∧ Cuts chunk.2 chunks stop

/-- A chunk of one of several prompts. -/
structure PromptChunk (ι : Type) where
  prompt : ι
  start : ℕ
  stop : ℕ

variable {ι : Type} (sha256 : List UInt8 → Digest) (blockSize : ℕ)
  (prompts : ι → List UInt32)

/-- The chunks of one prompt. -/
def chunksOf [DecidableEq ι] (i : ι) (chunks : List (PromptChunk ι)) : List (ℕ × ℕ) :=
  (chunks.filter (·.prompt = i)).map fun chunk => (chunk.start, chunk.stop)

/-- The part of a stored event that the router reads. -/
def kvEvent (event : BlockStoredEvent) : KvCacheEvent :=
  .blockStored event.parentBlockHash event.blockHashes

/-- The event of a chunk. The identity of the request and the rank do not matter here. -/
def chunkEvent (requestIds : ι → RequestId) (rank : Int32) (chunk : PromptChunk ι) : KvCacheEvent :=
  kvEvent (.fromChunk sha256 (requestIds chunk.prompt) (prompts chunk.prompt) chunk.start chunk.stop
    blockSize rank)

/-- The prompts are announced chunk by chunk, the chunks of different prompts in any order. A prompt
is announced from its first token, or from the end of a block up to which earlier events cover it.
-/
structure Published [DecidableEq ι] (requestIds : ι → RequestId) (rank : Int32) (first : ι → ℕ)
    (chunks : List (PromptChunk ι)) : Prop where
  cuts : ∀ i, Cuts (first i) (chunksOf i chunks) (prompts i).length
  covered : ∀ i, first i = 0 ∨ blockSize ∣ first i ∧ ∃ earlier later, chunks = earlier ++ later ∧
    (∀ chunk ∈ earlier, chunk.prompt ≠ i) ∧
    ∀ h ∈ computeSglangBlockHashes sha256 ((prompts i).take (first i)) blockSize,
      h ∈ blockSet (earlier.map (chunkEvent sha256 blockSize prompts requestIds rank))

/-- The block chains that are announced or looked up: the prompts, cut off at the end of a chunk or
not at all, up to the end of one of their blocks. -/
def Involved (chunks : List (PromptChunk ι)) : Set (List UInt32) :=
  {tokens | ∃ i stop j, (stop = (prompts i).length ∨ ∃ chunk ∈ chunks, chunk.prompt = i ∧
    chunk.stop = stop) ∧ j * blockSize < min stop (prompts i).length ∧
    tokens = ((prompts i).take stop).take ((j + 1) * blockSize)}

/-- The hash of the last block of a chain. -/
def chainHash (tokens : List UInt32) : Option Int64 :=
  (computeSglangBlockHashes sha256 tokens blockSize).getLast?

/-- The hash of the block before the last one of the chain that a hash stands for. -/
noncomputable def chainParent (chunks : List (PromptChunk ι)) (h : Int64) : Option Int64 :=
  (computeSglangBlockHashes sha256 (Function.invFunOn (chainHash sha256 blockSize)
    (Involved blockSize prompts chunks) (some h)) blockSize).dropLast.getLast?

variable {sha256 blockSize prompts}

/-! ### Chains -/

theorem computeSglangBlockHashes_take (hp : 0 < blockSize) {tokens : List UInt32} {j : ℕ}
    (h : j * blockSize < tokens.length) :
    computeSglangBlockHashes sha256 (tokens.take ((j + 1) * blockSize)) blockSize =
      (List.range (j + 1)).map (blockHash sha256 tokens blockSize) := by
  have hlt : j < divCeil (tokens.take ((j + 1) * blockSize)).length blockSize := by
    rw [lt_divCeil hp, List.length_take, lt_min_iff]
    exact ⟨Nat.mul_lt_mul_of_pos_right (Nat.lt_succ_self j) hp, h⟩
  have hle : ¬j + 1 < divCeil (tokens.take ((j + 1) * blockSize)).length blockSize := by
    rw [lt_divCeil hp, List.length_take]
    omega
  have hcount : divCeil (tokens.take ((j + 1) * blockSize)).length blockSize = j + 1 := by omega
  rw [computeSglangBlockHashes_eq sha256 _ hp, hcount]
  refine List.map_congr_left fun k hk => blockHash_take sha256 tokens ?_
  exact Nat.mul_le_mul_right _ (List.mem_range.mp hk)

theorem chainHash_take (hp : 0 < blockSize) {tokens : List UInt32} {j : ℕ}
    (h : j * blockSize < tokens.length) :
    chainHash sha256 blockSize (tokens.take ((j + 1) * blockSize)) =
      some (blockHash sha256 tokens blockSize j) := by
  rw [chainHash, computeSglangBlockHashes_take hp h, List.range_succ, List.map_append]
  simp

/-- Without collisions, a hash determines the hash of the block before. -/
theorem chainParent_blockHash (hp : 0 < blockSize) {chunks : List (PromptChunk ι)}
    (hinj : Set.InjOn (chainHash sha256 blockSize) (Involved blockSize prompts chunks))
    {i : ι} {stop j : ℕ}
    (hstop : stop = (prompts i).length ∨ ∃ chunk ∈ chunks, chunk.prompt = i ∧ chunk.stop = stop)
    (hj : j * blockSize < min stop (prompts i).length) :
    chainParent sha256 blockSize prompts chunks
        (blockHash sha256 ((prompts i).take stop) blockSize j) =
      ((List.range j).map (blockHash sha256 ((prompts i).take stop) blockSize)).getLast? := by
  have hlen : j * blockSize < ((prompts i).take stop).length := by rwa [List.length_take]
  have hmem : ((prompts i).take stop).take ((j + 1) * blockSize) ∈
      Involved blockSize prompts chunks := ⟨i, stop, j, hstop, hj, rfl⟩
  have hchain := hinj.leftInvOn_invFunOn hmem
  rw [chainHash_take hp hlen] at hchain
  rw [chainParent, hchain, computeSglangBlockHashes_take hp hlen, List.range_succ, List.map_append]
  simp

/-- The blocks of a prompt from some block on follow the block before. -/
theorem chained_range' (par : Int64 → Option Int64) (f : ℕ → Int64) (k n : ℕ)
    (h : ∀ j < k + n, par (f j) = ((List.range j).map f).getLast?) :
    Chained par ((List.range k).map f).getLast? ((List.range' k n).map f) := by
  induction n generalizing k with
  | zero => trivial
  | succ n ih =>
    refine ⟨h k (by omega), ?_⟩
    have hrest := ih (k + 1) fun j hj => h j (by omega)
    rw [List.range_succ, List.map_append] at hrest
    simpa using hrest

/-! ### Events -/

/-- The blocks that the event of a chunk carries, and the block they follow. -/
theorem chunkEvent_eq (hp : 0 < blockSize) (requestIds : ι → RequestId) (rank : Int32)
    {chunk : PromptChunk ι} (hle : chunk.start ≤ chunk.stop)
    (hstop : chunk.stop ≤ (prompts chunk.prompt).length) :
    chunkEvent sha256 blockSize prompts requestIds rank chunk =
      .blockStored
        ((List.range (chunk.start / blockSize)).map
          (blockHash sha256 ((prompts chunk.prompt).take chunk.stop) blockSize)).getLast?
        ((List.range' (chunk.start / blockSize)
            (divCeil chunk.stop blockSize - chunk.start / blockSize)).map
          (blockHash sha256 ((prompts chunk.prompt).take chunk.stop) blockSize)) := by
  have hlen : ((prompts chunk.prompt).take chunk.stop).length = chunk.stop := by simpa using hstop
  simp only [chunkEvent, kvEvent, BlockStoredEvent.fromChunk, Nat.min_eq_left hstop,
    computeSglangBlockHashes_eq sha256 _ hp, hlen, KvCacheEvent.blockStored.injEq]
  refine ⟨?_, by rw [← List.map_drop, List.range_eq_range', List.drop_range']; simp⟩
  cases hk : chunk.start / blockSize with
  | zero => simp
  | succ k =>
    have hstart : (k + 1) * blockSize ≤ chunk.start := by
      rw [← hk]
      exact Nat.div_mul_le_self _ _
    have hlt : k < divCeil chunk.stop blockSize := by
      rw [lt_divCeil hp]
      exact (Nat.mul_lt_mul_of_pos_right (Nat.lt_succ_self k) hp).trans_le (hstart.trans hle)
    simp [List.range_succ, hlt]

/-- The worker holds the blocks of a prompt that lie before a token, and all of them if the prompt
ends there. -/
def Stored (sha256 : List UInt8 → Digest) (blockSize : ℕ) (tokens : List UInt32) (stop : ℕ)
    (held : Finset Int64) : Prop :=
  ∀ j, j * blockSize < stop → ((j + 1) * blockSize ≤ stop ∨ stop = tokens.length) →
    blockHash sha256 tokens blockSize j ∈ held

theorem Stored.mono {tokens : List UInt32} {stop : ℕ} {held held' : Finset Int64}
    (h : Stored sha256 blockSize tokens stop held) (hsub : held ⊆ held') :
    Stored sha256 blockSize tokens stop held' :=
  fun j hj hstop => hsub (h j hj hstop)

/-- The blocks of a prompt up to the end of one of them are covered. -/
theorem stored_of_covered (hp : 0 < blockSize) {tokens : List UInt32} {stop : ℕ}
    {held : Finset Int64} (hdvd : blockSize ∣ stop) (hle : stop ≤ tokens.length)
    (h : ∀ x ∈ computeSglangBlockHashes sha256 (tokens.take stop) blockSize, x ∈ held) :
    Stored sha256 blockSize tokens stop held := by
  intro j hj _
  obtain ⟨k, rfl⟩ := hdvd
  have hjk : j + 1 ≤ k := by
    rw [Nat.mul_comm] at hj
    exact Nat.lt_of_mul_lt_mul_left hj
  have hfull : (j + 1) * blockSize ≤ blockSize * k := by
    rw [Nat.mul_comm]
    exact Nat.mul_le_mul_left _ hjk
  apply h
  rw [computeSglangBlockHashes_eq sha256 _ hp, List.length_take, Nat.min_eq_left hle, List.mem_map]
  exact ⟨j, List.mem_range.mpr ((lt_divCeil hp).mpr hj), blockHash_take sha256 tokens hfull⟩

/-- A chunk moves the token up to which the prompt is stored to its end. -/
theorem stored_chunk (hp : 0 < blockSize) (requestIds : ι → RequestId) (rank : Int32)
    {chunk : PromptChunk ι} (hle : chunk.start ≤ chunk.stop)
    (hstop : chunk.stop ≤ (prompts chunk.prompt).length) {held : Finset Int64}
    (h : Stored sha256 blockSize (prompts chunk.prompt) chunk.start held) :
    Stored sha256 blockSize (prompts chunk.prompt) chunk.stop
      ((chunkEvent sha256 blockSize prompts requestIds rank chunk).update held) := by
  rw [chunkEvent_eq hp requestIds rank hle hstop]
  intro j hj hend
  rw [KvCacheEvent.update, Finset.mem_union, List.mem_toFinset, List.mem_map]
  by_cases hk : j < chunk.start / blockSize
  · left
    have hfull : (j + 1) * blockSize ≤ chunk.start :=
      (Nat.mul_le_mul_right _ hk).trans (Nat.div_mul_le_self _ _)
    have hlt : j * blockSize < (j + 1) * blockSize :=
      Nat.mul_lt_mul_of_pos_right (Nat.lt_succ_self j) hp
    exact h j (hlt.trans_le hfull) (.inl hfull)
  · right
    have hcount := (lt_divCeil hp).mpr hj
    refine ⟨j, List.mem_range'_1.mpr ⟨by omega, by omega⟩, ?_⟩
    rcases hend with hfull | hwhole
    · exact blockHash_take sha256 _ hfull
    · rw [hwhole, List.take_length]

/-- The event of a chunk fits the blocks that the worker holds. -/
theorem fits_chunk (hp : 0 < blockSize) (requestIds : ι → RequestId) (rank : Int32)
    {chunks : List (PromptChunk ι)}
    (hinj : Set.InjOn (chainHash sha256 blockSize) (Involved blockSize prompts chunks))
    {chunk : PromptChunk ι} (hmem : chunk ∈ chunks) (hle : chunk.start ≤ chunk.stop)
    (hstop : chunk.stop ≤ (prompts chunk.prompt).length) {held : Finset Int64}
    (h : Stored sha256 blockSize (prompts chunk.prompt) chunk.start held) :
    (chunkEvent sha256 blockSize prompts requestIds rank chunk).Fits
      (chainParent sha256 blockSize prompts chunks) held := by
  rw [chunkEvent_eq hp requestIds rank hle hstop]
  refine ⟨chained_range' _ _ _ _ fun j hj => ?_, fun _ x hx => ?_⟩
  · refine chainParent_blockHash hp hinj (.inr ⟨chunk, hmem, rfl, rfl⟩) ?_
    rw [Nat.min_eq_left hstop]
    by_cases hk : j < chunk.start / blockSize
    · have hlt : j * blockSize < chunk.start / blockSize * blockSize :=
        Nat.mul_lt_mul_of_pos_right hk hp
      exact hlt.trans_le ((Nat.div_mul_le_self _ _).trans hle)
    · exact (lt_divCeil hp).mp (by omega)
  · cases hk : chunk.start / blockSize with
    | zero => simp [hk] at hx
    | succ k =>
      have hfull : (k + 1) * blockSize ≤ chunk.start := by
        rw [← hk]
        exact Nat.div_mul_le_self _ _
      have hx' : blockHash sha256 ((prompts chunk.prompt).take chunk.stop) blockSize k = x := by
        simpa [hk, List.range_succ] using hx
      have hlt : k * blockSize < (k + 1) * blockSize :=
        Nat.mul_lt_mul_of_pos_right (Nat.lt_succ_self k) hp
      rw [← hx', blockHash_take sha256 _ (hfull.trans hle)]
      exact h k (hlt.trans_le hfull) (.inl hfull)

/-! ### The whole stream -/

theorem Cuts.le {start stop : ℕ} {chunks : List (ℕ × ℕ)} (h : Cuts start chunks stop) :
    start ≤ stop := by
  induction chunks generalizing start with
  | nil => exact le_of_eq h
  | cons chunk chunks ih =>
    obtain ⟨rfl, hle, hrest⟩ := h
    exact hle.trans (ih hrest)

section Stream

theorem chunksOf_cons_self [DecidableEq ι] (chunk : PromptChunk ι) (chunks : List (PromptChunk ι)) :
    chunksOf chunk.prompt (chunk :: chunks) =
      (chunk.start, chunk.stop) :: chunksOf chunk.prompt chunks := by
  simp [chunksOf]

theorem chunksOf_cons_of_ne [DecidableEq ι] {i : ι} {chunk : PromptChunk ι} (h : chunk.prompt ≠ i)
    (chunks : List (PromptChunk ι)) : chunksOf i (chunk :: chunks) = chunksOf i chunks := by
  simp [chunksOf, h]

/-- When the next chunk of the prompt comes, the prompt will have been stored up to a token. -/
def StoredByThen (sha256 : List UInt8 → Digest) (blockSize : ℕ) (prompts : ι → List UInt32)
    (requestIds : ι → RequestId) (rank : Int32) (i : ι) (start : ℕ) (chunks : List (PromptChunk ι))
    (held : Finset Int64) : Prop :=
  ∃ earlier later, chunks = earlier ++ later ∧ (∀ chunk ∈ earlier, chunk.prompt ≠ i) ∧
    Stored sha256 blockSize (prompts i) start
      ((earlier.map (chunkEvent sha256 blockSize prompts requestIds rank)).foldl
        KvCacheEvent.update held)

variable {requestIds : ι → RequestId} {rank : Int32}

theorem StoredByThen.now {chunk : PromptChunk ι} {start : ℕ} {chunks : List (PromptChunk ι)}
    {held : Finset Int64} (h : StoredByThen sha256 blockSize prompts requestIds rank chunk.prompt
      start (chunk :: chunks) held) :
    Stored sha256 blockSize (prompts chunk.prompt) start held := by
  obtain ⟨earlier, later, heq, hne, hstored⟩ := h
  cases earlier with
  | nil => exact hstored
  | cons e earlier =>
    obtain ⟨rfl, -⟩ := List.cons.inj heq
    exact absurd rfl (hne _ List.mem_cons_self)

/-- The chunk of another prompt does not matter. -/
theorem StoredByThen.skip {i : ι} {chunk : PromptChunk ι} {start : ℕ}
    {chunks : List (PromptChunk ι)} {held : Finset Int64}
    (h : StoredByThen sha256 blockSize prompts requestIds rank i start (chunk :: chunks) held) :
    StoredByThen sha256 blockSize prompts requestIds rank i start chunks
      ((chunkEvent sha256 blockSize prompts requestIds rank chunk).update held) := by
  obtain ⟨earlier, later, heq, hne, hstored⟩ := h
  cases earlier with
  | nil => exact ⟨[], chunks, rfl, by simp, hstored.mono Finset.subset_union_left⟩
  | cons e earlier =>
    obtain ⟨rfl, rfl⟩ := List.cons.inj heq
    exact ⟨earlier, later, rfl, fun c hc => hne c (List.mem_cons_of_mem _ hc), hstored⟩

variable [DecidableEq ι]

/-- The induction over the chunks: every prompt is stored up to the start of its next chunk when
that chunk comes, and all prompts are stored at the end. -/
theorem along_fits (hp : 0 < blockSize) {all : List (PromptChunk ι)}
    (hinj : Set.InjOn (chainHash sha256 blockSize) (Involved blockSize prompts all))
    (chunks : List (PromptChunk ι)) (hsub : chunks ⊆ all) (start : ι → ℕ) (held : Finset Int64)
    (hcuts : ∀ i, Cuts (start i) (chunksOf i chunks) (prompts i).length)
    (hstored : ∀ i,
      StoredByThen sha256 blockSize prompts requestIds rank i (start i) chunks held) :
    Along KvCacheEvent.update (KvCacheEvent.Fits (chainParent sha256 blockSize prompts all)) held
        (chunks.map (chunkEvent sha256 blockSize prompts requestIds rank)) ∧
      ∀ i, Stored sha256 blockSize (prompts i) (prompts i).length
        ((chunks.map (chunkEvent sha256 blockSize prompts requestIds rank)).foldl
          KvCacheEvent.update held) := by
  induction chunks generalizing start held with
  | nil =>
    refine ⟨trivial, fun i => ?_⟩
    have hstart : start i = (prompts i).length := hcuts i
    obtain ⟨earlier, later, heq, -, h⟩ := hstored i
    obtain ⟨rfl, -⟩ := List.append_eq_nil_iff.mp heq.symm
    rw [← hstart]
    exact h
  | cons chunk chunks ih =>
    have hcut := hcuts chunk.prompt
    rw [chunksOf_cons_self] at hcut
    obtain ⟨hfirst, hle, hrest⟩ := hcut
    change chunk.start = start chunk.prompt at hfirst
    have hnow : Stored sha256 blockSize (prompts chunk.prompt) chunk.start held :=
      hfirst ▸ (hstored chunk.prompt).now
    have hfits := fits_chunk hp requestIds rank hinj (hsub List.mem_cons_self) hle hrest.le hnow
    have hnext := ih (fun c hc => hsub (List.mem_cons_of_mem _ hc))
      (Function.update start chunk.prompt chunk.stop)
      ((chunkEvent sha256 blockSize prompts requestIds rank chunk).update held)
      (fun i => ?_) (fun i => ?_)
    · exact ⟨⟨hfits, hnext.1⟩, hnext.2⟩
    · by_cases hi : i = chunk.prompt
      · subst hi
        simpa using hrest
      · have hcut := hcuts i
        rw [chunksOf_cons_of_ne (Ne.symm hi)] at hcut
        simpa [hi] using hcut
    · by_cases hi : i = chunk.prompt
      · subst hi
        have hdone := stored_chunk hp requestIds rank hle hrest.le hnow
        exact ⟨[], chunks, rfl, by simp, by simpa using hdone⟩
      · simpa [hi] using (hstored i).skip

variable {first : ι → ℕ} {chunks : List (PromptChunk ι)}

theorem Published.stored_of_first (hp : 0 < blockSize)
    (h : Published sha256 blockSize prompts requestIds rank first chunks) (i : ι) :
    StoredByThen sha256 blockSize prompts requestIds rank i (first i) chunks ∅ := by
  rcases h.covered i with h0 | ⟨hdvd, earlier, later, heq, hne, hcovered⟩
  · refine ⟨[], chunks, rfl, by simp, fun j hj => ?_⟩
    rw [h0] at hj
    exact absurd hj (Nat.not_lt_zero _)
  · exact ⟨earlier, later, heq, hne, stored_of_covered hp hdvd (h.cuts i).le hcovered⟩

/-- The stream of events is chain-consistent, and at its end the worker holds every block of every
prompt. -/
theorem Published.chainConsistent (hp : 0 < blockSize)
    (h : Published sha256 blockSize prompts requestIds rank first chunks)
    (hinj : Set.InjOn (chainHash sha256 blockSize) (Involved blockSize prompts chunks)) :
    ChainConsistent (chainParent sha256 blockSize prompts chunks)
        (chunks.map (chunkEvent sha256 blockSize prompts requestIds rank)) ∧
      ∀ i j, j * blockSize < (prompts i).length → blockHash sha256 (prompts i) blockSize j ∈
        blockSet (chunks.map (chunkEvent sha256 blockSize prompts requestIds rank)) := by
  obtain ⟨hfits, hstored⟩ := along_fits hp hinj chunks (List.Subset.refl _) first ∅ h.cuts
    (h.stored_of_first hp)
  exact ⟨hfits, fun i j hj => hstored i j hj (.inr rfl)⟩

/-! ### Lookups -/

theorem isPath_range' (blocks : Set (Int64 × Option Int64 × Finset KvWorkerId)) (f : ℕ → Int64)
    (k n : ℕ)
    (h : ∀ j < k + n, ∃ workers, (f j, ((List.range j).map f).getLast?, workers) ∈ blocks) :
    TreeState.IsPath blocks ((List.range k).map f).getLast? ((List.range' k n).map f) := by
  induction n generalizing k with
  | zero => trivial
  | succ n ih =>
    refine ⟨h k (by omega), ?_⟩
    have hrest := ih (k + 1) fun j hj => h j (by omega)
    rw [List.range_succ, List.map_append] at hrest
    simpa using hrest

/-- The streams of the workers if one of them sends all events. -/
def onlyFrom (worker : KvWorkerId) (events : List KvCacheEvent) (w : KvWorkerId) :
    List KvCacheEvent :=
  if w = worker then events else []

/-- The tree at any time while the events are applied. -/
theorem Published.represents (hp : 0 < blockSize)
    (h : Published sha256 blockSize prompts requestIds rank first chunks)
    (hinj : Set.InjOn (chainHash sha256 blockSize) (Involved blockSize prompts chunks))
    (worker : KvWorkerId) (now : ℕ) {ops ops' : List TreeOperation}
    (hops : Interleaves (onlyFrom worker
      (chunks.map (chunkEvent sha256 blockSize prompts requestIds rank))) ops)
    (hpre : ops' <+: ops) :
    (((TreeState.new now).run ops').1).Represents
      (chainParent sha256 blockSize prompts chunks) (fun w => blockSet (stream w ops')) := by
  obtain ⟨rest, rfl⟩ := hpre
  refine (TreeState.represents_new _ now).run ops'
    (fun op hop => hops.1 op (List.mem_append_left _ hop)) fun w => ?_
  have hstream := hops.2 w
  have hfits := (h.chainConsistent hp hinj).1
  by_cases hw : w = worker
  · rw [onlyFrom, if_pos hw, stream, List.filterMap_append] at hstream
    rw [ChainConsistent, ← hstream, along_append] at hfits
    exact hfits.1
  · rw [onlyFrom, if_neg hw, stream, List.filterMap_append, List.append_eq_nil_iff] at hstream
    rw [stream, hstream.1]
    trivial

/-- A block of a prompt that was announced lists the worker. -/
theorem Published.lists (hp : 0 < blockSize)
    (h : Published sha256 blockSize prompts requestIds rank first chunks)
    (hinj : Set.InjOn (chainHash sha256 blockSize) (Involved blockSize prompts chunks))
    {worker : KvWorkerId} (now : ℕ) {ops : List TreeOperation}
    (hops : Interleaves (onlyFrom worker
      (chunks.map (chunkEvent sha256 blockSize prompts requestIds rank))) ops) {i : ι} {j : ℕ}
    (hj : j * blockSize < (prompts i).length) :
    (((TreeState.new now).run ops).1).Lists (blockHash sha256 (prompts i) blockSize j) worker := by
  have hs := h.represents hp hinj worker now hops (List.prefix_refl ops)
  rw [hs.lists_iff, hops.2, onlyFrom, if_pos rfl]
  exact (h.chainConsistent hp hinj).2 i j hj

/-- The blocks of a prompt that was announced are below each other in the tree. -/
theorem Published.isPath_contents (hp : 0 < blockSize)
    (h : Published sha256 blockSize prompts requestIds rank first chunks)
    (hinj : Set.InjOn (chainHash sha256 blockSize) (Involved blockSize prompts chunks))
    {worker : KvWorkerId} (now : ℕ) {ops : List TreeOperation}
    (hops : Interleaves (onlyFrom worker
      (chunks.map (chunkEvent sha256 blockSize prompts requestIds rank))) ops) (i : ι) :
    TreeState.IsPath ((TreeState.new now).run ops).1.contents none
      (computeBlockHashes sha256 (prompts i) blockSize) := by
  have hs := h.represents hp hinj worker now hops (List.prefix_refl ops)
  rw [computeBlockHashes_eq sha256 _ hp, List.range_eq_range']
  refine isPath_range' _ _ 0 _ fun j hj => ?_
  rw [Nat.zero_add, lt_divCeil hp] at hj
  obtain ⟨id, node, hne, hnode, hhash, -⟩ := h.lists hp hinj now hops hj
  have hparent := (hs.node_spec hne hnode).1
  have hpar := chainParent_blockHash hp hinj (i := i) (j := j) (.inl rfl) (by simpa using hj)
  rw [List.take_length] at hpar
  exact ⟨node.workers, id, node, hne, hnode, by rw [hparent, hhash, hpar]⟩

/-- The last block of a prompt. -/
theorem exists_last_block (sha256 : List UInt8 → Digest) (hp : 0 < blockSize)
    {tokens : List UInt32} (htokens : tokens ≠ []) :
    ∃ m, m * blockSize < tokens.length ∧
      (computeBlockHashes sha256 tokens blockSize).getLast? =
        some (blockHash sha256 tokens blockSize m) := by
  have hpos : 0 < divCeil tokens.length blockSize := by
    rw [lt_divCeil hp]
    simpa using List.length_pos_iff.mpr htokens
  obtain ⟨m, hm⟩ := Nat.exists_eq_succ_of_ne_zero hpos.ne'
  refine ⟨m, (lt_divCeil hp).mp (by omega), ?_⟩
  rw [computeBlockHashes_eq sha256 _ hp, hm, List.range_succ]
  simp

/-- **The router finds what the engine announces.** Let prompts be announced chunk by chunk, with
boundaries anywhere, for one worker, and let no two of the block chains involved have the same hash.
Applied to an empty tree, these events make a lookup of every prompt match all its blocks, with the
worker among those returned if the prompt has a block at all; and at no time do two nodes carry the
same hash. -/
theorem published_prompts_match (hp : 0 < blockSize)
    (h : Published sha256 blockSize prompts requestIds rank first chunks)
    (hinj : Set.InjOn (chainHash sha256 blockSize) (Involved blockSize prompts chunks))
    (worker : KvWorkerId) (now : ℕ) (ops : List TreeOperation)
    (hops : Interleaves (onlyFrom worker
      (chunks.map (chunkEvent sha256 blockSize prompts requestIds rank))) ops) :
    (∀ i order now',
      let blockHashes := computeBlockHashes sha256 (prompts i) blockSize
      let result := (((TreeState.new now).run ops).1.matchPrefix order now' none blockHashes).2
      result.matchedBlocks = blockHashes.length ∧ (prompts i ≠ [] → worker ∈ result.workers)) ∧
    ∀ ops', ops' <+: ops → ∀ id id' node node', id ≠ rootId → id' ≠ rootId →
      ((TreeState.new now).run ops').1.nodes.lookup id = some node →
      ((TreeState.new now).run ops').1.nodes.lookup id' = some node' →
      node.blockHash = node'.blockHash → id = id' := by
  constructor
  · intro i order now'
    have hs := h.represents hp hinj worker now hops (List.prefix_refl ops)
    set s := ((TreeState.new now).run ops).1
    have hpath := h.isPath_contents hp hinj now hops i
    obtain ⟨hle, hmatched, hworkers⟩ := TreeState.matchPrefix_finds hs.wellFormed hs.follows order
      now' none (computeBlockHashes sha256 (prompts i) blockSize)
    have hall : (s.matchPrefix order now' none
        (computeBlockHashes sha256 (prompts i) blockSize)).2.matchedBlocks =
        (computeBlockHashes sha256 (prompts i) blockSize).length :=
      Nat.le_antisymm hle ((hmatched _ le_rfl).mpr (by rwa [List.take_length]))
    refine ⟨hall, fun hprompt => (hworkers worker).mpr ?_⟩
    obtain ⟨m, hm, hlast⟩ := exists_last_block sha256 hp hprompt
    refine ⟨_, ?_, h.lists hp hinj now hops hm⟩
    rw [hall, List.take_length, hlast]
  · intro ops' hpre id id' node node' hid hid' hnode hnode' heq
    have hs := h.represents hp hinj worker now hops hpre
    refine hs.follows.eq_of_label hs.wellFormed.tree hid hid' (k := node.blockHash) ?_ ?_
    · simp [TreeState.links, hnode]
    · simp [TreeState.links, hnode', heq]

/-- SHA-256 on the inputs that occur for the prompt `[1, 2, 3]`. -/
def sampleSha256 (bytes : List UInt8) : Digest :=
  if bytes = [1, 0, 0, 0] then
    #v[103, 171, 221, 114, 16, 36, 240, 255, 78, 11, 63, 76, 47, 193, 59, 197,
      186, 212, 45, 11, 120, 81, 212, 86, 216, 141, 32, 61, 21, 170, 164, 80]
  else if bytes = [1, 0, 0, 0, 2, 0, 0, 0] then
    #v[52, 251, 92, 130, 93, 231, 202, 74, 234, 110, 113, 47, 25, 212, 57, 193,
      218, 12, 146, 195, 123, 66, 57, 54, 197, 246, 24, 84, 92, 164, 250, 31]
  else
    #v[58, 197, 211, 82, 190, 114, 14, 66, 134, 51, 254, 52, 252, 116, 89, 27,
      43, 128, 6, 10, 119, 100, 225, 149, 216, 243, 64, 104, 32, 58, 233, 143]

def samplePrompt : List UInt32 := [1, 2, 3]

def sampleChunks : List (PromptChunk Unit) := [⟨(), 0, 1⟩, ⟨(), 1, 3⟩]

def sampleEngine : KvWorkerId := ⟨"http://a", 0⟩

def sampleEvents : List KvCacheEvent :=
  sampleChunks.map (chunkEvent sampleSha256 2 (fun _ => samplePrompt) (fun _ => ⟨"r"⟩) 0)

def sampleOps : List TreeOperation :=
  sampleChunks.map fun chunk =>
    let event :=
      BlockStoredEvent.fromChunk sampleSha256 ⟨"r"⟩ samplePrompt chunk.start chunk.stop 2 0
    .insert TreeState.ascending 1 sampleEngine event.parentBlockHash event.blockHashes

theorem published_sampleChunks : Published sampleSha256 2 (fun _ => samplePrompt)
    (fun _ => ⟨"r"⟩) 0 (fun _ => 0) sampleChunks :=
  ⟨fun _ => by simp [Cuts, chunksOf, sampleChunks, samplePrompt], fun _ => .inl rfl⟩

theorem injOn_sampleChunks :
    Set.InjOn (chainHash sampleSha256 2) (Involved 2 (fun _ => samplePrompt) sampleChunks) := by
  have hinvolved : Involved 2 (fun _ => samplePrompt) sampleChunks ⊆ {[1], [1, 2], [1, 2, 3]} := by
    rintro tokens ⟨i, stop, j, hstop, hj, rfl⟩
    have hcases : stop = 1 ∨ stop = 3 := by
      rcases hstop with rfl | ⟨chunk, hmem, -, rfl⟩
      · exact .inr rfl
      · simp only [sampleChunks, List.mem_cons, List.not_mem_nil, or_false] at hmem
        rcases hmem with rfl | rfl <;> simp
    have hlen : samplePrompt.length = 3 := rfl
    have hj' : j = 0 ∨ j = 1 := by omega
    rcases hcases with rfl | rfl <;> rcases hj' with rfl | rfl <;> simp [samplePrompt] at hj ⊢
  refine Set.InjOn.mono hinvolved ?_
  rintro a (rfl | rfl | rfl) b (rfl | rfl | rfl) hab <;> first | rfl | exact absurd hab (by decide)

theorem interleaves_sampleOps : Interleaves (onlyFrom sampleEngine sampleEvents) sampleOps := by
  refine ⟨by simp [sampleOps, sampleChunks, TreeOperation.Evicts], fun w => ?_⟩
  by_cases hw : w = sampleEngine
  · simp [onlyFrom, hw, stream, sampleOps, sampleEvents, sampleChunks, TreeOperation.eventOf,
      TreeOperation.event, chunkEvent, kvEvent]
  · simp [onlyFrom, hw, Ne.symm hw, stream, sampleOps, sampleChunks, TreeOperation.eventOf,
      TreeOperation.event]

/-- A prompt of three tokens in two chunks, the first of which ends inside a block. -/
theorem published_prompts_match_of_unaligned_chunks :
    let prompt : List UInt32 := [1, 2, 3]
    let chunks : List (PromptChunk Unit) := [⟨(), 0, 1⟩, ⟨(), 1, 3⟩]
    let worker : KvWorkerId := ⟨"http://a", 0⟩
    let ops := chunks.map fun chunk =>
      let event := BlockStoredEvent.fromChunk sampleSha256 ⟨"r"⟩ prompt chunk.start chunk.stop 2 0
      TreeOperation.insert TreeState.ascending 1 worker event.parentBlockHash event.blockHashes
    let result := (((TreeState.new 0).run ops).1.matchPrefix TreeState.ascending 2 none
      (computeBlockHashes sampleSha256 prompt 2)).2
    result.matchedBlocks = 2 ∧ worker ∈ result.workers := by
  intro prompt chunks worker ops result
  obtain ⟨hmatched, hworkers⟩ := (published_prompts_match (by decide) published_sampleChunks
    injOn_sampleChunks worker 0 ops interleaves_sampleOps).1 () TreeState.ascending 2
  exact ⟨hmatched.trans (by decide), hworkers (by decide)⟩

/-- An empty prompt has no blocks, and no worker is returned for it. -/
theorem empty_prompt_without_worker :
    let chunks : List (PromptChunk Unit) := [⟨(), 0, 0⟩]
    let worker : KvWorkerId := ⟨"http://a", 0⟩
    let event := BlockStoredEvent.fromChunk sampleSha256 ⟨"r"⟩ [] 0 0 2 0
    let ops := [TreeOperation.insert TreeState.ascending 1 worker event.parentBlockHash
      event.blockHashes]
    Published sampleSha256 2 (fun _ => []) (fun _ => ⟨"r"⟩) 0 (fun _ => 0) chunks ∧
      Set.InjOn (chainHash sampleSha256 2) (Involved 2 (fun _ => []) chunks) ∧
      Interleaves (onlyFrom worker
        (chunks.map (chunkEvent sampleSha256 2 (fun _ => []) (fun _ => ⟨"r"⟩) 0))) ops ∧
      worker ∉ (((TreeState.new 0).run ops).1.matchPrefix TreeState.ascending 2 none
        (computeBlockHashes sampleSha256 [] 2)).2.workers := by
  intro chunks worker event ops
  refine ⟨⟨fun _ => by simp [Cuts, chunksOf, chunks], fun _ => .inl rfl⟩, ?_,
    ⟨by simp [ops, TreeOperation.Evicts], fun w => ?_⟩, ?_⟩
  · rintro a ⟨i, stop, j, -, hj, -⟩
    simp at hj
  · by_cases hw : w = worker
    · simp [onlyFrom, hw, stream, ops, chunks, TreeOperation.eventOf, TreeOperation.event,
        chunkEvent, kvEvent, event]
    · simp [onlyFrom, hw, Ne.symm hw, stream, ops, TreeOperation.eventOf, TreeOperation.event]
  · exact Finset.notMem_empty worker

end Stream

end SglangRs.Router
