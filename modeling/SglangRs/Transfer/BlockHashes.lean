import Mathlib.Data.List.Range
import Mathlib.Order.Lattice.Nat
import SglangRs.Scheduler.Request

/-!
# Block hashes

A prompt is cut into blocks of a fixed number of tokens, the last one possibly shorter. The hash of
a block depends on the tokens of the block and on the digest of the block before it, so that it
stands for the whole prompt up to the end of the block. The engine computes these hashes
(`sglang-srt/src/cache.rs`) to announce the blocks it has stored
(`sglang-srt/src/transfer/state_events.rs`), and the router
(`sglang-router/src/policies/kv_events/hash.rs`) to look prompts up; SHA-256 itself is a parameter.

## Main definitions

* `Digest`, `chainBlock`, `sha256ToI64`: the hash of one block.
* `computeSglangBlockHashes`, `computeBlockHashes`: the hashes of a prompt, of the engine and of the
  router. Both assert that the block size is positive.
* `BlockStoredEvent`, `BlockStoredEvent.fromChunk`: the event for a chunk of a prompt.
* `blockHash`: the hash of a block of a prompt.

## Main results

* `computeSglangBlockHashes_eq`, `computeBlockHashes_eq`: both lists are the hashes of the blocks.
* `blockHash_take`: a hash stands for the tokens up to the end of its block.
-/

namespace SglangRs

/-- The 32 bytes of a SHA-256 digest. -/
abbrev Digest := Vector UInt8 32

/-- The bytes of a token, least significant first. -/
def toLeBytes (token : UInt32) : List UInt8 :=
  [token.toUInt8, (token >>> 8).toUInt8, (token >>> 16).toUInt8, (token >>> 24).toUInt8]

/-- The 64-bit integer with the given bytes, most significant first. -/
def fromBeBytes (bytes : List UInt8) : Int64 :=
  (bytes.foldl (fun (value : UInt64) byte => (value <<< 8) ||| byte.toUInt64) 0).toInt64

/-- The first eight bytes of a digest.

Source: `hash.rs`, `sha256_to_i64`, and `cache.rs`, `sglang_sha256_digest_to_i64`. -/
def sha256ToI64 (digest : Digest) : Int64 := fromBeBytes (digest.toList.take 8)

section Hashes

variable (sha256 : List UInt8 → Digest)

/-- The digest of a block that follows a block with the given digest.

Source: `hash.rs`, `chain_block`, and `cache.rs`, `sglang_hash_block`. -/
def chainBlock (parentDigest : Option Digest) (blockTokens : List UInt32) : Digest :=
  sha256 ((parentDigest.map Vector.toList).getD [] ++ blockTokens.flatMap toLeBytes)

/-- The number of blocks of a list of tokens. -/
def divCeil (n blockSize : ℕ) : ℕ := (n + blockSize - 1) / blockSize

/-- A block of a list of tokens. -/
def tokenBlock (tokens : List UInt32) (blockSize j : ℕ) : List UInt32 :=
  (tokens.drop (j * blockSize)).take blockSize

/-- The blocks of a list of tokens, as the `chunks` of a slice. -/
def sliceChunks (tokens : List UInt32) (blockSize : ℕ) : List (List UInt32) :=
  (List.range (divCeil tokens.length blockSize)).map (tokenBlock tokens blockSize)

/-- The loop of `compute_sglang_block_hashes`. -/
def hashBlocks : Option Digest → List (List UInt32) → List Int64
  | _, [] => []
  | parentDigest, block :: blocks =>
      let digest := chainBlock sha256 parentDigest block
      sha256ToI64 digest :: hashBlocks (some digest) blocks

/-- Source: `cache.rs`, lines 103–120. -/
def computeSglangBlockHashes (inputIds : List UInt32) (blockSize : ℕ) : List Int64 :=
  if inputIds = [] then [] else hashBlocks sha256 none (sliceChunks inputIds blockSize)

/-- The loop of `compute_block_hashes`, for at most the given number of iterations. -/
def blockLoop (tokenIds : List UInt32) (blockSize : ℕ) :
    ℕ → ℕ → Option Digest → List Int64
  | 0, _, _ => []
  | iterations + 1, start, prior =>
      if start < tokenIds.length then
        let stop := min (start + blockSize) tokenIds.length
        let digest := chainBlock sha256 prior ((tokenIds.drop start).take (stop - start))
        sha256ToI64 digest :: blockLoop tokenIds blockSize iterations stop (some digest)
      else []

/-- Every iteration of the loop consumes a token.

Source: `hash.rs`, lines 56–79. -/
def computeBlockHashes (tokenIds : List UInt32) (blockSize : ℕ) : List Int64 :=
  if tokenIds = [] then [] else blockLoop sha256 tokenIds blockSize tokenIds.length 0 none

end Hashes

/-! ### Events -/

/-- A slice of tokens that can be reused. -/
structure ReusableBoundary where
  startToken : ℕ
  endToken : ℕ
  tier : String
deriving DecidableEq, Repr

/-- The event that a chunk of a prompt has been stored. -/
structure BlockStoredEvent where
  requestId : RequestId
  blockHashes : List Int64
  parentBlockHash : Option Int64
  tokenIds : List UInt32
  blockSize : ℕ
  dataParallelRank : Int32
  promptTokensProcessed : ℕ
  totalPromptTokens : ℕ
  isFinalChunk : Bool
  boundary : ReusableBoundary
deriving DecidableEq, Repr

/-- Source: `state_events.rs`, lines 55–93. -/
def BlockStoredEvent.fromChunk (sha256 : List UInt8 → Digest) (requestId : RequestId)
    (fullPrompt : List UInt32) (chunkStart chunkEnd blockSize : ℕ) (dataParallelRank : Int32) :
    BlockStoredEvent :=
  let stop := min chunkEnd fullPrompt.length
  let prefixHashes := computeSglangBlockHashes sha256 (fullPrompt.take stop) blockSize
  let startBlockIdx := chunkStart / blockSize
  { requestId
    blockHashes := prefixHashes.drop startBlockIdx
    parentBlockHash := if 0 < startBlockIdx then prefixHashes[startBlockIdx - 1]? else none
    tokenIds := (fullPrompt.drop chunkStart).take (stop - chunkStart)
    blockSize
    dataParallelRank
    promptTokensProcessed := stop
    totalPromptTokens := fullPrompt.length
    isFinalChunk := fullPrompt.length ≤ stop
    boundary := ⟨chunkStart, stop, "GPU"⟩ }

/-! ### The hash of a block -/

section Hashes

variable (sha256 : List UInt8 → Digest) (tokens : List UInt32) (blockSize : ℕ)

/-- The digest that a block is chained to. -/
def parentDigest : ℕ → Option Digest
  | 0 => none
  | j + 1 => some (chainBlock sha256 (parentDigest j) (tokenBlock tokens blockSize j))

/-- The hash of a block. -/
def blockHash (j : ℕ) : Int64 :=
  sha256ToI64 (chainBlock sha256 (parentDigest sha256 tokens blockSize j)
    (tokenBlock tokens blockSize j))

variable {blockSize}

theorem lt_divCeil (hp : 0 < blockSize) {n j : ℕ} :
    j < divCeil n blockSize ↔ j * blockSize < n := by
  unfold divCeil
  rw [Nat.lt_iff_add_one_le, Nat.le_div_iff_mul_le hp, Nat.add_mul, Nat.one_mul]
  omega

theorem divCeil_zero (hp : 0 < blockSize) : divCeil 0 blockSize = 0 := by
  have h := lt_divCeil hp (n := 0) (j := 0)
  omega

theorem hashBlocks_range' (k n : ℕ) :
    hashBlocks sha256 (parentDigest sha256 tokens blockSize k)
        ((List.range' k n).map (tokenBlock tokens blockSize)) =
      (List.range' k n).map (blockHash sha256 tokens blockSize) := by
  induction n generalizing k with
  | zero => rfl
  | succ n ih =>
    simp only [List.range'_succ, List.map_cons, hashBlocks]
    exact congrArg (blockHash sha256 tokens blockSize k :: ·) (ih (k + 1))

/-- The engine computes the hashes of the blocks. -/
theorem computeSglangBlockHashes_eq (hp : 0 < blockSize) :
    computeSglangBlockHashes sha256 tokens blockSize =
      (List.range (divCeil tokens.length blockSize)).map (blockHash sha256 tokens blockSize) := by
  unfold computeSglangBlockHashes
  split_ifs with h
  · simp [h, divCeil_zero hp]
  · rw [sliceChunks, List.range_eq_range']
    exact hashBlocks_range' sha256 tokens 0 _

theorem blockLoop_eq (hp : 0 < blockSize) (iterations j : ℕ)
    (h : tokens.length ≤ min (j * blockSize) tokens.length + iterations) :
    blockLoop sha256 tokens blockSize iterations (min (j * blockSize) tokens.length)
        (parentDigest sha256 tokens blockSize j) =
      (List.range' j (divCeil tokens.length blockSize - j)).map
        (blockHash sha256 tokens blockSize) := by
  have hdone {j : ℕ} (hj : tokens.length ≤ j * blockSize) :
      divCeil tokens.length blockSize - j = 0 := by
    have hlt := lt_divCeil hp (n := tokens.length) (j := j)
    omega
  induction iterations generalizing j with
  | zero =>
    rw [hdone (by omega)]
    rfl
  | succ iterations ih =>
    rw [blockLoop]
    split_ifs with hlt
    · have hj : j * blockSize < tokens.length := by omega
      have hstart : min (j * blockSize) tokens.length = j * blockSize := Nat.min_eq_left hj.le
      have hstop : min (j * blockSize + blockSize) tokens.length =
          min ((j + 1) * blockSize) tokens.length := by rw [Nat.add_mul, Nat.one_mul]
      have hcount : divCeil tokens.length blockSize - j =
          divCeil tokens.length blockSize - (j + 1) + 1 := by
        have hlt' := (lt_divCeil hp).mpr hj
        omega
      have hblock : (tokens.drop (j * blockSize)).take
          (min ((j + 1) * blockSize) tokens.length - j * blockSize) =
          tokenBlock tokens blockSize j := by
        rw [tokenBlock, List.take_eq_take_iff, List.length_drop, Nat.add_mul, Nat.one_mul]
        omega
      have hrest := ih (j + 1) (by rw [← hstop]; omega)
      dsimp only
      rw [hstart, hstop, hblock, hcount, List.range'_succ, List.map_cons]
      exact congrArg (blockHash sha256 tokens blockSize j :: ·) hrest
    · rw [hdone (by omega)]
      rfl

/-- The router computes the hashes of the blocks. -/
theorem computeBlockHashes_eq (hp : 0 < blockSize) :
    computeBlockHashes sha256 tokens blockSize =
      (List.range (divCeil tokens.length blockSize)).map (blockHash sha256 tokens blockSize) := by
  unfold computeBlockHashes
  split_ifs with h
  · simp [h, divCeil_zero hp]
  · have hloop := blockLoop_eq sha256 tokens hp tokens.length 0 (by omega)
    simpa [List.range_eq_range', parentDigest] using hloop

theorem tokenBlock_take {j m : ℕ} (h : (j + 1) * blockSize ≤ m) :
    tokenBlock (tokens.take m) blockSize j = tokenBlock tokens blockSize j := by
  have hle : blockSize ≤ m - j * blockSize := by
    rw [Nat.add_mul, Nat.one_mul] at h
    omega
  rw [tokenBlock, tokenBlock, List.drop_take, List.take_take, Nat.min_eq_left hle]

theorem parentDigest_take {j m : ℕ} (h : j * blockSize ≤ m) :
    parentDigest sha256 (tokens.take m) blockSize j = parentDigest sha256 tokens blockSize j := by
  induction j with
  | zero => rfl
  | succ j ih =>
    have hle : j * blockSize ≤ m := (Nat.mul_le_mul_right _ (Nat.le_succ j)).trans h
    rw [parentDigest, parentDigest, ih hle, tokenBlock_take tokens h]

/-- A hash stands for the tokens up to the end of its block. -/
theorem blockHash_take {j m : ℕ} (h : (j + 1) * blockSize ≤ m) :
    blockHash sha256 (tokens.take m) blockSize j = blockHash sha256 tokens blockSize j := by
  have hle : j * blockSize ≤ m := (Nat.mul_le_mul_right _ (Nat.le_succ j)).trans h
  rw [blockHash, blockHash, parentDigest_take sha256 tokens hle, tokenBlock_take tokens h]

end Hashes

end SglangRs
