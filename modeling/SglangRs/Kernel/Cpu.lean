import SglangRs.Collections.FallibleMap
import SglangRs.Collections.Rows
import SglangRs.Model.MoeRouting

/-!
# The kernels of the CPU reference

Matrices are lists, row after row; every kernel checks the lengths of its arguments against the
shapes before it computes (`sglang-kernel/src/cpu.rs`, lines 5–124, 436–520 and 605–630, and
`sglang-kernel/src/rotary.rs`, lines 3–44, 72–135 and 187–238). Behind the checks no index is out of
range. The scaling of YaRN is left out.

## Main definitions

* `KernelFloat`: the operations on floats that the kernels use.
* `rmsNorm`, `gemmaRmsNorm`, `linear`, `siluAndMul`, `groupedQueryAttention`.
* `RotaryEmbeddingConfig`, `applyRotaryEmbedding`.
-/

namespace SglangRs

/-- The operations on `f32` that the kernels use. The order is that of `f32::total_cmp`. -/
class KernelFloat (F : Type) extends FloatOps F where
  sqrt : F → F
  recip : F → F
  sin : F → F
  cos : F → F
  /-- The conversion `as f32`. -/
  ofNat : ℕ → F
  /-- The power of the base of the rotary embedding, which is computed in `f64`. -/
  frequency : F → ℕ → ℕ → F
  toBits : F → UInt32
  ofBits : UInt32 → F
  ofBits_toBits : ∀ x, ofBits (toBits x) = x

inductive KernelError where
  | shape (message : String)
  | invalidArgument (message : String)
deriving DecidableEq, Repr

/-- Source: `sglang-kernel/src/lib.rs`, lines 45–54. -/
def KernelError.display : KernelError → String
  | .shape message => "kernel shape error: " ++ message
  | .invalidArgument message => "kernel invalid argument: " ++ message

/-- Source: `cpu.rs`, lines 605–630. -/
def validateMatrixLen (name : String) (len rows cols : ℕ) : Except KernelError Unit :=
  if rows = 0 then .error (.invalidArgument "rows must be at least 1")
  else if cols = 0 then .error (.invalidArgument "cols must be at least 1")
  else do
    let expected ← okOr (.invalidArgument "rows * cols overflowed") (checkedMul 64 rows cols)
    if len ≠ expected then
      .error (.shape s!"{name} length {len} does not match rows * cols {expected}")
    else .ok ()

/-- A row of a matrix. -/
def matrixRow {α : Type} (values : List α) (cols row : ℕ) : List α :=
  (values.drop (row * cols)).take cols

section Kernels

variable {F : Type} [KernelFloat F]

open FloatOps KernelFloat

/-! ### Normalization -/

/-- The loop of both normalizations. An entry is computed from the root of its row, its value and
its weight. -/
def normalizeRows (entry : F → F → F → F) (input weight : List F) (rows cols : ℕ) (eps : F) :
    Except KernelError (List F) := do
  validateMatrixLen "input" input.length rows cols
  if weight.length ≠ cols then
    .error (.shape s!"weight length {weight.length} does not match cols {cols}")
  else if !isFinite eps || lt eps zero then
    .error (.invalidArgument "eps must be finite and non-negative")
  else
    return (List.range rows).flatMap fun row =>
      let rowValues := matrixRow input cols row
      let meanSquare := div (sum (rowValues.map fun value => mul value value)) (ofNat cols)
      let root := sqrt (add meanSquare eps)
      List.zipWith (entry root) rowValues weight

/-- Source: `cpu.rs`, lines 5–37. -/
def rmsNorm : List F → List F → ℕ → ℕ → F → Except KernelError (List F) :=
  normalizeRows fun root value weight => mul (div value root) weight

/-- Source: `cpu.rs`, lines 39–71. -/
def gemmaRmsNorm : List F → List F → ℕ → ℕ → F → Except KernelError (List F) :=
  normalizeRows fun root value weight => mul (mul value (recip root)) (add one weight)

/-! ### Projections and activations -/

/-- Source: `cpu.rs`, lines 73–108. -/
def linear (input weight : List F) (bias : Option (List F))
    (rows inputFeatures outputFeatures : ℕ) : Except KernelError (List F) := do
  validateMatrixLen "input" input.length rows inputFeatures
  validateMatrixLen "weight" weight.length outputFeatures inputFeatures
  if (bias.any fun bias => bias.length ≠ outputFeatures) = true then
    .error (.shape (s!"bias length {(bias.getD []).length} does not match output features "
      ++ s!"{outputFeatures}"))
  else
    return (List.range rows).flatMap fun row =>
      (List.range outputFeatures).map fun outputFeature =>
        let value := sum (List.zipWith mul (matrixRow input inputFeatures row)
          (matrixRow weight inputFeatures outputFeature))
        add value (match bias with
          | none => zero
          | some bias => bias.getD outputFeature zero)

/-- Source: `cpu.rs`, lines 110–124. -/
def siluAndMul (gate up : List F) : Except KernelError (List F) :=
  if gate.length ≠ up.length then
    .error (.shape (s!"SiLU gate length {gate.length} does not match up length {up.length}"))
  else
    .ok (List.zipWith (fun gate up => mul (div gate (add one (exp (neg gate)))) up) gate up)

/-! ### Attention -/

structure GroupedQueryAttentionShape (F : Type) where
  tokenCount : ℕ
  queryHeadCount : ℕ
  kvHeadCount : ℕ
  headDim : ℕ
  scale : F

/-- The scores of a query head: its products with the keys of all tokens, scaled. -/
def attentionScores (shape : GroupedQueryAttentionShape F) (query keys : List F)
    (queryHead kvHead : ℕ) : List F :=
  let queryRow := matrixRow query shape.headDim queryHead
  (List.range shape.tokenCount).map fun token =>
    mul (sum (List.zipWith mul queryRow
      (matrixRow keys shape.headDim (token * shape.kvHeadCount + kvHead)))) shape.scale

/-- The output of a query head: the values of all tokens, weighted by the softmax of the scores. -/
def attentionHead [LinearOrder F] (shape : GroupedQueryAttentionShape F) (query keys values : List F)
    (queryHead : ℕ) : Except KernelError (List F) := do
  let kvHead := queryHead / (shape.queryHeadCount / shape.kvHeadCount)
  let scores := attentionScores shape query keys queryHead kvHead
  let maxScore ← okOr (.invalidArgument "attention has no tokens") scores.max?
  let scores := scores.map fun score => exp (sub score maxScore)
  let normalizer := sum scores
  if !isFinite normalizer || le normalizer zero then
    .error (.invalidArgument "attention softmax normalization is invalid")
  else
    return (List.range shape.headDim).map fun dimension =>
      (enumerate scores).foldl (fun output (token, probability) =>
        add output (mul (div probability normalizer)
          ((matrixRow values shape.headDim (token * shape.kvHeadCount + kvHead)).getD dimension
            zero))) zero

/-- Source: `cpu.rs`, lines 445–520. -/
def groupedQueryAttention [LinearOrder F] (query keys values : List F)
    (shape : GroupedQueryAttentionShape F) : Except KernelError (List F) := do
  validateMatrixLen "query" query.length shape.queryHeadCount shape.headDim
  let kvTokenWidth ← okOr (.invalidArgument "KV token width overflowed")
    (checkedMul 64 shape.kvHeadCount shape.headDim)
  validateMatrixLen "keys" keys.length shape.tokenCount kvTokenWidth
  validateMatrixLen "values" values.length shape.tokenCount kvTokenWidth
  if ¬ shape.kvHeadCount ∣ shape.queryHeadCount then
    .error (.invalidArgument (s!"query head count {shape.queryHeadCount} must be divisible by "
      ++ s!"KV head count {shape.kvHeadCount}"))
  else if !isFinite shape.scale || le shape.scale zero then
    .error (.invalidArgument "attention scale must be finite and positive")
  else
    let heads ← (List.range shape.queryHeadCount).mapM
      (attentionHead shape query keys values)
    return heads.flatten

/-! ### Rotary embeddings -/

inductive RotaryEmbeddingStyle where
  | neox
  | interleaved
deriving DecidableEq, Repr

structure RotaryEmbeddingConfig (F : Type) where
  theta : F
  style : RotaryEmbeddingStyle

inductive RotaryEmbeddingError where
  | invalid (message : String)
  | shapeOverflow
deriving DecidableEq, Repr

/-- Source: `rotary.rs`, lines 279–286. -/
def RotaryEmbeddingError.display : RotaryEmbeddingError → String
  | .invalid message => message
  | .shapeOverflow => "RoPE tensor shape overflowed"

namespace RotaryEmbeddingConfig

def validateScalars (config : RotaryEmbeddingConfig F) : Except RotaryEmbeddingError Unit :=
  if !isFinite config.theta || le config.theta zero then
    .error (.invalid "RoPE theta must be finite and positive")
  else .ok ()

/-- Source: `rotary.rs`, lines 36–44. -/
def standard (theta : F) (style : RotaryEmbeddingStyle) :
    Except RotaryEmbeddingError (RotaryEmbeddingConfig F) := do
  let config := ⟨theta, style⟩
  validateScalars config
  return config

/-- Source: `rotary.rs`, lines 121–129. -/
def validate (config : RotaryEmbeddingConfig F) (rotaryDim : ℕ) :
    Except RotaryEmbeddingError Unit := do
  config.validateScalars
  if rotaryDim = 0 ∨ ¬ 2 ∣ rotaryDim then
    .error (.invalid s!"rotary dimension {rotaryDim} must be non-zero and even")
  else .ok ()

/-- Source: `rotary.rs`, lines 72–98. -/
def inverseFrequencies (config : RotaryEmbeddingConfig F) (rotaryDim : ℕ) :
    Except RotaryEmbeddingError (List F) := do
  config.validate rotaryDim
  return (List.range (rotaryDim / 2)).map fun pairIndex =>
    frequency config.theta pairIndex rotaryDim

/-- The magnitudes are scaled by YaRN only. -/
def magnitudeScale (_ : RotaryEmbeddingConfig F) : F := one

/-- Where the two entries of a pair lie in the values of all heads. -/
def pairIndices (config : RotaryEmbeddingConfig F) (headOffset rotaryDim pairIndex : ℕ) : ℕ × ℕ :=
  match config.style with
  | .neox => (headOffset + pairIndex, headOffset + rotaryDim / 2 + pairIndex)
  | .interleaved => (headOffset + pairIndex * 2, headOffset + pairIndex * 2 + 1)

end RotaryEmbeddingConfig

/-- Two entries are rotated by an angle. -/
def rotatePair (angle magnitudeScale : F) (values : List F) (indices : ℕ × ℕ) : List F :=
  let first := values.getD indices.1 zero
  let second := values.getD indices.2 zero
  (values.set indices.1
      (mul (sub (mul first (cos angle)) (mul second (sin angle))) magnitudeScale)).set indices.2
    (mul (add (mul second (cos angle)) (mul first (sin angle))) magnitudeScale)

/-- The pairs of one head are rotated. -/
def rotateHead (config : RotaryEmbeddingConfig F) (frequencies : List F)
    (headDim rotaryDim position : ℕ) (values : List F) (head : ℕ) : List F :=
  (enumerate frequencies).foldl (fun values (pairIndex, frequency) =>
    rotatePair (mul (ofNat position) frequency) config.magnitudeScale values
      (config.pairIndices (head * headDim) rotaryDim pairIndex)) values

/-- Source: `rotary.rs`, lines 187–238. -/
def applyRotaryEmbedding (values : List F) (numHeads headDim rotaryDim position : ℕ)
    (config : RotaryEmbeddingConfig F) : Except RotaryEmbeddingError (List F) :=
  if numHeads = 0 ∨ headDim = 0 then
    .error (.invalid "RoPE head count and head dimension must be non-zero")
  else do
    let expected ← okOr .shapeOverflow (checkedMul 64 numHeads headDim)
    if values.length ≠ expected then
      .error (.invalid (s!"RoPE values length {values.length} does not match shape "
        ++ s!"[{numHeads}, {headDim}]"))
    else if rotaryDim > headDim then
      .error (.invalid s!"rotary dimension {rotaryDim} exceeds head dimension {headDim}")
    else
      let frequencies ← config.inverseFrequencies rotaryDim
      return (List.range numHeads).foldl
        (rotateHead config frequencies headDim rotaryDim position) values

end Kernels

/-- Numbers modulo `n`, in units of one part in `unit`, in place of floats. -/
abbrev modularFloat (n unit : ℕ) [NeZero n] (hn : n ≤ 2 ^ 32) (exp : Fin n → Fin n) :
    KernelFloat (Fin n) where
  zero := 0
  one := Fin.ofNat n unit
  negInfinity := 0
  add a b := a + b
  sub a b := a - b
  mul a b := Fin.ofNat n (a.val * b.val / unit)
  div a b := Fin.ofNat n (a.val * unit / b.val)
  max a b := max a b
  neg a := -a
  exp := exp
  sum values := values.foldl (· + ·) 0
  isFinite _ := true
  le a b := decide (a ≤ b)
  lt a b := decide (a < b)
  sqrt := id
  recip _ := Fin.ofNat n unit
  sin _ := 0
  cos _ := Fin.ofNat n unit
  ofNat m := Fin.ofNat n (unit * m)
  frequency _ _ _ := Fin.ofNat n unit
  toBits a := UInt32.ofNat a.val
  ofBits word := Fin.ofNat n word.toNat
  ofBits_toBits a := by
    have hlt : a.val < 2 ^ 32 := a.isLt.trans_le hn
    rw [UInt32.toNat_ofNat_of_lt' hlt, Fin.ofNat_val_eq_self]

/-- Numbers modulo 8 in place of floats. -/
def OctalFloat : Type := Fin 8
deriving DecidableEq, LinearOrder

instance octalOfNat (n : ℕ) : OfNat OctalFloat n := ⟨Fin.ofNat 8 n⟩

instance octalFloat : KernelFloat OctalFloat := modularFloat 8 1 (by decide) fun _ => 1

end SglangRs
