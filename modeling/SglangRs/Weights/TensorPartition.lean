import SglangRs.Collections.Classes
import SglangRs.Collections.Rows
import SglangRs.Weights.Safetensors

/-!
# Parts of a tensor

The ranks of a tensor-parallel group each read a part of a tensor: an equal share of one of its axes
(`sglang-srt/src/distributed/parallel.rs`, lines 206–287, and
`sglang-srt/src/distributed/tensor_partition.rs`, lines 9–149). The bytes of a part are scattered
over the file, one piece for every index of the axes before the one that is cut.

The reads are returned together with the tensor, each with its place in the file and its length.

## Main definitions

* `TensorPartition.new`, `TensorPartition.forReplicatedShards`, `TensorPartition.range`.
* `readTensorAxisPartitionTraced`, `readTensorAxisPartition`.
* `concatAlongAxis`: tensors put together along an axis.

## Main results

* `readTensorAxisPartitionTraced_ok`: what is read of a part.
* `sharded_loading_reassembles`: the parts make up the tensor, and the shards are evenly assigned.
-/

namespace SglangRs

/-! ### Partitions -/

/-- A rank of a tensor-parallel group, as a topology builds it. -/
structure TensorParallelRank where
  globalRank : ℕ
  worldSize : ℕ
  globalRank_lt : globalRank < worldSize

inductive TensorPartitionError where
  | zeroPartitionCount
  | invalidPartitionIndex (partitionIndex partitionCount : ℕ)
  | shardCountExceedsWorldSize (shardCount worldSize : ℕ)
  | worldSizeNotDivisibleByShardCount (worldSize shardCount : ℕ)
  | extentNotDivisible (extent partitionCount : ℕ)
  | partitionRangeOverflow (extent partitionCount partitionIndex : ℕ)
deriving DecidableEq, Repr

/-- The text of an error. -/
def TensorPartitionError.display : TensorPartitionError → String
  | .zeroPartitionCount => "partition count must be positive"
  | .invalidPartitionIndex index count =>
      s!"partition index {index} must be smaller than partition count {count}"
  | .shardCountExceedsWorldSize shards world =>
      s!"replicated shard count {shards} exceeds tensor parallel world size {world}"
  | .worldSizeNotDivisibleByShardCount world shards =>
      s!"tensor parallel world size {world} must be divisible by replicated shard count {shards}"
  | .extentNotDivisible extent count =>
      s!"tensor extent {extent} must be divisible by partition count {count}"
  | .partitionRangeOverflow extent count index =>
      s!"partition range overflowed for extent {extent}, partition count {count}, " ++
        s!"and partition index {index}"

structure TensorPartition where
  partitionCount : ℕ
  partitionIndex : ℕ
  partitionIndex_lt : partitionIndex < partitionCount
deriving DecidableEq

namespace TensorPartition

/-- Source: `parallel.rs`, lines 207–224. -/
def new (partitionCount partitionIndex : ℕ) : Except TensorPartitionError TensorPartition :=
  if partitionCount = 0 then .error .zeroPartitionCount
  else if h : partitionIndex ≥ partitionCount then
    .error (.invalidPartitionIndex partitionIndex partitionCount)
  else .ok ⟨partitionCount, partitionIndex, Nat.lt_of_not_le h⟩

/-- Source: `parallel.rs`, lines 233–254. -/
def forReplicatedShards (rank : TensorParallelRank) (shardCount : ℕ) :
    Except TensorPartitionError TensorPartition :=
  if shardCount = 0 then .error .zeroPartitionCount
  else if shardCount > rank.worldSize then
    .error (.shardCountExceedsWorldSize shardCount rank.worldSize)
  else if rank.worldSize % shardCount ≠ 0 then
    .error (.worldSizeNotDivisibleByShardCount rank.worldSize shardCount)
  else
    let replicasPerShard := rank.worldSize / shardCount
    new shardCount (rank.globalRank / replicasPerShard)

/-- Source: `parallel.rs`, lines 264–287. -/
def range (partition : TensorPartition) (extent : ℕ) : Except TensorPartitionError (ℕ × ℕ) :=
  if extent % partition.partitionCount ≠ 0 then
    .error (.extentNotDivisible extent partition.partitionCount)
  else do
    let partitionLen := extent / partition.partitionCount
    let overflow := .partitionRangeOverflow extent partition.partitionCount partition.partitionIndex
    let start ← okOr overflow (checkedMul 64 partition.partitionIndex partitionLen)
    let stop ← okOr overflow (checkedAdd 64 start partitionLen)
    return (start, stop)

end TensorPartition

/-! ### Reading a part -/

/-- Source: `tensor_partition.rs`, lines 144–149. -/
def invalidPartition (span : SafetensorsTensorSpan) (message : String) : ModelArtifactError :=
  .invalidSafetensorsData span.path ("invalid tensor partition: " ++ message)

/-- Source: `tensor_partition.rs`, lines 133–142. -/
def checkedShapeProduct (span : SafetensorsTensorSpan) (dimensions : List ℕ) :
    Except ModelArtifactError ℕ :=
  okOr (invalidPartition span "tensor shape product overflowed")
    (dimensions.foldlM (fun product dimension => checkedMul 64 product dimension) 1)

/-- What the loop over the outer indices needs: the source and target strides. -/
structure PartitionStrides where
  rangeStart : ℕ
  innerCount : ℕ
  sourceOuterStride : ℕ
  selectedOuterBytes : ℕ
  dtypeByteWidth : ℕ

/-- The place in the file of the piece for an outer index. -/
def absoluteByteOffset (span : SafetensorsTensorSpan) (strides : PartitionStrides)
    (outerIndex : ℕ) : Except ModelArtifactError ℕ := do
  let sourceElementOffset ← okOr (invalidPartition span "partition source offset overflowed") do
    let offset ← checkedMul 64 outerIndex strides.sourceOuterStride
    let start ← checkedMul 64 strides.rangeStart strides.innerCount
    checkedAdd 64 offset start
  let sourceByteOffset ← okOr
    (invalidPartition span "partition source byte offset overflowed")
    (checkedMul 64 sourceElementOffset strides.dtypeByteWidth)
  okOr (invalidPartition span "partition absolute offset overflowed")
    (checkedAdd 64 span.absoluteByteOffset sourceByteOffset)

/-- The body of the loop: the buffer with the piece for an outer index, and the read. -/
def readPiece (span : SafetensorsTensorSpan) (file : Bytes) (strides : PartitionStrides)
    (outerIndex : ℕ) (bytes : Bytes) : RustResult ModelArtifactError (Bytes × ℕ × ℕ) := do
  let offset ← RustResult.ofExcept (absoluteByteOffset span strides outerIndex)
  let targetStart ← RustResult.ofExcept
    (okOr (invalidPartition span "partition target offset overflowed")
      (checkedMul 64 outerIndex strides.selectedOuterBytes))
  let targetEnd ← RustResult.ofExcept
    (okOr (invalidPartition span "partition target end overflowed")
      (checkedAdd 64 targetStart strides.selectedOuterBytes))
  let target ← slice bytes targetStart targetEnd
  let piece ← RustResult.ofExcept (readExactAt span.path file offset target.length)
  return (bytes.take targetStart ++ piece ++ bytes.drop targetEnd, offset, target.length)

/-- The loop over the outer indices, with the reads in order. -/
def readPieces (span : SafetensorsTensorSpan) (file : Bytes) (strides : PartitionStrides) :
    List ℕ → Bytes → RustResult ModelArtifactError (Bytes × List (ℕ × ℕ))
  | [], bytes => .ok (bytes, [])
  | outerIndex :: outerIndices, bytes => do
      let (bytes, read) ← readPiece span file strides outerIndex bytes
      let (bytes, reads) ← readPieces span file strides outerIndices bytes
      return (bytes, read :: reads)

/-- Source: `tensor_partition.rs`, lines 9–131. -/
def readTensorAxisPartitionTraced (fs : FileSystem) (span : SafetensorsTensorSpan) (axis : ℕ)
    (partition : TensorPartition) :
    RustResult ModelArtifactError (SafetensorsTensorData × List (ℕ × ℕ)) := do
  let axisExtent ← RustResult.ofExcept (okOr
    (invalidPartition span s!"tensor rank {span.metadata.shape.length} has no axis {axis}")
    span.metadata.shape[axis]?)
  let (start, stop) ← match partition.range axisExtent with
    | .ok range => RustResult.ok range
    | .error error => .err (invalidPartition span error.display)
  let dtypeByteWidth ← RustResult.ofExcept (okOr
    (invalidPartition span s!"tensor dtype {span.metadata.dtype} has no fixed byte width")
    span.metadata.dtypeByteWidth)
  let elementCount ← RustResult.ofExcept (okOr
    (invalidPartition span "tensor element count overflowed") span.metadata.elementCount)
  let expectedByteLen ← RustResult.ofExcept (okOr
    (invalidPartition span "tensor byte length overflowed")
    (checkedMul 64 elementCount dtypeByteWidth))
  if expectedByteLen ≠ span.byteLen then
    .err (invalidPartition span
      s!"tensor metadata describes {expectedByteLen} bytes but span contains {span.byteLen}")
  else
    let outerCount ← RustResult.ofExcept
      (checkedShapeProduct span (span.metadata.shape.take axis))
    let innerCount ← RustResult.ofExcept
      (checkedShapeProduct span (span.metadata.shape.drop (axis + 1)))
    let sourceOuterStride ← RustResult.ofExcept (okOr
      (invalidPartition span "source tensor stride overflowed")
      (checkedMul 64 axisExtent innerCount))
    let selectedAxisLen := stop - start
    let selectedOuterElements ← RustResult.ofExcept (okOr
      (invalidPartition span "partition stride overflowed")
      (checkedMul 64 selectedAxisLen innerCount))
    let selectedOuterBytes ← RustResult.ofExcept (okOr
      (invalidPartition span "partition byte stride overflowed")
      (checkedMul 64 selectedOuterElements dtypeByteWidth))
    let selectedByteLen ← RustResult.ofExcept (okOr
      (invalidPartition span "partition byte length overflowed")
      (checkedMul 64 outerCount selectedOuterBytes))
    let file ← RustResult.ofExcept (openShard fs span.path)
    let (bytes, reads) ← readPieces span file
      { rangeStart := start, innerCount, sourceOuterStride, selectedOuterBytes, dtypeByteWidth }
      (List.range outerCount) (List.replicate selectedByteLen 0)
    let metadata := { dtype := span.metadata.dtype
                      shape := span.metadata.shape.set axis selectedAxisLen
                      dataOffsets := (0, bytes.length) }
    return ({ metadata, bytes }, reads)

/-- The tensor that is read for a part. -/
def readTensorAxisPartition (fs : FileSystem) (span : SafetensorsTensorSpan) (axis : ℕ)
    (partition : TensorPartition) : RustResult ModelArtifactError SafetensorsTensorData := do
  let (data, _) ← readTensorAxisPartitionTraced fs span axis partition
  return data

/-! ### One piece -/

/-- A value that is there is taken. -/
theorem RustResult.ofExcept_okOr_bind {ε α β : Type} {error : ε} {x : Option α} {a : α}
    (h : x = some a) (f : α → RustResult ε β) :
    (RustResult.ofExcept (okOr error x) >>= f) = f a := by
  rw [h]
  rfl

section Pieces

variable {span : SafetensorsTensorSpan} {file : Bytes} {n k m inner w outer : ℕ}

/-- The strides of part `k` of `n` along an axis of extent `n * m`. -/
def stridesOf (n k m inner w : ℕ) : PartitionStrides where
  rangeStart := k * m
  innerCount := inner
  sourceOuterStride := n * m * inner
  selectedOuterBytes := m * inner * w
  dtypeByteWidth := w

/-- The pieces of all parts, as they lie in the file: that of part `k` for the outer index `o` has
the number `o * n + k`. -/
def pieceOf (span : SafetensorsTensorSpan) (file : Bytes) (size number : ℕ) : Bytes :=
  (file.drop (span.absoluteByteOffset + number * size)).take size

theorem absoluteByteOffset_ok {o : ℕ} (hw : 0 < w)
    (h : span.absoluteByteOffset + (o * n + k) * (m * inner * w) < 2 ^ 64) :
    absoluteByteOffset span (stridesOf n k m inner w) o =
      .ok (span.absoluteByteOffset + (o * n + k) * (m * inner * w)) := by
  have hsum : o * (n * m * inner) + k * m * inner = (o * n + k) * (m * inner) := by ring
  have hbytes : (o * (n * m * inner) + k * m * inner) * w = (o * n + k) * (m * inner * w) := by ring
  have hle : o * (n * m * inner) + k * m * inner ≤ (o * n + k) * (m * inner * w) := by
    rw [← hbytes]
    exact Nat.le_mul_of_pos_right _ hw
  simp only [absoluteByteOffset, stridesOf]
  rw [checkedMul_eq (by omega), checkedMul_eq (by omega)]
  simp only [Option.bind_eq_bind, Option.bind_some]
  rw [checkedAdd_eq (by omega), okOr_some]
  simp only [bind, Except.bind]
  rw [checkedMul_eq (by omega), okOr_some]
  dsimp only
  rw [hbytes, checkedAdd_eq h, okOr_some]

theorem readPiece_ok {o r : ℕ} {done : Bytes} (hw : 0 < w)
    (hdone : done.length = o * (m * inner * w))
    (hlt : span.absoluteByteOffset + (o * n + k) * (m * inner * w) < 2 ^ 64)
    (hbuffer : (o + 1) * (m * inner * w) < 2 ^ 64)
    (hfile : span.absoluteByteOffset + (o * n + k + 1) * (m * inner * w) ≤ file.length) :
    readPiece span file (stridesOf n k m inner w) o
        (done ++ List.replicate ((r + 1) * (m * inner * w)) 0) =
      .ok (done ++ pieceOf span file (m * inner * w) (o * n + k) ++
        List.replicate (r * (m * inner * w)) 0,
        span.absoluteByteOffset + (o * n + k) * (m * inner * w), m * inner * w) := by
  rw [readPiece, absoluteByteOffset_ok hw hlt]
  generalize hsize : m * inner * w = size at *
  have hstride : (stridesOf n k m inner w).selectedOuterBytes = size := hsize
  rw [Nat.succ_mul] at hbuffer hfile
  have hlength : (done ++ List.replicate ((r + 1) * size) 0).length =
      o * size + (r * size + size) := by
    rw [List.length_append, hdone, List.length_replicate, Nat.succ_mul]
  have htarget : (((done ++ List.replicate ((r + 1) * size) (0 : UInt8)).drop (o * size)).take
      (o * size + size - o * size)).length = size := by
    rw [List.length_take, List.length_drop, hlength]
    omega
  simp only [RustResult.ofExcept_ok, RustResult.ok_bind, hstride]
  rw [RustResult.ofExcept_okOr_bind (checkedMul_eq (by omega)),
    RustResult.ofExcept_okOr_bind (checkedAdd_eq hbuffer),
    slice_ok (by omega) (by rw [hlength]; omega), RustResult.ok_bind, htarget,
    readExactAt_ok (by omega), RustResult.ofExcept_ok, RustResult.ok_bind, RustResult.pure_eq]
  have htake : (done ++ List.replicate ((r + 1) * size) (0 : UInt8)).take (o * size) = done :=
    List.take_left' hdone
  have hdrop : (done ++ List.replicate ((r + 1) * size) (0 : UInt8)).drop (o * size + size) =
      List.replicate (r * size) 0 := by
    rw [← List.drop_drop, List.drop_left' hdone, List.drop_replicate, Nat.succ_mul,
      Nat.add_sub_cancel]
  rw [htake, hdrop]
  rfl

/-- **The loop over the outer indices.** The pieces are put one behind the other. -/
theorem readPieces_ok (hw : 0 < w) (hk : k < n)
    (hlt : span.absoluteByteOffset + outer * n * (m * inner * w) < 2 ^ 64)
    (hfile : span.absoluteByteOffset + outer * n * (m * inner * w) ≤ file.length) (r o : ℕ)
    (hr : o + r = outer) (done : Bytes) (hdone : done.length = o * (m * inner * w)) :
    readPieces span file (stridesOf n k m inner w) (List.range' o r)
        (done ++ List.replicate (r * (m * inner * w)) 0) =
      .ok (done ++ (List.range' o r).flatMap fun o => pieceOf span file (m * inner * w) (o * n + k),
        (List.range' o r).map fun o =>
          (span.absoluteByteOffset + (o * n + k) * (m * inner * w), m * inner * w)) := by
  induction r generalizing o done with
  | zero => simp [readPieces]
  | succ r ih =>
      have hnumber : o * n + k + 1 ≤ outer * n := Classes.mul_add_lt (by omega) hk
      have hend := Nat.mul_le_mul_right (m * inner * w) hnumber
      have hstart := Nat.mul_le_mul_right (m * inner * w) (Nat.le_of_succ_le hnumber)
      have hbuffer : (o + 1) * (m * inner * w) < 2 ^ 64 := by
        have hle : o + 1 ≤ outer * n := (by omega : o + 1 ≤ outer).trans
          (Nat.le_mul_of_pos_right _ (by omega))
        have := Nat.mul_le_mul_right (m * inner * w) hle
        omega
      rw [List.range'_succ, readPieces,
        readPiece_ok hw hdone (by omega) hbuffer (by omega), RustResult.ok_bind]
      have hpiece : (pieceOf span file (m * inner * w) (o * n + k)).length = m * inner * w := by
        rw [pieceOf, List.length_take, List.length_drop]
        rw [Nat.succ_mul] at hend
        omega
      dsimp only
      rw [ih (o + 1) (by omega) _ (by rw [List.length_append, hdone, hpiece, Nat.succ_mul]),
        RustResult.ok_bind, List.flatMap_cons, List.map_cons, List.append_assoc]
      rfl

end Pieces

/-! ### A part of a tensor -/

theorem dtypeByteWidth_pos {dtype : String} {width : ℕ}
    (h : safetensorsDtypeByteWidth dtype = some width) : 0 < width := by
  unfold safetensorsDtypeByteWidth at h
  split at h <;> cases h <;> decide

theorem range_ok {n k m : ℕ} (hk : k < n) (h : n * m < 2 ^ 64) :
    (TensorPartition.range ⟨n, k, hk⟩ (n * m)) = .ok (k * m, k * m + m) := by
  have hend : k * m + m ≤ n * m := by
    rw [← Nat.succ_mul]
    exact Nat.mul_le_mul_right m hk
  have hlen : n * m / n = m := Nat.mul_div_cancel_left m (by omega)
  simp only [TensorPartition.range, Nat.mul_mod_right, ne_eq, not_true_eq_false, if_false, hlen]
  rw [checkedMul_eq (by omega), okOr_some]
  simp only [bind, Except.bind]
  rw [checkedAdd_eq (by omega), okOr_some]
  rfl

/-- An axis of a tensor without zero dimensions that is cut into `n` parts of extent `m`. -/
structure CutAxis (span : SafetensorsTensorSpan) (axis n m : ℕ) : Prop where
  shape_ne_zero : ∀ d ∈ span.metadata.shape, d ≠ 0
  extent_eq : span.metadata.shape[axis]? = some (n * m)

section CutAxis

variable {span : SafetensorsTensorSpan} {axis n m : ℕ} (h : CutAxis span axis n m)
include h

theorem CutAxis.shape_prod : span.metadata.shape.prod =
    (span.metadata.shape.take axis).prod * n * (m * (span.metadata.shape.drop (axis + 1)).prod) := by
  obtain ⟨haxis, hextent⟩ := List.getElem?_eq_some_iff.mp h.extent_eq
  rw [← List.prod_take_mul_prod_drop span.metadata.shape axis, List.drop_eq_getElem_cons haxis,
    List.prod_cons, hextent]
  ring

theorem CutAxis.outer_pos : 0 < (span.metadata.shape.take axis).prod :=
  Nat.pos_of_ne_zero (List.prod_ne_zero fun h0 =>
    h.shape_ne_zero 0 (List.mem_of_mem_take h0) rfl)

theorem CutAxis.inner_pos : 0 < (span.metadata.shape.drop (axis + 1)).prod :=
  Nat.pos_of_ne_zero (List.prod_ne_zero fun h0 =>
    h.shape_ne_zero 0 (List.mem_of_mem_drop h0) rfl)

theorem CutAxis.extent_pos : 0 < n * m :=
  Nat.pos_of_ne_zero (h.shape_ne_zero _ (List.mem_of_getElem? h.extent_eq))

end CutAxis

/-- The bytes of part `k`. -/
def partBytes (span : SafetensorsTensorSpan) (file : Bytes) (outer n size k : ℕ) : Bytes :=
  (List.range outer).flatMap fun o => pieceOf span file size (o * n + k)

/-- The tensor of part `k`. -/
def partData (span : SafetensorsTensorSpan) (file : Bytes) (axis outer n m size k : ℕ) :
    SafetensorsTensorData where
  metadata :=
    { dtype := span.metadata.dtype
      shape := span.metadata.shape.set axis m
      dataOffsets := (0, (partBytes span file outer n size k).length) }
  bytes := partBytes span file outer n size k

/-- The reads for part `k`. -/
def partReads (span : SafetensorsTensorSpan) (outer n size k : ℕ) : List (ℕ × ℕ) :=
  (List.range outer).map fun o => (span.absoluteByteOffset + (o * n + k) * size, size)

/-- **Reading a part.** All checks are passed, and what is read is the pieces of the part. -/
theorem readTensorAxisPartitionTraced_ok {fs : FileSystem} {span : SafetensorsTensorSpan}
    {file : Bytes} {total w axis n m k : ℕ} (hin : SpanInFile fs span file total w)
    (hcut : CutAxis span axis n m) (hk : k < n) :
    let outer := (span.metadata.shape.take axis).prod
    let size := m * (span.metadata.shape.drop (axis + 1)).prod * w
    readTensorAxisPartitionTraced fs span axis ⟨n, k, hk⟩ =
      .ok (partData span file axis outer n m size k, partReads span outer n size k) := by
  intro outer size
  obtain ⟨inner, hinner⟩ : ∃ inner, (span.metadata.shape.drop (axis + 1)).prod = inner := ⟨_, rfl⟩
  have hw : 0 < w := dtypeByteWidth_pos hin.width_eq
  have hinnerPos : 0 < inner := hinner ▸ hcut.inner_pos
  have houterPos : 0 < outer := hcut.outer_pos
  have hnm : 0 < n * m := hcut.extent_pos
  have hmPos : 0 < m := Nat.pos_of_mul_pos_left hnm
  have hsize : size = m * inner * w := by rw [← hinner]
  have htotal : total = outer * n * (m * inner) := by
    rw [shapeElementCount_eq_some hin.elementCount_eq, hcut.shape_prod, hinner]
  have hbytes : span.byteLen = outer * n * (m * inner * w) := by
    rw [hin.byteLen_eq, htotal, Nat.mul_assoc, Nat.mul_assoc m]
  have hend := hin.end_lt
  have hfile := hin.end_le
  rw [hbytes] at hend hfile
  -- Every number that is computed divides the length of the tensor.
  have hpos : 0 < outer * n * (m * inner * w) :=
    Nat.mul_pos (Nat.mul_pos houterPos (by omega)) (Nat.mul_pos (Nat.mul_pos hmPos hinnerPos) hw)
  have hlt (x y : ℕ) (hxy : x * y = outer * n * (m * inner * w)) : x < 2 ^ 64 := by
    have hdvd := Nat.le_of_dvd hpos (Dvd.intro y hxy)
    omega
  have hnz := hcut.shape_ne_zero
  have houter : (span.metadata.shape.take axis).foldlM
      (fun product dimension => checkedMul 64 product dimension) 1 = some outer := by
    rw [foldlM_checkedMul_eq (fun d hd => hnz d (List.mem_of_mem_take hd)) one_ne_zero
      (by rw [Nat.one_mul]; exact hlt outer (n * (m * inner * w)) (by ring)), Nat.one_mul]
  have hinnerFold : (span.metadata.shape.drop (axis + 1)).foldlM
      (fun product dimension => checkedMul 64 product dimension) 1 = some inner := by
    rw [foldlM_checkedMul_eq (fun d hd => hnz d (List.mem_of_mem_drop hd)) one_ne_zero
      (by rw [Nat.one_mul, hinner]; exact hlt inner (outer * n * m * w) (by ring)), Nat.one_mul,
      hinner]
  have hpieces := readPieces_ok hw hk hend hfile outer 0 (Nat.zero_add _) [] (Nat.zero_mul _).symm
  rw [List.nil_append, List.nil_append, ← List.range_eq_range'] at hpieces
  rw [readTensorAxisPartitionTraced, RustResult.ofExcept_okOr_bind hcut.extent_eq,
    range_ok hk (hlt (n * m) (outer * inner * w) (by ring))]
  simp only [RustResult.ok_bind, Nat.add_sub_cancel_left]
  rw [RustResult.ofExcept_okOr_bind hin.width_eq,
    RustResult.ofExcept_okOr_bind hin.elementCount_eq,
    RustResult.ofExcept_okOr_bind (checkedMul_eq (hlt (total * w) 1 (by rw [htotal]; ring))),
    if_neg (not_not.mpr hin.byteLen_eq.symm), checkedShapeProduct,
    RustResult.ofExcept_okOr_bind houter, checkedShapeProduct,
    RustResult.ofExcept_okOr_bind hinnerFold,
    RustResult.ofExcept_okOr_bind (checkedMul_eq (hlt (n * m * inner) (outer * w) (by ring))),
    RustResult.ofExcept_okOr_bind (checkedMul_eq (hlt (m * inner) (outer * n * w) (by ring))),
    RustResult.ofExcept_okOr_bind (checkedMul_eq (hlt (m * inner * w) (outer * n) (by ring))),
    RustResult.ofExcept_okOr_bind (checkedMul_eq (hlt (outer * (m * inner * w)) n (by ring))),
    openShard_eq_ok.mpr hin.file_eq, RustResult.ofExcept_ok, RustResult.ok_bind]
  have hstrides : (⟨k * m, inner, n * m * inner, m * inner * w, w⟩ : PartitionStrides) =
      stridesOf n k m inner w := rfl
  rw [hstrides, hpieces, RustResult.ok_bind, hsize]
  rfl

/-! ### All parts -/

/-- The bytes of a tensor for one index of the axes before the given one. -/
def SafetensorsTensorData.outerSlice (data : SafetensorsTensorData) (axis width outerIndex : ℕ) :
    Bytes :=
  let size := (data.metadata.shape.drop axis).prod * width
  (data.bytes.drop (outerIndex * size)).take size

/-- Tensors that agree in the axes before the given one, put together along it: for every index of
these axes, the bytes of the first tensor, then those of the second, and so on. -/
def concatAlongAxis (axis width outerCount : ℕ) (parts : List SafetensorsTensorData) : Bytes :=
  (List.range outerCount).flatMap fun outerIndex =>
    parts.flatMap fun part => part.outerSlice axis width outerIndex

section Parts

variable {span : SafetensorsTensorSpan} {file : Bytes} {outer n size : ℕ}

theorem length_pieceOf {number : ℕ}
    (hfile : span.absoluteByteOffset + (number + 1) * size ≤ file.length) :
    (pieceOf span file size number).length = size := by
  rw [Nat.succ_mul] at hfile
  rw [pieceOf, List.length_take, List.length_drop]
  omega

/-- A piece of a part is found at its outer index. -/
theorem take_drop_partBytes (hfile : span.absoluteByteOffset + outer * n * size ≤ file.length)
    {k o : ℕ} (hk : k < n) (ho : o < outer) :
    ((partBytes span file outer n size k).drop (o * size)).take size =
      pieceOf span file size (o * n + k) := by
  have hpiece : ∀ o ∈ List.range outer, (pieceOf span file size (o * n + k)).length = size := by
    intro o ho
    have hnumber : o * n + k + 1 ≤ outer * n := Classes.mul_add_lt (List.mem_range.mp ho) hk
    have := Nat.mul_le_mul_right size hnumber
    exact length_pieceOf (by omega)
  have hrow := Rows.take_drop_flatMap hpiece [] o (by rwa [List.length_range])
  rwa [List.append_nil, List.getElem_range] at hrow

/-- The pieces of all parts in their order are the bytes of the tensor. -/
theorem flatMap_pieceOf (count : ℕ) : (List.range count).flatMap (pieceOf span file size) =
    (file.drop span.absoluteByteOffset).take (count * size) := by
  rw [← Rows.flatMap_range_take_drop]
  refine congrArg (List.flatMap · (List.range count)) (funext fun number => ?_)
  rw [pieceOf, List.drop_drop]

end Parts

/-- The parts put together. -/
theorem concatAlongAxis_partData {span : SafetensorsTensorSpan} {file : Bytes}
    {axis outer n m w size : ℕ} (haxis : axis < span.metadata.shape.length)
    (hsize : m * (span.metadata.shape.drop (axis + 1)).prod * w = size)
    (hfile : span.absoluteByteOffset + outer * n * size ≤ file.length) :
    concatAlongAxis axis w outer ((List.range n).map (partData span file axis outer n m size)) =
      (file.drop span.absoluteByteOffset).take (outer * n * size) := by
  have hslice : ∀ o ∈ List.range outer, ∀ k ∈ List.range n,
      (partData span file axis outer n m size k).outerSlice axis w o =
        pieceOf span file size (o * n + k) := by
    intro o ho k hk
    have hprod : ((span.metadata.shape.set axis m).drop axis).prod * w = size := by
      rw [List.drop_eq_getElem_cons (by rwa [List.length_set]), List.getElem_set_self,
        List.drop_set_of_lt (Nat.lt_succ_self axis), List.prod_cons, hsize]
    simp only [SafetensorsTensorData.outerSlice, partData, hprod]
    exact take_drop_partBytes hfile (List.mem_range.mp hk) (List.mem_range.mp ho)
  rw [← flatMap_pieceOf, Rows.flatMap_range_mul, concatAlongAxis]
  refine List.flatMap_congr fun o ho => ?_
  rw [List.flatMap_map]
  exact List.flatMap_congr fun k hk => hslice o ho k hk

/-- Every rank of a group. -/
def ranksOf (worldSize : ℕ) : List TensorParallelRank :=
  (List.finRange worldSize).map fun g : Fin worldSize => ⟨g.val, worldSize, g.isLt⟩

/-- The shard of a rank. -/
def shardOf (shardCount : ℕ) (rank : TensorParallelRank) : Option ℕ :=
  match TensorPartition.forReplicatedShards rank shardCount with
  | .ok partition => some partition.partitionIndex
  | .error _ => none

theorem new_ok {n k : ℕ} (hk : k < n) : TensorPartition.new n k = .ok ⟨n, k, hk⟩ := by
  rw [TensorPartition.new, if_neg (by omega), dif_neg (by omega)]

theorem TensorParallelRank.shard_lt {rank : TensorParallelRank} {shardCount : ℕ}
    (hpos : 0 < shardCount) (hdvd : shardCount ∣ rank.worldSize) :
    rank.globalRank / (rank.worldSize / shardCount) < shardCount := by
  have hle := Nat.le_of_dvd (Nat.zero_lt_of_lt rank.globalRank_lt) hdvd
  rw [Nat.div_lt_iff_lt_mul (Nat.div_pos hle hpos), Nat.mul_div_cancel' hdvd]
  exact rank.globalRank_lt

/-- **Replicated shards** are accepted exactly if their number divides that of the ranks, and then a
rank reads the shard of its quotient. -/
theorem forReplicatedShards_eq_ok_iff {rank : TensorParallelRank} {shardCount : ℕ}
    {partition : TensorPartition} :
    TensorPartition.forReplicatedShards rank shardCount = .ok partition ↔
      (0 < shardCount ∧ shardCount ∣ rank.worldSize) ∧ partition.partitionCount = shardCount ∧
        partition.partitionIndex = rank.globalRank / (rank.worldSize / shardCount) := by
  constructor
  · intro h
    simp only [TensorPartition.forReplicatedShards, ite_error_eq_ok] at h
    obtain ⟨hzero, -, hdvd, h⟩ := h
    unfold TensorPartition.new at h
    rw [if_neg hzero] at h
    split_ifs at h with hlt
    obtain rfl := Except.ok.inj h
    exact ⟨⟨Nat.pos_of_ne_zero hzero, Nat.dvd_of_mod_eq_zero (not_not.mp hdvd)⟩, rfl, rfl⟩
  · rintro ⟨⟨hpos, hdvd⟩, hcount, hindex⟩
    have hle := Nat.le_of_dvd (Nat.zero_lt_of_lt rank.globalRank_lt) hdvd
    rw [TensorPartition.forReplicatedShards, if_neg hpos.ne', if_neg (Nat.not_lt.mpr hle),
      if_neg (not_not.mpr (Nat.mod_eq_zero_of_dvd hdvd))]
    dsimp only
    rw [new_ok (TensorParallelRank.shard_lt hpos hdvd)]
    obtain ⟨count, index, _⟩ := partition
    obtain rfl : count = shardCount := hcount
    obtain rfl : index = _ := hindex
    rfl

/-- Every rank reads a shard if their number divides that of the ranks. -/
theorem shardOf_eq {rank : TensorParallelRank} {shardCount : ℕ} (hpos : 0 < shardCount)
    (hdvd : shardCount ∣ rank.worldSize) :
    shardOf shardCount rank = some (rank.globalRank / (rank.worldSize / shardCount)) := by
  have haccepted : TensorPartition.forReplicatedShards rank shardCount =
      .ok ⟨shardCount, _, TensorParallelRank.shard_lt hpos hdvd⟩ :=
    forReplicatedShards_eq_ok_iff.mpr ⟨⟨hpos, hdvd⟩, rfl, rfl⟩
  rw [shardOf, haccepted]

/-- Every shard is read by as many ranks. -/
theorem length_filter_shardOf {worldSize shardCount shard : ℕ} (hpos : 0 < shardCount)
    (hdvd : shardCount ∣ worldSize) (hshard : shard < shardCount) :
    ((ranksOf worldSize).filter fun rank => shardOf shardCount rank = some shard).length =
      worldSize / shardCount := by
  rcases Nat.eq_zero_or_pos worldSize with rfl | hranks
  · simp [ranksOf]
  have hreplicas : 0 < worldSize / shardCount := Nat.div_pos (Nat.le_of_dvd hranks hdvd) hpos
  have hcount := Classes.length_filter_div_mem (a := shardCount) hreplicas
    (List.nodup_singleton shard) fun q hq => List.mem_singleton.mp hq ▸ hshard
  rw [Nat.mul_div_cancel' hdvd, List.length_singleton, Nat.one_mul] at hcount
  have hmap : (ranksOf worldSize).map TensorParallelRank.globalRank = List.range worldSize := by
    rw [ranksOf, List.map_map]
    exact List.map_coe_finRange_eq_range
  rw [← hmap, List.filter_map, List.length_map] at hcount
  rw [← hcount]
  refine congrArg List.length (List.filter_congr fun rank hrank => ?_)
  obtain ⟨g, -, rfl⟩ := List.mem_map.mp hrank
  rw [shardOf_eq hpos hdvd]
  simp

/-- **Sharded loading.** The parts of a tensor along an axis are read from inside its span, each is
the tensor with the axis cut to its share, and put together along the axis they are the tensor. A
rank is assigned one of a number of replicated shards exactly if the number divides that of the
ranks, and then every shard is assigned to equally many of them. -/
theorem sharded_loading_reassembles :
    (∀ (fs : FileSystem) (header : SafetensorsHeader) (path tensorName : String)
      (span : SafetensorsTensorSpan),
      header.tensorSpan fs path tensorName = .ok (some span) →
      (∀ d ∈ span.metadata.shape, d ≠ 0) →
      ∀ axis extent n : ℕ, span.metadata.shape[axis]? = some extent → n ∣ extent →
      ∃ file width, fs span.path = .ok file ∧ span.metadata.dtypeByteWidth = some width ∧
        span.absoluteByteOffset + span.byteLen ≤ file.length ∧
        ∃ parts : ℕ → SafetensorsTensorData,
          (∀ k < n, ∃ partition reads, TensorPartition.new n k = .ok partition ∧
            readTensorAxisPartitionTraced fs span axis partition = .ok (parts k, reads) ∧
            readTensorAxisPartition fs span axis partition = .ok (parts k) ∧
            (parts k).metadata.dtype = span.metadata.dtype ∧
            (parts k).metadata.shape = span.metadata.shape.set axis (extent / n) ∧
            ∀ read ∈ reads, span.absoluteByteOffset ≤ read.1 ∧
              read.1 + read.2 ≤ span.absoluteByteOffset + span.byteLen) ∧
          concatAlongAxis axis width (span.metadata.shape.take axis).prod
              ((List.range n).map parts) =
            (file.drop span.absoluteByteOffset).take span.byteLen) ∧
    ∀ worldSize shardCount : ℕ,
      (∀ rank : TensorParallelRank, rank.worldSize = worldSize →
        ((∃ partition, TensorPartition.forReplicatedShards rank shardCount = .ok partition ∧
          partition.partitionCount = shardCount) ↔ 0 < shardCount ∧ shardCount ∣ worldSize)) ∧
      (0 < shardCount → shardCount ∣ worldSize → ∀ shard < shardCount,
        ((ranksOf worldSize).filter fun rank => shardOf shardCount rank = some shard).length =
          worldSize / shardCount) := by
  refine ⟨fun fs header path tensorName span hspan hnz axis extent n hextent hn => ?_,
    fun worldSize shardCount => ⟨?_, fun hpos hdvd shard hshard =>
      length_filter_shardOf hpos hdvd hshard⟩⟩
  case refine_2 =>
    rintro rank rfl
    constructor
    · rintro ⟨partition, h, -⟩
      exact (forReplicatedShards_eq_ok_iff.mp h).1
    · rintro ⟨hpos, hdvd⟩
      have hshard := shardOf_eq hpos hdvd
      unfold shardOf at hshard
      split at hshard
      · next partition h => exact ⟨partition, h, (forReplicatedShards_eq_ok_iff.mp h).2.1⟩
      · cases hshard
  obtain ⟨m, rfl⟩ := hn
  obtain ⟨file, total, w, hin⟩ := SafetensorsHeader.spanInFile_of_tensorSpan hspan
  have hcut : CutAxis span axis n m := ⟨hnz, hextent⟩
  have hn : 0 < n := Nat.pos_of_mul_pos_right hcut.extent_pos
  have hextentDiv : n * m / n = m := Nat.mul_div_cancel_left m hn
  obtain ⟨outer, houter⟩ : ∃ outer, (span.metadata.shape.take axis).prod = outer := ⟨_, rfl⟩
  obtain ⟨size, hsize⟩ :
    ∃ size, m * (span.metadata.shape.drop (axis + 1)).prod * w = size := ⟨_, rfl⟩
  have hbytes : span.byteLen = outer * n * size := by
    rw [hin.byteLen_eq, shapeElementCount_eq_some hin.elementCount_eq, hcut.shape_prod, houter,
      Nat.mul_assoc, hsize]
  have hfile := hin.end_le
  rw [hbytes] at hfile
  obtain ⟨haxis, -⟩ := List.getElem?_eq_some_iff.mp hextent
  rw [hextentDiv, houter]
  refine ⟨file, w, hin.file_eq, hin.width_eq, hin.end_le,
    partData span file axis outer n m size,
    fun k hk => ?_, ?_⟩
  · have hread := readTensorAxisPartitionTraced_ok hin hcut hk
    rw [houter, hsize] at hread
    refine ⟨⟨n, k, hk⟩, partReads span outer n size k, new_ok hk, hread, ?_, rfl, rfl, ?_⟩
    · rw [readTensorAxisPartition, hread]
      rfl
    intro read hmem
    obtain ⟨o, ho, rfl⟩ := List.mem_map.mp hmem
    have hnumber : o * n + k + 1 ≤ outer * n := Classes.mul_add_lt (List.mem_range.mp ho) hk
    have hle := Nat.mul_le_mul_right size hnumber
    rw [Nat.succ_mul] at hle
    rw [hbytes]
    exact ⟨Nat.le_add_right _ _, by dsimp only; omega⟩
  · rw [hbytes]
    exact concatAlongAxis_partData haxis hsize hfile

/-- A file with one tensor of two rows and two columns. -/
def sampleFile : FileSystem := fun _ => .ok [0, 0, 0, 0, 0, 0, 0, 0, 1, 2, 3, 4]

def sampleHeader : SafetensorsHeader where
  headerLen := 0
  tensors := fun _ => some ⟨"U8", [2, 2], (0, 4)⟩

def sampleSpan : SafetensorsTensorSpan := ⟨"model", ⟨"U8", [2, 2], (0, 4)⟩, 8, 4⟩

/-- The theorem applied to the columns of the tensor, and to two shards for four ranks. -/
theorem sharded_loading_reassembles_of_columns :
    (∃ left right, readTensorAxisPartition sampleFile sampleSpan 1 ⟨2, 0, by decide⟩ = .ok left ∧
      readTensorAxisPartition sampleFile sampleSpan 1 ⟨2, 1, by decide⟩ = .ok right ∧
      concatAlongAxis 1 1 2 [left, right] = [1, 2, 3, 4]) ∧
    ((ranksOf 4).filter fun rank => shardOf 2 rank = some 1).length = 2 := by
  obtain ⟨hparts, hshards⟩ := sharded_loading_reassembles
  obtain ⟨file, width, hfile, hwidth, -, parts, hread, hconcat⟩ :=
    hparts sampleFile sampleHeader "model" "w" sampleSpan rfl (by decide) 1 2 2 rfl dvd_rfl
  obtain rfl := Option.some.inj hwidth
  obtain rfl := Except.ok.inj hfile
  obtain ⟨first, _, hfirst, -, hleft, -⟩ := hread 0 (by decide)
  obtain ⟨second, _, hsecond, -, hright, -⟩ := hread 1 (by decide)
  obtain rfl := Except.ok.inj hfirst
  obtain rfl := Except.ok.inj hsecond
  exact ⟨⟨parts 0, parts 1, hleft, hright, hconcat⟩,
    (hshards 4 2).2 (by decide) (by decide) 1 (by decide)⟩

end SglangRs
