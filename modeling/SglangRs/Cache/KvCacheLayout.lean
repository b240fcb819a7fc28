import Mathlib.Algebra.BigOperators.Group.Finset.Basic
import Mathlib.Algebra.Order.BigOperators.Group.Finset
import SglangRs.Arithmetic.Checked
import SglangRs.Paging.Tiling

/-!
# The layout of the paged KV cache

A `PagedKvCacheLayout` computes where in a buffer the bytes of a token lie: the buffer consists of
pages, a page of layers, a layer of tensors and a tensor of tokens (`kv_cache.rs`, lines 414–824).
The tensors of a layer have one width, or they are a key and a value tensor of their own widths.

All sizes are `usize`, and every sum and product is checked. The width of a `usize` is the parameter
`w`. The total number of bytes is among the sizes that `new` checks, and all addresses are below it,
so that the checks of the accessors never fail. The kernels that copy keys and values compute the
addresses by a formula of their own, from the numbers that `kv_pair_copy_geometry` hands them.

## Main definitions

* `PagedKvCacheLayout`, its constructors `new` and `newWithTensorPair`, and its accessors.
* `KvPairCopyGeometry.address`: the address that a kernel computes for a slot.
* `PagedKvCacheLayout.Valid`: what the constructors establish.
* `PagedKvCacheLayout.Tiled`: the ranges of the tokens tile the buffer.

## Main results

* `PagedKvCacheLayout.IsBuilt.valid`: what is built is valid.
* `PagedKvCacheLayout.Valid.tensorTokenByteRange_eq`: the range of a token.
* `paged_kv_cache_layout_tiles`: what is built tiles the buffer.
-/

open Paging Set

namespace SglangRs

structure KvCacheRuntimeLayout where
  pageSize : ℕ
  numLayers : ℕ
  kvHeads : ℕ
  headDim : ℕ
  kvTensorsPerToken : ℕ
  bytesPerToken : ℕ
  pageSizeBytes : ℕ
deriving DecidableEq, Repr

inductive PagedKvCacheLayoutError where
  | zeroPageCount
  | zeroLayoutField (field : String)
  | runtimePageSizeMismatch (expected actual : ℕ)
  | unevenLayerLayout (bytesPerToken numLayers : ℕ)
  | unevenTensorLayout (bytesPerTokenPerLayer kvTensorsPerToken : ℕ)
  | sizeOverflow
  | pageOutOfRange (pageIndex pageCount : ℕ)
  | layerOutOfRange (layerIndex layerCount : ℕ)
  | tensorOutOfRange (tensorIndex tensorCount : ℕ)
  | tokenOutOfRange (tokenIndex pageSize : ℕ)
  | slotOutOfRange (slotIndex slotCount : ℕ)
  | kvPairRequiresTwoTensors (tensorCount : ℕ)
  | tensorPairRequiresTwoTensors (tensorCount : ℕ)
  | tensorPairSizeMismatch (bytesPerTokenPerLayer keyTokenBytes valueTokenBytes : ℕ)
  | unevenKvPairCopy (keyTokenBytes valueTokenBytes : ℕ)
deriving DecidableEq, Repr

structure KvPairCopyGeometry where
  pageSize : ℕ
  pageStrideBytes : ℕ
  keyOffsetBytes : ℕ
  valueOffsetBytes : ℕ
  tokenBytes : ℕ
deriving DecidableEq, Repr

inductive PagedKvTensorGeometry where
  | uniform (tokenBytes pageBytes : ℕ)
  | pair (keyTokenBytes valueTokenBytes keyPageBytes : ℕ)
deriving DecidableEq, Repr

structure PagedKvCacheLayout where
  runtime : KvCacheRuntimeLayout
  pageCount : ℕ
  bytesPerTokenPerLayer : ℕ
  bytesPerLayerPage : ℕ
  tensorGeometry : PagedKvTensorGeometry
  totalByteLen : ℕ
  slotCount : ℕ
deriving DecidableEq, Repr

/-- A half-open range of bytes. -/
structure ByteRange where
  start : ℕ
  stop : ℕ
deriving DecidableEq, Repr

def ByteRange.bytes (range : ByteRange) : Set ℕ := Ico range.start range.stop

/-- `ok_or(SizeOverflow)`. -/
def okOrOverflow : Option ℕ → Except PagedKvCacheLayoutError ℕ
  | some n => .ok n
  | none => .error .sizeOverflow

/-- The loop that rejects the first field that is zero. -/
def rejectZeroFields : List (String × ℕ) → Except PagedKvCacheLayoutError Unit
  | [] => .ok ()
  | (field, value) :: fields =>
      if value = 0 then .error (.zeroLayoutField field) else rejectZeroFields fields

namespace PagedKvCacheLayout

section Constructors

variable (w : ℕ) (runtime : KvCacheRuntimeLayout) (pageCount : ℕ)

/-- Source: `kv_cache.rs`, lines 531–586. -/
def validateRuntime : Except PagedKvCacheLayoutError (ℕ × ℕ × ℕ × ℕ) :=
  if pageCount = 0 then .error .zeroPageCount
  else do
    rejectZeroFields [("page_size", runtime.pageSize), ("num_layers", runtime.numLayers),
      ("kv_heads", runtime.kvHeads), ("head_dim", runtime.headDim),
      ("kv_tensors_per_token", runtime.kvTensorsPerToken),
      ("bytes_per_token", runtime.bytesPerToken), ("page_size_bytes", runtime.pageSizeBytes)]
    let expectedPageSizeBytes ← okOrOverflow (checkedMul w runtime.pageSize runtime.bytesPerToken)
    if runtime.pageSizeBytes ≠ expectedPageSizeBytes then
      .error (.runtimePageSizeMismatch expectedPageSizeBytes runtime.pageSizeBytes)
    else if ¬ runtime.numLayers ∣ runtime.bytesPerToken then
      .error (.unevenLayerLayout runtime.bytesPerToken runtime.numLayers)
    else
      let bytesPerTokenPerLayer := runtime.bytesPerToken / runtime.numLayers
      let bytesPerLayerPage ← okOrOverflow (checkedMul w runtime.pageSize bytesPerTokenPerLayer)
      let totalByteLen ← okOrOverflow (checkedMul w pageCount runtime.pageSizeBytes)
      let slotCount ← okOrOverflow (checkedMul w pageCount runtime.pageSize)
      return (bytesPerTokenPerLayer, bytesPerLayerPage, totalByteLen, slotCount)

/-- Source: `kv_cache.rs`, lines 448–478. -/
def new : Except PagedKvCacheLayoutError PagedKvCacheLayout := do
  let (bytesPerTokenPerLayer, bytesPerLayerPage, totalByteLen, slotCount) ←
    validateRuntime w runtime pageCount
  if ¬ runtime.kvTensorsPerToken ∣ bytesPerTokenPerLayer then
    .error (.unevenTensorLayout bytesPerTokenPerLayer runtime.kvTensorsPerToken)
  else
    let tokenBytes := bytesPerTokenPerLayer / runtime.kvTensorsPerToken
    let pageBytes ← okOrOverflow (checkedMul w runtime.pageSize tokenBytes)
    return ⟨runtime, pageCount, bytesPerTokenPerLayer, bytesPerLayerPage,
      .uniform tokenBytes pageBytes, totalByteLen, slotCount⟩

/-- Source: `kv_cache.rs`, lines 480–529. -/
def newWithTensorPair (keyTokenBytes valueTokenBytes : ℕ) :
    Except PagedKvCacheLayoutError PagedKvCacheLayout := do
  let (bytesPerTokenPerLayer, bytesPerLayerPage, totalByteLen, slotCount) ←
    validateRuntime w runtime pageCount
  if runtime.kvTensorsPerToken ≠ 2 then
    .error (.tensorPairRequiresTwoTensors runtime.kvTensorsPerToken)
  else
    rejectZeroFields [("key_token_bytes", keyTokenBytes), ("value_token_bytes", valueTokenBytes)]
    let pairBytes ← okOrOverflow (checkedAdd w keyTokenBytes valueTokenBytes)
    if pairBytes ≠ bytesPerTokenPerLayer then
      .error (.tensorPairSizeMismatch bytesPerTokenPerLayer keyTokenBytes valueTokenBytes)
    else
      let keyPageBytes ← okOrOverflow (checkedMul w runtime.pageSize keyTokenBytes)
      return ⟨runtime, pageCount, bytesPerTokenPerLayer, bytesPerLayerPage,
        .pair keyTokenBytes valueTokenBytes keyPageBytes, totalByteLen, slotCount⟩

end Constructors

section Accessors

variable (layout : PagedKvCacheLayout) (w : ℕ)

def validatePage (pageIndex : ℕ) : Except PagedKvCacheLayoutError Unit :=
  if layout.pageCount ≤ pageIndex then .error (.pageOutOfRange pageIndex layout.pageCount)
  else .ok ()

/-- Source: `kv_cache.rs`, lines 779–795. -/
def tensorTokenBytes (tensorIndex : ℕ) : Except PagedKvCacheLayoutError ℕ :=
  match layout.tensorGeometry with
  | .uniform tokenBytes _ => .ok tokenBytes
  | .pair keyTokenBytes valueTokenBytes _ =>
      match tensorIndex with
      | 0 => .ok keyTokenBytes
      | 1 => .ok valueTokenBytes
      | _ => .error (.tensorOutOfRange tensorIndex layout.runtime.kvTensorsPerToken)

/-- Source: `kv_cache.rs`, lines 797–811. -/
def tensorPageOffset (tensorIndex : ℕ) : Except PagedKvCacheLayoutError ℕ :=
  match layout.tensorGeometry with
  | .uniform _ pageBytes => okOrOverflow (checkedMul w tensorIndex pageBytes)
  | .pair _ _ keyPageBytes =>
      match tensorIndex with
      | 0 => .ok 0
      | 1 => .ok keyPageBytes
      | _ => .error (.tensorOutOfRange tensorIndex layout.runtime.kvTensorsPerToken)

/-- Source: `kv_cache.rs`, lines 639–651. -/
def pageByteRange (pageIndex : ℕ) : Except PagedKvCacheLayoutError ByteRange := do
  layout.validatePage pageIndex
  let start ← okOrOverflow (checkedMul w pageIndex layout.runtime.pageSizeBytes)
  let stop ← okOrOverflow (checkedAdd w start layout.runtime.pageSizeBytes)
  return ⟨start, stop⟩

/-- Source: `kv_cache.rs`, lines 653–700. -/
def tensorTokenByteRange (pageIndex layerIndex tensorIndex tokenIndex : ℕ) :
    Except PagedKvCacheLayoutError ByteRange := do
  layout.validatePage pageIndex
  if layout.runtime.numLayers ≤ layerIndex then
    .error (.layerOutOfRange layerIndex layout.runtime.numLayers)
  else if layout.runtime.kvTensorsPerToken ≤ tensorIndex then
    .error (.tensorOutOfRange tensorIndex layout.runtime.kvTensorsPerToken)
  else if layout.runtime.pageSize ≤ tokenIndex then
    .error (.tokenOutOfRange tokenIndex layout.runtime.pageSize)
  else
    let pageOffset ← okOrOverflow (checkedMul w pageIndex layout.runtime.pageSizeBytes)
    let layerOffset ← okOrOverflow (checkedMul w layerIndex layout.bytesPerLayerPage)
    let tensorOffset ← layout.tensorPageOffset w tensorIndex
    let tensorTokenBytes ← layout.tensorTokenBytes tensorIndex
    let tokenOffset ← okOrOverflow (checkedMul w tokenIndex tensorTokenBytes)
    let start ← okOrOverflow <|
      ((checkedAdd w pageOffset layerOffset).bind fun offset =>
        checkedAdd w offset tensorOffset).bind fun offset => checkedAdd w offset tokenOffset
    let stop ← okOrOverflow (checkedAdd w start tensorTokenBytes)
    return ⟨start, stop⟩

/-- Source: `kv_cache.rs`, lines 702–720. -/
def tensorSlotByteRange (layerIndex tensorIndex slotIndex : ℕ) :
    Except PagedKvCacheLayoutError ByteRange :=
  if layout.slotCount ≤ slotIndex then .error (.slotOutOfRange slotIndex layout.slotCount)
  else
    layout.tensorTokenByteRange w (slotIndex / layout.runtime.pageSize) layerIndex tensorIndex
      (slotIndex % layout.runtime.pageSize)

/-- Source: `kv_cache.rs`, lines 738–777. -/
def kvPairCopyGeometry (layerIndex : ℕ) : Except PagedKvCacheLayoutError KvPairCopyGeometry :=
  if layout.runtime.numLayers ≤ layerIndex then
    .error (.layerOutOfRange layerIndex layout.runtime.numLayers)
  else if layout.runtime.kvTensorsPerToken < 2 then
    .error (.kvPairRequiresTwoTensors layout.runtime.kvTensorsPerToken)
  else do
    let layerOffsetBytes ← okOrOverflow (checkedMul w layerIndex layout.bytesPerLayerPage)
    let keyTokenBytes ← layout.tensorTokenBytes 0
    let valueTokenBytes ← layout.tensorTokenBytes 1
    if keyTokenBytes ≠ valueTokenBytes then
      .error (.unevenKvPairCopy keyTokenBytes valueTokenBytes)
    else
      let keyPageOffset ← layout.tensorPageOffset w 0
      let keyOffsetBytes ← okOrOverflow (checkedAdd w layerOffsetBytes keyPageOffset)
      let valuePageOffset ← layout.tensorPageOffset w 1
      let valueOffsetBytes ← okOrOverflow (checkedAdd w layerOffsetBytes valuePageOffset)
      return ⟨layout.runtime.pageSize, layout.runtime.pageSizeBytes, keyOffsetBytes,
        valueOffsetBytes, keyTokenBytes⟩

end Accessors

end PagedKvCacheLayout

/-- The address of the first byte of a slot that the copy kernels compute.

Source: `sglang-kernel/src/cuda_kv_kernels.rs`, lines 43–48. -/
def KvPairCopyGeometry.address (geometry : KvPairCopyGeometry) (inPageOffset slot : ℕ) : ℕ :=
  slot / geometry.pageSize * geometry.pageStrideBytes + inPageOffset +
    slot % geometry.pageSize * geometry.tokenBytes

/-! ### Checked arithmetic -/

section Checked

variable {w a b c : ℕ}

@[simp] theorem okOrOverflow_some : okOrOverflow (some a) = .ok a := rfl

theorem okOrOverflow_checkedMul_eq_ok :
    okOrOverflow (checkedMul w a b) = .ok c ↔ a * b < 2 ^ w ∧ a * b = c := by
  unfold checkedMul
  split_ifs with h <;> simp [okOrOverflow, h]

theorem okOrOverflow_checkedAdd_eq_ok :
    okOrOverflow (checkedAdd w a b) = .ok c ↔ a + b < 2 ^ w ∧ a + b = c := by
  unfold checkedAdd
  split_ifs with h <;> simp [okOrOverflow, h]

theorem rejectZeroFields_eq_ok {fields : List (String × ℕ)} :
    rejectZeroFields fields = .ok () ↔ ∀ field ∈ fields, field.2 ≠ 0 := by
  induction fields with
  | nil => simp [rejectZeroFields]
  | cons field fields ih =>
    rw [rejectZeroFields]
    split_ifs with h <;> simp [h, ih]

end Checked

namespace PagedKvCacheLayout

variable {w : ℕ} {layout : PagedKvCacheLayout} {runtime : KvCacheRuntimeLayout} {pageCount : ℕ}

/-! ### What the constructors establish -/

/-- The layout is returned by one of the constructors. -/
inductive IsBuilt (w : ℕ) (layout : PagedKvCacheLayout) : Prop where
  | new (runtime : KvCacheRuntimeLayout) (pageCount : ℕ)
      (h : PagedKvCacheLayout.new w runtime pageCount = .ok layout)
  | newWithTensorPair (runtime : KvCacheRuntimeLayout)
      (pageCount keyTokenBytes valueTokenBytes : ℕ)
      (h : PagedKvCacheLayout.newWithTensorPair w runtime pageCount keyTokenBytes
        valueTokenBytes = .ok layout)

/-- The sizes that `validate_runtime` returns. -/
structure RuntimeSizes (w : ℕ) (runtime : KvCacheRuntimeLayout)
    (pageCount bytesPerTokenPerLayer bytesPerLayerPage totalByteLen slotCount : ℕ) : Prop where
  pageCount_pos : 0 < pageCount
  numLayers_pos : 0 < runtime.numLayers
  pageSize_pos : 0 < runtime.pageSize
  bytesPerLayerPage_eq : bytesPerLayerPage = runtime.pageSize * bytesPerTokenPerLayer
  pageSizeBytes_eq : runtime.pageSizeBytes = runtime.numLayers * bytesPerLayerPage
  totalByteLen_eq : totalByteLen = pageCount * runtime.pageSizeBytes
  totalByteLen_lt : totalByteLen < 2 ^ w
  slotCount_eq : slotCount = pageCount * runtime.pageSize

theorem runtimeSizes_of_validateRuntime {a b c d : ℕ}
    (h : validateRuntime w runtime pageCount = .ok (a, b, c, d)) :
    RuntimeSizes w runtime pageCount a b c d := by
  unfold validateRuntime at h
  by_cases hdvd : runtime.numLayers ∣ runtime.bytesPerToken
  · rw [if_neg (not_not.mpr hdvd)] at h
    split_ifs at h with hcount
    obtain ⟨_, hfields, h⟩ := Except.bind_eq_ok.mp h
    obtain ⟨expected, hexpected, h⟩ := Except.bind_eq_ok.mp h
    obtain ⟨-, rfl⟩ := okOrOverflow_checkedMul_eq_ok.mp hexpected
    split_ifs at h with hbytes
    obtain ⟨_, hb, h⟩ := Except.bind_eq_ok.mp h
    obtain ⟨_, hc, h⟩ := Except.bind_eq_ok.mp h
    obtain ⟨_, hd, h⟩ := Except.bind_eq_ok.mp h
    obtain ⟨rfl, rfl, rfl, rfl⟩ := h
    rw [rejectZeroFields_eq_ok] at hfields
    obtain ⟨-, rfl⟩ := okOrOverflow_checkedMul_eq_ok.mp hb
    obtain ⟨htotal, rfl⟩ := okOrOverflow_checkedMul_eq_ok.mp hc
    obtain ⟨-, rfl⟩ := okOrOverflow_checkedMul_eq_ok.mp hd
    refine ⟨Nat.pos_of_ne_zero hcount, Nat.pos_of_ne_zero (hfields ("num_layers", _) (by simp)),
      Nat.pos_of_ne_zero (hfields ("page_size", _) (by simp)), rfl, ?_, rfl, htotal, rfl⟩
    rw [not_not.mp hbytes, Nat.mul_left_comm, Nat.mul_div_cancel' hdvd]
  · -- rejected, by the check of the page size or by the next one
    rw [if_pos hdvd] at h
    split_ifs at h
    obtain ⟨_, -, h⟩ := Except.bind_eq_ok.mp h
    obtain ⟨_, -, h⟩ := Except.bind_eq_ok.mp h
    split_ifs at h

/-- The number of bytes that a token has in a tensor. -/
def tensorWidth (layout : PagedKvCacheLayout) (tensorIndex : ℕ) : ℕ :=
  match layout.tensorGeometry with
  | .uniform tokenBytes _ => tokenBytes
  | .pair keyTokenBytes valueTokenBytes _ =>
      if tensorIndex = 0 then keyTokenBytes else valueTokenBytes

/-- Where a tensor starts in the page of a layer. -/
def tensorStart (layout : PagedKvCacheLayout) (tensorIndex : ℕ) : ℕ :=
  ∑ i ∈ Finset.range tensorIndex, layout.runtime.pageSize * layout.tensorWidth i

/-- What the constructors establish: every level consists of the level below it, and the total size
is a `usize`. -/
structure Valid (w : ℕ) (layout : PagedKvCacheLayout) : Prop where
  pageSize_pos : 0 < layout.runtime.pageSize
  tensorTokenBytes_eq : ∀ t < layout.runtime.kvTensorsPerToken,
    layout.tensorTokenBytes t = .ok (layout.tensorWidth t)
  tensorPageOffset_eq : ∀ t < layout.runtime.kvTensorsPerToken,
    layout.tensorPageOffset w t = .ok (layout.tensorStart t)
  bytesPerLayerPage_eq :
    layout.bytesPerLayerPage = layout.tensorStart layout.runtime.kvTensorsPerToken
  pageSizeBytes_eq : layout.runtime.pageSizeBytes =
    layout.runtime.numLayers * layout.bytesPerLayerPage
  totalByteLen_eq : layout.totalByteLen = layout.pageCount * layout.runtime.pageSizeBytes
  totalByteLen_lt : layout.totalByteLen < 2 ^ w
  slotCount_eq : layout.slotCount = layout.pageCount * layout.runtime.pageSize

theorem tensorStart_succ (layout : PagedKvCacheLayout) (t : ℕ) :
    layout.tensorStart (t + 1) =
      layout.tensorStart t + layout.runtime.pageSize * layout.tensorWidth t :=
  Finset.sum_range_succ ..

theorem monotone_tensorStart (layout : PagedKvCacheLayout) : Monotone layout.tensorStart :=
  monotone_nat_of_le_succ fun t => by
    rw [tensorStart_succ]
    exact Nat.le_add_right ..

/-- The page of a layer fits into the buffer. -/
theorem RuntimeSizes.bytesPerLayerPage_le {a b c d : ℕ}
    (h : RuntimeSizes w runtime pageCount a b c d) : b ≤ c := by
  rw [h.totalByteLen_eq, h.pageSizeBytes_eq]
  exact (Nat.le_mul_of_pos_left b h.numLayers_pos).trans (Nat.le_mul_of_pos_left _ h.pageCount_pos)

theorem valid_of_new (h : PagedKvCacheLayout.new w runtime pageCount = .ok layout) :
    layout.Valid w := by
  obtain ⟨⟨a, b, c, d⟩, hruntime, h⟩ := Except.bind_eq_ok.mp h
  have hsizes := runtimeSizes_of_validateRuntime hruntime
  dsimp only at h
  split_ifs at h with hdvd
  obtain ⟨_, hpage, h⟩ := Except.bind_eq_ok.mp h
  obtain ⟨-, rfl⟩ := okOrOverflow_checkedMul_eq_ok.mp hpage
  obtain rfl := Except.ok.inj h
  have hstart (t : ℕ) : tensorStart ⟨runtime, pageCount, a, b, .uniform (a /
      runtime.kvTensorsPerToken) (runtime.pageSize * (a / runtime.kvTensorsPerToken)), c, d⟩ t =
        t * (runtime.pageSize * (a / runtime.kvTensorsPerToken)) := by
    simp only [tensorStart, tensorWidth, Finset.sum_const, Finset.card_range, Nat.nsmul_eq_mul]
  have hlayer : b = runtime.kvTensorsPerToken *
      (runtime.pageSize * (a / runtime.kvTensorsPerToken)) := by
    rw [hsizes.bytesPerLayerPage_eq, Nat.mul_left_comm, Nat.mul_div_cancel' hdvd]
  refine ⟨hsizes.pageSize_pos, fun t _ => rfl, fun t ht => ?_, ?_, hsizes.pageSizeBytes_eq,
    hsizes.totalByteLen_eq, hsizes.totalByteLen_lt, hsizes.slotCount_eq⟩
  · refine okOrOverflow_checkedMul_eq_ok.mpr ⟨lt_of_le_of_lt ?_ hsizes.totalByteLen_lt,
      (hstart t).symm⟩
    exact (Nat.mul_le_mul_right _ ht.le).trans (hlayer ▸ hsizes.bytesPerLayerPage_le)
  · rw [hstart]
    exact hlayer

theorem valid_of_newWithTensorPair {keyTokenBytes valueTokenBytes : ℕ}
    (h : newWithTensorPair w runtime pageCount keyTokenBytes valueTokenBytes = .ok layout) :
    layout.Valid w := by
  obtain ⟨⟨a, b, c, d⟩, hruntime, h⟩ := Except.bind_eq_ok.mp h
  have hsizes := runtimeSizes_of_validateRuntime hruntime
  dsimp only at h
  split_ifs at h with htwo
  rw [not_not] at htwo
  obtain ⟨_, -, h⟩ := Except.bind_eq_ok.mp h
  obtain ⟨_, hpair, h⟩ := Except.bind_eq_ok.mp h
  obtain ⟨-, rfl⟩ := okOrOverflow_checkedAdd_eq_ok.mp hpair
  split_ifs at h with hsum
  rw [not_not] at hsum
  obtain ⟨_, hpage, h⟩ := Except.bind_eq_ok.mp h
  obtain ⟨-, rfl⟩ := okOrOverflow_checkedMul_eq_ok.mp hpage
  obtain rfl := Except.ok.inj h
  refine ⟨hsizes.pageSize_pos, fun t ht => ?_, fun t ht => ?_, ?_, hsizes.pageSizeBytes_eq,
    hsizes.totalByteLen_eq, hsizes.totalByteLen_lt, hsizes.slotCount_eq⟩
  · dsimp only at ht
    obtain rfl | rfl : t = 0 ∨ t = 1 := by omega
    · rfl
    · rfl
  · dsimp only at ht
    obtain rfl | rfl : t = 0 ∨ t = 1 := by omega
    · rfl
    · simp [tensorPageOffset, tensorStart, tensorWidth]
  · dsimp only
    rw [htwo, hsizes.bytesPerLayerPage_eq, ← hsum]
    simp [tensorStart, tensorWidth, Finset.sum_range_succ, Nat.mul_add]

theorem IsBuilt.valid (h : layout.IsBuilt w) : layout.Valid w := by
  cases h with
  | new runtime pageCount h => exact valid_of_new h
  | newWithTensorPair runtime pageCount keyTokenBytes valueTokenBytes h =>
    exact valid_of_newWithTensorPair h

/-! ### Addresses -/

/-- A layer, a tensor and a token in a page. -/
abbrev PageIndex := ℕ × ℕ × ℕ

/-- The layers, tensors and tokens of a page. -/
def pageIndices (layout : PagedKvCacheLayout) : Set PageIndex :=
  Iio layout.runtime.numLayers ×ˢ Iio layout.runtime.kvTensorsPerToken ×ˢ
    Iio layout.runtime.pageSize

/-- Where the bytes of a token lie. -/
def tokenRange (layout : PagedKvCacheLayout) : ℕ × PageIndex → ByteRange
  | (page, layer, tensor, token) =>
      let start := page * layout.runtime.pageSizeBytes + layer * layout.bytesPerLayerPage +
        layout.tensorStart tensor + token * layout.tensorWidth tensor
      ⟨start, start + layout.tensorWidth tensor⟩

/-- The tokens of a page tile the page. -/
theorem Valid.tiling_page (h : layout.Valid w) (page : ℕ) :
    Tiling layout.pageIndices (fun index => (layout.tokenRange (page, index)).bytes)
      (Ico (page * layout.runtime.pageSizeBytes)
        (page * layout.runtime.pageSizeBytes + layout.runtime.pageSizeBytes)) := by
  have hlayers := tiling_equal_blocks (page * layout.runtime.pageSizeBytes)
    layout.bytesPerLayerPage layout.runtime.numLayers
  rw [← h.pageSizeBytes_eq] at hlayers
  refine hlayers.refine
    (fun layer index => (layout.tokenRange (page, layer, index)).bytes) fun layer _ => ?_
  have htensors := tiling_blocks layout.monotone_tensorStart
    (page * layout.runtime.pageSizeBytes + layer * layout.bytesPerLayerPage)
    layout.runtime.kvTensorsPerToken
  rw [← h.bytesPerLayerPage_eq] at htensors
  refine htensors.refine
    (fun tensor token => (layout.tokenRange (page, layer, tensor, token)).bytes) fun tensor _ => ?_
  rw [tensorStart_succ, ← Nat.add_assoc]
  exact tiling_equal_blocks _ _ _

/-- The tokens of all pages tile the buffer. -/
theorem Valid.tiling (h : layout.Valid w) :
    Tiling (Iio layout.pageCount ×ˢ layout.pageIndices)
      (fun index => (layout.tokenRange index).bytes) (Ico 0 layout.totalByteLen) := by
  have hpages := tiling_equal_blocks 0 layout.runtime.pageSizeBytes layout.pageCount
  simp only [Nat.zero_add] at hpages
  rw [h.totalByteLen_eq]
  exact hpages.refine (fun page index => (layout.tokenRange (page, index)).bytes)
    fun page _ => h.tiling_page page

/-- A block ends where the blocks end, at the latest. -/
theorem mul_add_le_mul {i n : ℕ} (hi : i < n) (b : ℕ) : i * b + b ≤ n * b := by
  rw [← Nat.succ_mul]
  exact Nat.mul_le_mul_right b hi

theorem Valid.tokenRange_stop_le (h : layout.Valid w) {page layer tensor token : ℕ}
    (hpage : page < layout.pageCount) (hlayer : layer < layout.runtime.numLayers)
    (htensor : tensor < layout.runtime.kvTensorsPerToken)
    (htoken : token < layout.runtime.pageSize) :
    (layout.tokenRange (page, layer, tensor, token)).stop ≤ layout.totalByteLen := by
  have hpages := mul_add_le_mul hpage layout.runtime.pageSizeBytes
  have hlayers := mul_add_le_mul hlayer layout.bytesPerLayerPage
  have htensors := layout.monotone_tensorStart (Nat.succ_le_of_lt htensor)
  have htokens := mul_add_le_mul htoken (layout.tensorWidth tensor)
  rw [← h.totalByteLen_eq] at hpages
  rw [← h.pageSizeBytes_eq] at hlayers
  rw [Nat.succ_eq_add_one, tensorStart_succ, ← h.bytesPerLayerPage_eq] at htensors
  simp only [tokenRange]
  omega

theorem Valid.pageByteRange_eq (h : layout.Valid w) {page : ℕ} (hpage : page < layout.pageCount) :
    layout.pageByteRange w page = .ok ⟨page * layout.runtime.pageSizeBytes,
      page * layout.runtime.pageSizeBytes + layout.runtime.pageSizeBytes⟩ := by
  have hlt := lt_of_le_of_lt (mul_add_le_mul hpage layout.runtime.pageSizeBytes)
    (h.totalByteLen_eq ▸ h.totalByteLen_lt)
  have hvalid : layout.validatePage page = .ok () := if_neg (Nat.not_le.mpr hpage)
  rw [pageByteRange, hvalid, checkedMul_eq (by omega)]
  simp only [bind, Except.bind, okOrOverflow_some, checkedAdd_eq hlt]
  rfl

/-- **The range of a token.** No check fails. -/
theorem Valid.tensorTokenByteRange_eq (h : layout.Valid w) {page layer tensor token : ℕ}
    (hpage : page < layout.pageCount) (hlayer : layer < layout.runtime.numLayers)
    (htensor : tensor < layout.runtime.kvTensorsPerToken)
    (htoken : token < layout.runtime.pageSize) :
    layout.tensorTokenByteRange w page layer tensor token =
      .ok (layout.tokenRange (page, layer, tensor, token)) := by
  have hstop := lt_of_le_of_lt (h.tokenRange_stop_le hpage hlayer htensor htoken) h.totalByteLen_lt
  have hvalid : layout.validatePage page = .ok () := if_neg (Nat.not_le.mpr hpage)
  simp only [tokenRange] at hstop
  rw [tensorTokenByteRange, hvalid, if_neg (Nat.not_le.mpr hlayer), if_neg (Nat.not_le.mpr htensor),
    if_neg (Nat.not_le.mpr htoken), h.tensorPageOffset_eq tensor htensor,
    h.tensorTokenBytes_eq tensor htensor, checkedMul_eq (by omega), checkedMul_eq (by omega)]
  simp only [bind, Except.bind, okOrOverflow_some]
  rw [checkedMul_eq (by omega)]
  simp only [okOrOverflow_some]
  rw [checkedAdd_eq (by omega)]
  simp only [Option.bind_some]
  rw [checkedAdd_eq (by omega)]
  simp only [Option.bind_some]
  rw [checkedAdd_eq (by omega)]
  simp only [okOrOverflow_some]
  rw [checkedAdd_eq (by omega)]
  rfl

/-- The page and the token of a slot. -/
theorem Valid.slot_lt (h : layout.Valid w) {slot : ℕ} (hslot : slot < layout.slotCount) :
    slot / layout.runtime.pageSize < layout.pageCount ∧
      slot % layout.runtime.pageSize < layout.runtime.pageSize := by
  rw [h.slotCount_eq] at hslot
  exact ⟨Nat.div_lt_of_lt_mul (Nat.mul_comm .. ▸ hslot), Nat.mod_lt _ h.pageSize_pos⟩

/-- What the kernels are told of a layer. -/
theorem Valid.kvPairCopyGeometry_eq_ok (h : layout.Valid w) {layer : ℕ}
    {geometry : KvPairCopyGeometry} (hok : layout.kvPairCopyGeometry w layer = .ok geometry) :
    layer < layout.runtime.numLayers ∧ 1 < layout.runtime.kvTensorsPerToken ∧
      layout.tensorWidth 0 = layout.tensorWidth 1 ∧
      geometry = ⟨layout.runtime.pageSize, layout.runtime.pageSizeBytes,
        layer * layout.bytesPerLayerPage + layout.tensorStart 0,
        layer * layout.bytesPerLayerPage + layout.tensorStart 1, layout.tensorWidth 0⟩ := by
  unfold kvPairCopyGeometry at hok
  split_ifs at hok with hlayer htensors
  have hlt : 1 < layout.runtime.kvTensorsPerToken := by omega
  rw [h.tensorTokenBytes_eq 0 (by omega), h.tensorTokenBytes_eq 1 hlt,
    h.tensorPageOffset_eq 0 (by omega), h.tensorPageOffset_eq 1 hlt] at hok
  obtain ⟨_, hoffset, hok⟩ := Except.bind_eq_ok.mp hok
  obtain ⟨-, rfl⟩ := okOrOverflow_checkedMul_eq_ok.mp hoffset
  obtain ⟨_, ⟨⟩, hok⟩ := Except.bind_eq_ok.mp hok
  obtain ⟨_, ⟨⟩, hok⟩ := Except.bind_eq_ok.mp hok
  split_ifs at hok with hwidth
  obtain ⟨_, ⟨⟩, hok⟩ := Except.bind_eq_ok.mp hok
  obtain ⟨_, hkey, hok⟩ := Except.bind_eq_ok.mp hok
  obtain ⟨-, rfl⟩ := okOrOverflow_checkedAdd_eq_ok.mp hkey
  obtain ⟨_, ⟨⟩, hok⟩ := Except.bind_eq_ok.mp hok
  obtain ⟨_, hvalue, hok⟩ := Except.bind_eq_ok.mp hok
  obtain ⟨-, rfl⟩ := okOrOverflow_checkedAdd_eq_ok.mp hvalue
  exact ⟨Nat.not_le.mp hlayer, hlt, not_not.mp hwidth, (Except.ok.inj hok).symm⟩

/-- **The buffer is tiled.** The range of a token is returned for all indices in range, the ranges
are disjoint and fill the buffer, those of a page fill the page, a slot is a token of a page, and the
kernels compute the same addresses. -/
structure Tiled (w : ℕ) (layout : PagedKvCacheLayout) (range : ℕ × PageIndex → ByteRange) :
    Prop where
  token : ∀ page < layout.pageCount, ∀ layer < layout.runtime.numLayers,
    ∀ tensor < layout.runtime.kvTensorsPerToken, ∀ token < layout.runtime.pageSize,
      layout.tensorTokenByteRange w page layer tensor token =
        .ok (range (page, layer, tensor, token))
  buffer : Tiling (Iio layout.pageCount ×ˢ layout.pageIndices) (fun index => (range index).bytes)
    (Ico 0 layout.totalByteLen)
  page : ∀ page < layout.pageCount, ∃ pageRange, layout.pageByteRange w page = .ok pageRange ∧
    Tiling layout.pageIndices (fun index => (range (page, index)).bytes) pageRange.bytes
  slot : ∀ layer < layout.runtime.numLayers, ∀ tensor < layout.runtime.kvTensorsPerToken,
    ∀ slot < layout.slotCount, slot / layout.runtime.pageSize < layout.pageCount ∧
      layout.tensorSlotByteRange w layer tensor slot =
        .ok (range (slot / layout.runtime.pageSize, layer, tensor, slot % layout.runtime.pageSize))
  kernel : ∀ layer geometry, layout.kvPairCopyGeometry w layer = .ok geometry →
    ∀ slot < layout.slotCount, ∃ key value,
      layout.tensorSlotByteRange w layer 0 slot = .ok key ∧
      layout.tensorSlotByteRange w layer 1 slot = .ok value ∧
      geometry.address geometry.keyOffsetBytes slot = key.start ∧
      geometry.address geometry.valueOffsetBytes slot = value.start

theorem Valid.tensorSlotByteRange_eq (h : layout.Valid w) {layer tensor slot : ℕ}
    (hlayer : layer < layout.runtime.numLayers)
    (htensor : tensor < layout.runtime.kvTensorsPerToken) (hslot : slot < layout.slotCount) :
    layout.tensorSlotByteRange w layer tensor slot = .ok (layout.tokenRange
      (slot / layout.runtime.pageSize, layer, tensor, slot % layout.runtime.pageSize)) := by
  rw [tensorSlotByteRange, if_neg (Nat.not_le.mpr hslot)]
  exact h.tensorTokenByteRange_eq (h.slot_lt hslot).1 hlayer htensor (h.slot_lt hslot).2

theorem Valid.tiled (h : layout.Valid w) : layout.Tiled w layout.tokenRange where
  token _ hpage _ hlayer _ htensor _ htoken :=
    h.tensorTokenByteRange_eq hpage hlayer htensor htoken
  buffer := h.tiling
  page page hpage := ⟨_, h.pageByteRange_eq hpage, h.tiling_page page⟩
  slot _ hlayer _ htensor _ hslot :=
    ⟨(h.slot_lt hslot).1, h.tensorSlotByteRange_eq hlayer htensor hslot⟩
  kernel layer geometry hok slot hslot := by
    obtain ⟨hlayer, htensors, hwidth, rfl⟩ := h.kvPairCopyGeometry_eq_ok hok
    refine ⟨_, _, h.tensorSlotByteRange_eq hlayer (Nat.zero_lt_of_lt htensors) hslot,
      h.tensorSlotByteRange_eq hlayer htensors hslot, ?_, ?_⟩
    · simp only [KvPairCopyGeometry.address, tokenRange, Nat.add_assoc]
    · simp only [KvPairCopyGeometry.address, tokenRange, Nat.add_assoc, hwidth]

end PagedKvCacheLayout

/-- **The layout tiles the buffer.** For every layout that a constructor returns, on machines of any
width, there is a range of bytes for every page, layer, tensor and token in range: it is what
`tensor_token_byte_range` returns, so that no size overflows; the ranges are disjoint and fill the
buffer, and those of a page fill the page; the range of a slot is that of its page and token; and
the kernels compute the same addresses. -/
theorem paged_kv_cache_layout_tiles {w : ℕ} {layout : PagedKvCacheLayout} (h : layout.IsBuilt w) :
    ∃ range, layout.Tiled w range :=
  ⟨layout.tokenRange, h.valid.tiled⟩

/-- Three pages of two tokens, with keys of one byte and values of two. -/
theorem paged_kv_cache_layout_tiles_pair :
    ∃ layout, PagedKvCacheLayout.newWithTensorPair 64 ⟨2, 2, 1, 1, 2, 6, 12⟩ 3 1 2 = .ok layout ∧
      ∃ range, layout.Tiled 64 range := by
  refine ⟨⟨⟨2, 2, 1, 1, 2, 6, 12⟩, 3, 3, 6, .pair 1 2 2, 36, 6⟩, by decide +kernel, ?_⟩
  exact paged_kv_cache_layout_tiles (.newWithTensorPair ⟨2, 2, 1, 1, 2, 6, 12⟩ 3 1 2
    (by decide +kernel))

end SglangRs
