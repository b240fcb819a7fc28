import Mathlib.Tactic.Ring
import SglangRs.Cache.Allocator
import SglangRs.Cache.CpuKvCache

/-!
# The KV cache of a model

A model tells the geometry of its KV cache, and the server how many slots there are and how many of
them make a page. From both follows the layout of the cache that the backend allocates
(`kv_cache.rs`, lines 75–226, and `backend_model.rs`, lines 246–263, 327–393 and 460–478). The
scheduler allocates its slots with the same numbers (`server.rs`, lines 1199–1203), so the cache has
a place for every slot that the scheduler may hand out.

## Main definitions

* `KvCacheModelLayout`: the geometry of the KV cache of a model.
* `KvCacheAllocationConfig`, `pagedKvCacheLayoutForModel`: the layout for some slots.
* `allocateCpuActiveKvCache`: the cache of the CPU reference.

## Main results

* `KvCacheModelLayout.IsBuilt.allocateCpuActiveKvCache_eq_ok`: when a cache is allocated.
* `KvCacheModelLayout.exists_allocator`: there is an allocator for the slots of the cache.
-/

namespace SglangRs

namespace KvCacheDtype

def asStr : KvCacheDtype → String
  | .auto => "auto"
  | .float32 => "float32"
  | .bfloat16 => "bfloat16"
  | .fp8E4M3 => "fp8_e4m3"
  | .fp8E5M2 => "fp8_e5m2"
  | .fp4E2M1 => "fp4_e2m1"

def bytesPerElement : KvCacheDtype → Option ℕ
  | .auto | .bfloat16 => some 2
  | .float32 => some 4
  | .fp8E4M3 | .fp8E5M2 => some 1
  | .fp4E2M1 => none

end KvCacheDtype

inductive KvCacheLayoutError where
  | dtypeRequiresModelMetadata (dtype : KvCacheDtype)
  | invalidPackedMlaNopeHeadDim (headDim : ℕ)
  | zeroTensorWidth
  | sizeOverflow
deriving DecidableEq, Repr

/-- Source: `kv_cache.rs`, lines 235–251. -/
def KvCacheLayoutError.display : KvCacheLayoutError → String
  | .dtypeRequiresModelMetadata dtype =>
      s!"KV cache dtype {dtype.asStr} requires model metadata for byte width"
  | .invalidPackedMlaNopeHeadDim headDim =>
      s!"qk_nope_head_dim must be divisible by 64 for packed MLA KV layout: {headDim}"
  | .zeroTensorWidth => "KV cache tensor width must be non-zero"
  | .sizeOverflow => "KV cache layout byte size overflowed"

inductive KvCacheTensorGeometry where
  | uniform
  | pair (keyElements valueElements : ℕ)
  | packedBytes
deriving DecidableEq, Repr

structure KvCacheModelLayout where
  numLayers : ℕ
  kvHeads : ℕ
  headDim : ℕ
  kvTensorsPerToken : ℕ
  bytesPerTokenPerLayer : Option ℕ
  tensorGeometry : KvCacheTensorGeometry
deriving DecidableEq, Repr

namespace KvCacheModelLayout

def multiTensor (numLayers kvHeads headDim kvTensorsPerToken : ℕ) : KvCacheModelLayout where
  numLayers := numLayers
  kvHeads := kvHeads
  headDim := headDim
  kvTensorsPerToken := kvTensorsPerToken
  bytesPerTokenPerLayer := none
  tensorGeometry := .uniform

/-- Source: `kv_cache.rs`, lines 105–132. -/
def tensorPair (numLayers keyHeads keyHeadDim valueHeads valueHeadDim : ℕ) :
    Except KvCacheLayoutError KvCacheModelLayout := do
  let keyElements ← okOr .sizeOverflow (checkedMul 64 keyHeads keyHeadDim)
  let valueElements ← okOr .sizeOverflow (checkedMul 64 valueHeads valueHeadDim)
  if keyElements = 0 ∨ valueElements = 0 then .error .zeroTensorWidth
  else
    return {
      numLayers
      kvHeads := keyHeads
      headDim := keyHeadDim
      kvTensorsPerToken := 2
      bytesPerTokenPerLayer := none
      tensorGeometry := .pair keyElements valueElements }

def packedBytesPerLayer (numLayers bytesPerTokenPerLayer : ℕ) : KvCacheModelLayout where
  numLayers := numLayers
  kvHeads := 1
  headDim := bytesPerTokenPerLayer
  kvTensorsPerToken := 1
  bytesPerTokenPerLayer := some bytesPerTokenPerLayer
  tensorGeometry := .packedBytes

/-- Source: `kv_cache.rs`, lines 201–224. -/
def packedMla (numLayers qkNopeHeadDim qkRopeHeadDim : ℕ) :
    Except KvCacheLayoutError KvCacheModelLayout :=
  if ¬ 64 ∣ qkNopeHeadDim then .error (.invalidPackedMlaNopeHeadDim qkNopeHeadDim)
  else do
    let rope ← okOr .sizeOverflow (checkedMul 64 qkRopeHeadDim 2)
    let bytesPerTokenPerLayer ← okOr .sizeOverflow <|
      ((checkedAdd 64 qkNopeHeadDim rope).bind fun value =>
        checkedAdd 64 value (qkNopeHeadDim / 64)).bind fun value => checkedAdd 64 value 1
    return packedBytesPerLayer numLayers bytesPerTokenPerLayer

variable (model : KvCacheModelLayout)

/-- Source: `kv_cache.rs`, lines 145–160. -/
def elementsPerToken : Option ℕ :=
  match model.tensorGeometry with
  | .uniform =>
      ((checkedMul 64 model.kvTensorsPerToken model.kvHeads).bind fun elements =>
        checkedMul 64 elements model.headDim).bind (checkedMul 64 model.numLayers)
  | .pair keyElements valueElements =>
      (checkedAdd 64 keyElements valueElements).bind (checkedMul 64 model.numLayers)
  | .packedBytes => none

/-- Source: `kv_cache.rs`, lines 162–176. -/
def tokenSizeBytes (dtype : KvCacheDtype) : Except KvCacheLayoutError ℕ :=
  match model.bytesPerTokenPerLayer with
  | some bytesPerTokenPerLayer =>
      okOr .sizeOverflow (checkedMul 64 model.numLayers bytesPerTokenPerLayer)
  | none => do
      let elements ← okOr .sizeOverflow model.elementsPerToken
      let elementBytes ← okOr (.dtypeRequiresModelMetadata dtype) dtype.bytesPerElement
      okOr .sizeOverflow (checkedMul 64 elements elementBytes)

/-- Source: `kv_cache.rs`, lines 178–199. -/
def tensorPairSizeBytes (dtype : KvCacheDtype) : Except KvCacheLayoutError (Option (ℕ × ℕ)) :=
  match model.tensorGeometry with
  | .pair keyElements valueElements => do
      let elementBytes ← okOr (.dtypeRequiresModelMetadata dtype) dtype.bytesPerElement
      let keyBytes ← okOr .sizeOverflow (checkedMul 64 keyElements elementBytes)
      let valueBytes ← okOr .sizeOverflow (checkedMul 64 valueElements elementBytes)
      return some (keyBytes, valueBytes)
  | _ => return none

/-- The numbers of floats of a key and of a value. -/
def widths : ℕ × ℕ :=
  match model.tensorGeometry with
  | .pair keyElements valueElements => (keyElements, valueElements)
  | _ => (model.kvHeads * model.headDim, model.kvHeads * model.headDim)

end KvCacheModelLayout

inductive ModelRuntimeLoadError where
  | missingCapabilities (missing : List String)
  | load (message : String)
deriving DecidableEq, Repr

/-- The slots that the server asks for. -/
structure KvCacheAllocationConfig where
  slotCapacity : ℕ
  pageSize : ℕ
deriving DecidableEq, Repr

/-- Source: `backend_model.rs`, lines 460–478. -/
def validateCacheConfig (config : KvCacheAllocationConfig) : Except ModelRuntimeLoadError Unit :=
  if config.slotCapacity = 0 then
    .error (.missingCapabilities ["non-zero KV cache slot capacity"])
  else if config.pageSize = 0 then
    .error (.missingCapabilities ["non-zero KV cache page size"])
  else if ¬ config.pageSize ∣ config.slotCapacity then
    .error (.missingCapabilities [s!"KV cache slot capacity {config.slotCapacity} divisible by "
      ++ s!"page size {config.pageSize}"])
  else .ok ()

/-- The layout with the widths of a pair of tensors, or with tensors of one width. -/
def PagedKvCacheLayout.withWidths (runtime : KvCacheRuntimeLayout) (pageCount : ℕ) :
    Option (ℕ × ℕ) → Except PagedKvCacheLayoutError PagedKvCacheLayout
  | some (keyTokenBytes, valueTokenBytes) =>
      newWithTensorPair 64 runtime pageCount keyTokenBytes valueTokenBytes
  | none => new 64 runtime pageCount

/-- Source: `backend_model.rs`, lines 350–387. -/
def pagedKvCacheLayoutForModel (model : KvCacheModelLayout) (dtype : KvCacheDtype)
    (config : KvCacheAllocationConfig) : Except ModelRuntimeLoadError PagedKvCacheLayout := do
  validateCacheConfig config
  let bytesPerToken ← (model.tokenSizeBytes dtype).mapError fun error => .load error.display
  let tensorPairSizeBytes ←
    (model.tensorPairSizeBytes dtype).mapError fun error => .load error.display
  let pageSizeBytes ←
    okOr (.load "KV page size overflowed") (checkedMul 64 config.pageSize bytesPerToken)
  let runtime : KvCacheRuntimeLayout := {
    pageSize := config.pageSize
    numLayers := model.numLayers
    kvHeads := model.kvHeads
    headDim := model.headDim
    kvTensorsPerToken := model.kvTensorsPerToken
    bytesPerToken
    pageSizeBytes }
  let pageCount := config.slotCapacity / config.pageSize
  (PagedKvCacheLayout.withWidths runtime pageCount tensorPairSizeBytes).mapError fun error =>
    .load error.display

/-- Source: `backend_model.rs`, lines 256–262. -/
def allocateCpuActiveKvCache (model : KvCacheModelLayout) (config : KvCacheAllocationConfig) :
    Except ModelRuntimeLoadError CpuReferenceKvCache := do
  let layout ← pagedKvCacheLayoutForModel model .float32 config
  (CpuReferenceKvCache.new .float32 layout).mapError fun error => .load error.display

/-! ### Sizes -/

theorem Except.mapError_eq_ok {ε ε' α : Type} {f : ε → ε'} {x : Except ε α} {a : α} :
    x.mapError f = .ok a ↔ x = .ok a := by
  cases x <;> simp [Except.mapError]

theorem validateCacheConfig_eq_ok {config : KvCacheAllocationConfig} :
    validateCacheConfig config = .ok () ↔
      config.slotCapacity ≠ 0 ∧ config.pageSize ≠ 0 ∧ config.pageSize ∣ config.slotCapacity := by
  rw [validateCacheConfig, ite_error_eq_ok, ite_error_eq_ok, ite_error_eq_ok, not_not]
  simp

/-- The allocator of the scheduler is built from the same numbers. -/
theorem withPageSize_of_validateCacheConfig {config : KvCacheAllocationConfig}
    (h : validateCacheConfig config = .ok ()) :
    ∃ a, CachePageAllocator.withPageSize config.slotCapacity config.pageSize = .ok a ∧
      a.slotCapacity = config.slotCapacity ∧ a.pageSize = config.pageSize := by
  obtain ⟨hcapacity, hpage, hdvd⟩ := validateCacheConfig_eq_ok.mp h
  unfold CachePageAllocator.withPageSize
  rw [if_neg hpage, if_neg hcapacity, if_neg (not_not.mpr (Nat.mod_eq_zero_of_dvd hdvd))]
  exact ⟨_, rfl, rfl, rfl⟩

/-- The fields of the layout of a runtime are not zero. -/
structure KvCacheRuntimeLayout.NonZero (runtime : KvCacheRuntimeLayout) : Prop where
  pageSize : runtime.pageSize ≠ 0
  numLayers : runtime.numLayers ≠ 0
  kvHeads : runtime.kvHeads ≠ 0
  headDim : runtime.headDim ≠ 0
  kvTensorsPerToken : runtime.kvTensorsPerToken ≠ 0
  bytesPerToken : runtime.bytesPerToken ≠ 0
  pageSizeBytes : runtime.pageSizeBytes ≠ 0

namespace PagedKvCacheLayout

variable {runtime : KvCacheRuntimeLayout} {pageCount : ℕ} {layout : PagedKvCacheLayout}

/-- **The check of a runtime layout** whose page size is right and that divides into layers. -/
theorem validateRuntime_eq_ok {sizes : ℕ × ℕ × ℕ × ℕ}
    (hpage : runtime.pageSizeBytes = runtime.pageSize * runtime.bytesPerToken)
    (hdvd : runtime.numLayers ∣ runtime.bytesPerToken) :
    validateRuntime 64 runtime pageCount = .ok sizes ↔
      (pageCount ≠ 0 ∧ runtime.NonZero ∧ pageCount * runtime.pageSizeBytes < 2 ^ 64) ∧
        sizes = (runtime.bytesPerToken / runtime.numLayers,
          runtime.pageSize * (runtime.bytesPerToken / runtime.numLayers),
          pageCount * runtime.pageSizeBytes, pageCount * runtime.pageSize) := by
  have hreject (u : Unit) : rejectZeroFields [("page_size", runtime.pageSize),
      ("num_layers", runtime.numLayers), ("kv_heads", runtime.kvHeads),
      ("head_dim", runtime.headDim), ("kv_tensors_per_token", runtime.kvTensorsPerToken),
      ("bytes_per_token", runtime.bytesPerToken), ("page_size_bytes", runtime.pageSizeBytes)] =
        .ok u ↔ runtime.NonZero := by
    rw [rejectZeroFields_eq_ok]
    simp only [List.forall_mem_cons, List.not_mem_nil, false_implies, implies_true, and_true]
    constructor
    · rintro ⟨h₁, h₂, h₃, h₄, h₅, h₆, h₇⟩
      exact ⟨h₁, h₂, h₃, h₄, h₅, h₆, h₇⟩
    · rintro ⟨h₁, h₂, h₃, h₄, h₅, h₆, h₇⟩
      exact ⟨h₁, h₂, h₃, h₄, h₅, h₆, h₇⟩
  unfold validateRuntime
  simp only [ite_error_eq_ok, Except.bind_eq_ok, okOrOverflow_checkedMul_eq_ok, hreject, not_not]
  constructor
  · rintro ⟨hcount, _, hnonzero, _, ⟨-, rfl⟩, -, -, _, ⟨-, rfl⟩, _, ⟨htotal, rfl⟩, _, ⟨-, rfl⟩, h⟩
    exact ⟨⟨hcount, hnonzero, htotal⟩, (Except.ok.inj h).symm⟩
  · rintro ⟨⟨hcount, hnonzero, htotal⟩, rfl⟩
    have hbytes := Nat.pos_of_ne_zero hnonzero.bytesPerToken
    have hpageBytes : runtime.pageSize * runtime.bytesPerToken < 2 ^ 64 :=
      hpage ▸ (Nat.le_mul_of_pos_left _ (Nat.pos_of_ne_zero hcount)).trans_lt htotal
    have hlayer : runtime.pageSize * (runtime.bytesPerToken / runtime.numLayers) < 2 ^ 64 :=
      (Nat.mul_le_mul_left _ (Nat.div_le_self _ _)).trans_lt hpageBytes
    have hslots : pageCount * runtime.pageSize < 2 ^ 64 := by
      rw [hpage] at htotal
      exact (Nat.mul_le_mul_left _ (Nat.le_mul_of_pos_right _ hbytes)).trans_lt htotal
    exact ⟨hcount, (), hnonzero, _, ⟨hpageBytes, rfl⟩, hpage, hdvd, _, ⟨hlayer, rfl⟩, _,
      ⟨htotal, rfl⟩, _, ⟨hslots, rfl⟩, rfl⟩

/-- **A layout with tensors of one width.** -/
theorem new_eq_ok {width : ℕ}
    (hpage : runtime.pageSizeBytes = runtime.pageSize * runtime.bytesPerToken)
    (hbytes : runtime.bytesPerToken =
      runtime.numLayers * (runtime.kvTensorsPerToken * width)) :
    PagedKvCacheLayout.new 64 runtime pageCount = .ok layout ↔
      (pageCount ≠ 0 ∧ runtime.NonZero ∧ pageCount * runtime.pageSizeBytes < 2 ^ 64) ∧
        layout = ⟨runtime, pageCount, runtime.kvTensorsPerToken * width,
          runtime.pageSize * (runtime.kvTensorsPerToken * width),
          .uniform width (runtime.pageSize * width), pageCount * runtime.pageSizeBytes,
          pageCount * runtime.pageSize⟩ := by
  unfold PagedKvCacheLayout.new
  simp only [Except.bind_eq_ok, validateRuntime_eq_ok hpage (Dvd.intro _ hbytes.symm)]
  constructor
  · rintro ⟨_, ⟨hsizes, rfl⟩, h⟩
    have hlayers := Nat.pos_of_ne_zero hsizes.2.1.numLayers
    have htensors := Nat.pos_of_ne_zero hsizes.2.1.kvTensorsPerToken
    obtain ⟨-, h⟩ := ite_error_eq_ok.mp h
    obtain ⟨_, hpageBytes, h⟩ := Except.bind_eq_ok.mp h
    obtain ⟨-, rfl⟩ := okOrOverflow_checkedMul_eq_ok.mp hpageBytes
    refine ⟨hsizes, (Except.ok.inj h).symm.trans ?_⟩
    simp only [hbytes, Nat.mul_div_cancel_left _ hlayers, Nat.mul_div_cancel_left _ htensors]
  · rintro ⟨hsizes, rfl⟩
    have hlayers := Nat.pos_of_ne_zero hsizes.2.1.numLayers
    have htensors := Nat.pos_of_ne_zero hsizes.2.1.kvTensorsPerToken
    refine ⟨_, ⟨hsizes, rfl⟩, ?_⟩
    have hlayer : runtime.bytesPerToken / runtime.numLayers = runtime.kvTensorsPerToken * width := by
      rw [hbytes, Nat.mul_div_cancel_left _ hlayers]
    have hwidth : runtime.pageSize * width < 2 ^ 64 := by
      have hle : width ≤ runtime.bytesPerToken := hbytes ▸
        (Nat.le_mul_of_pos_left _ htensors).trans (Nat.le_mul_of_pos_left _ hlayers)
      refine lt_of_le_of_lt ?_ hsizes.2.2
      rw [hpage]
      exact (Nat.mul_le_mul_left _ hle).trans
        (Nat.le_mul_of_pos_left _ (Nat.pos_of_ne_zero hsizes.1))
    refine ite_error_eq_ok.mpr ⟨not_not.mpr (hlayer ▸ Nat.dvd_mul_right _ _), ?_⟩
    refine Except.bind_eq_ok.mpr ⟨runtime.pageSize * width,
      okOrOverflow_checkedMul_eq_ok.mpr ?_, ?_⟩
    · rw [hlayer, Nat.mul_div_cancel_left _ htensors]
      exact ⟨hwidth, rfl⟩
    · rw [hlayer, Nat.mul_div_cancel_left _ htensors]
      rfl

/-- **A layout with a pair of tensors.** -/
theorem newWithTensorPair_eq_ok {keyTokenBytes valueTokenBytes : ℕ}
    (hpage : runtime.pageSizeBytes = runtime.pageSize * runtime.bytesPerToken)
    (hbytes : runtime.bytesPerToken = runtime.numLayers * (keyTokenBytes + valueTokenBytes))
    (htensors : runtime.kvTensorsPerToken = 2) (hkey : keyTokenBytes ≠ 0)
    (hvalue : valueTokenBytes ≠ 0) :
    PagedKvCacheLayout.newWithTensorPair 64 runtime pageCount keyTokenBytes valueTokenBytes =
        .ok layout ↔
      (pageCount ≠ 0 ∧ runtime.NonZero ∧ pageCount * runtime.pageSizeBytes < 2 ^ 64) ∧
        layout = ⟨runtime, pageCount, keyTokenBytes + valueTokenBytes,
          runtime.pageSize * (keyTokenBytes + valueTokenBytes),
          .pair keyTokenBytes valueTokenBytes (runtime.pageSize * keyTokenBytes),
          pageCount * runtime.pageSizeBytes, pageCount * runtime.pageSize⟩ := by
  unfold PagedKvCacheLayout.newWithTensorPair
  simp only [Except.bind_eq_ok, validateRuntime_eq_ok hpage (Dvd.intro _ hbytes.symm)]
  constructor
  · rintro ⟨_, ⟨hsizes, rfl⟩, h⟩
    have hlayers := Nat.pos_of_ne_zero hsizes.2.1.numLayers
    obtain ⟨-, h⟩ := ite_error_eq_ok.mp h
    obtain ⟨_, -, h⟩ := Except.bind_eq_ok.mp h
    obtain ⟨_, -, h⟩ := Except.bind_eq_ok.mp h
    obtain ⟨-, h⟩ := ite_error_eq_ok.mp h
    obtain ⟨_, hpageBytes, h⟩ := Except.bind_eq_ok.mp h
    obtain ⟨-, rfl⟩ := okOrOverflow_checkedMul_eq_ok.mp hpageBytes
    refine ⟨hsizes, (Except.ok.inj h).symm.trans ?_⟩
    simp only [hbytes, Nat.mul_div_cancel_left _ hlayers]
  · rintro ⟨hsizes, rfl⟩
    have hlayers := Nat.pos_of_ne_zero hsizes.2.1.numLayers
    have hlayer : runtime.bytesPerToken / runtime.numLayers = keyTokenBytes + valueTokenBytes := by
      rw [hbytes, Nat.mul_div_cancel_left _ hlayers]
    have hle : keyTokenBytes + valueTokenBytes ≤ runtime.bytesPerToken :=
      hbytes ▸ Nat.le_mul_of_pos_left _ hlayers
    have hpageBytes : runtime.pageSize * runtime.bytesPerToken < 2 ^ 64 :=
      hpage ▸ (Nat.le_mul_of_pos_left _ (Nat.pos_of_ne_zero hsizes.1)).trans_lt hsizes.2.2
    refine ⟨_, ⟨hsizes, rfl⟩, ite_error_eq_ok.mpr ⟨not_not.mpr htensors, ?_⟩⟩
    refine Except.bind_eq_ok.mpr ⟨(), rejectZeroFields_eq_ok.mpr (by simp [hkey, hvalue]), ?_⟩
    refine Except.bind_eq_ok.mpr ⟨keyTokenBytes + valueTokenBytes,
      okOrOverflow_checkedAdd_eq_ok.mpr ⟨?_, rfl⟩, ?_⟩
    · have hpos := Nat.pos_of_ne_zero hsizes.2.1.pageSize
      exact (hle.trans (Nat.le_mul_of_pos_left _ hpos)).trans_lt hpageBytes
    · refine ite_error_eq_ok.mpr ⟨not_not.mpr hlayer.symm, ?_⟩
      refine Except.bind_eq_ok.mpr ⟨_, okOrOverflow_checkedMul_eq_ok.mpr ⟨?_, rfl⟩, ?_⟩
      · exact (Nat.mul_le_mul_left _ ((Nat.le_add_right _ _).trans hle)).trans_lt hpageBytes
      · rw [hlayer]
        rfl

end PagedKvCacheLayout

/-! ### The cache of a model -/

namespace KvCacheModelLayout

/-- The number of floats that a token has in a layer. -/
def elementsPerLayer (model : KvCacheModelLayout) : ℕ :=
  match model.tensorGeometry with
  | .uniform => model.kvTensorsPerToken * (model.kvHeads * model.headDim)
  | .pair keyElements valueElements => keyElements + valueElements
  | .packedBytes => 0

/-- The geometry is returned by one of the constructors. -/
inductive IsBuilt : KvCacheModelLayout → Prop where
  | multiTensor (numLayers kvHeads headDim kvTensorsPerToken : ℕ) :
      IsBuilt (multiTensor numLayers kvHeads headDim kvTensorsPerToken)
  | tensorPair (numLayers keyHeads keyHeadDim valueHeads valueHeadDim : ℕ)
      {model : KvCacheModelLayout}
      (h : tensorPair numLayers keyHeads keyHeadDim valueHeads valueHeadDim = .ok model) :
      IsBuilt model
  | packedBytesPerLayer (numLayers bytesPerTokenPerLayer : ℕ) :
      IsBuilt (packedBytesPerLayer numLayers bytesPerTokenPerLayer)
  | packedMla (numLayers qkNopeHeadDim qkRopeHeadDim : ℕ) {model : KvCacheModelLayout}
      (h : packedMla numLayers qkNopeHeadDim qkRopeHeadDim = .ok model) : IsBuilt model

/-- What the constructors establish. -/
structure Floats (model : KvCacheModelLayout) : Prop where
  bytes_eq : model.bytesPerTokenPerLayer = none
  packed : model.tensorGeometry ≠ .packedBytes
  pair : ∀ keyElements valueElements, model.tensorGeometry = .pair keyElements valueElements →
    model.kvTensorsPerToken = 2 ∧ model.kvHeads * model.headDim = keyElements ∧
      keyElements ≠ 0 ∧ valueElements ≠ 0

/-- A geometry has tensors of floats, or its tokens are packed into one tensor of bytes. -/
theorem IsBuilt.floats_or_packed {model : KvCacheModelLayout} (h : model.IsBuilt) :
    model.Floats ∨ (model.kvTensorsPerToken = 1 ∧ model.tensorGeometry = .packedBytes) := by
  cases h with
  | multiTensor => exact .inl ⟨rfl, nofun, nofun⟩
  | tensorPair _ _ _ _ _ h =>
      obtain ⟨keyElements, hkey, h⟩ := Except.bind_eq_ok.mp h
      obtain ⟨valueElements, -, h⟩ := Except.bind_eq_ok.mp h
      obtain ⟨hzero, h⟩ := ite_error_eq_ok.mp h
      obtain rfl := Except.ok.inj h
      rw [not_or] at hzero
      refine .inl ⟨rfl, nofun, fun _ _ heq => ?_⟩
      obtain ⟨rfl, rfl⟩ := KvCacheTensorGeometry.pair.inj heq
      exact ⟨rfl, (okOr_checkedMul_eq_ok.mp hkey).2, hzero⟩
  | packedBytesPerLayer => exact .inr ⟨rfl, rfl⟩
  | packedMla _ _ _ h =>
      obtain ⟨-, h⟩ := ite_error_eq_ok.mp h
      obtain ⟨_, -, h⟩ := Except.bind_eq_ok.mp h
      obtain ⟨_, -, h⟩ := Except.bind_eq_ok.mp h
      obtain rfl := Except.ok.inj h
      exact .inr ⟨rfl, rfl⟩

variable {model : KvCacheModelLayout} {config : KvCacheAllocationConfig} {n : ℕ}

/-- The size of a token of floats. -/
theorem Floats.tokenSizeBytes_eq_ok (h : model.Floats)
    (hn : model.tokenSizeBytes .float32 = .ok n) :
    n = model.numLayers * (model.elementsPerLayer * 4) := by
  obtain ⟨hbytes, hpacked, -⟩ := h
  unfold tokenSizeBytes at hn
  rw [hbytes] at hn
  obtain ⟨elements, helements, hn⟩ := Except.bind_eq_ok.mp hn
  obtain ⟨elementBytes, hdtype, hn⟩ := Except.bind_eq_ok.mp hn
  obtain rfl : 4 = elementBytes := Except.ok.inj hdtype
  obtain ⟨-, rfl⟩ := okOr_checkedMul_eq_ok.mp hn
  have helements := okOr_eq_ok.mp helements
  unfold elementsPerToken at helements
  unfold elementsPerLayer
  cases hgeometry : model.tensorGeometry with
  | uniform =>
      rw [hgeometry] at helements
      simp only [Option.bind_eq_some_iff, checkedMul_eq_some] at helements
      obtain ⟨_, ⟨_, ⟨-, rfl⟩, -, rfl⟩, -, rfl⟩ := helements
      ring
  | pair keyElements valueElements =>
      rw [hgeometry] at helements
      simp only [Option.bind_eq_some_iff, checkedMul_eq_some, checkedAdd_eq_some] at helements
      obtain ⟨_, ⟨-, rfl⟩, -, rfl⟩ := helements
      ring
  | packedBytes => exact absurd hgeometry hpacked

/-- A token of floats has a size, if its fields are not zero and the size is a `usize`. -/
theorem Floats.exists_tokenSizeBytes (h : model.Floats) (hlayers : model.numLayers ≠ 0)
    (hdim : model.headDim ≠ 0)
    (hlt : model.numLayers * (model.elementsPerLayer * 4) < 2 ^ 64) :
    model.tokenSizeBytes .float32 = .ok (model.numLayers * (model.elementsPerLayer * 4)) := by
  obtain ⟨hbytes, hpacked, -⟩ := h
  unfold tokenSizeBytes
  rw [hbytes]
  have helements : model.numLayers * model.elementsPerLayer < 2 ^ 64 :=
    (Nat.mul_le_mul_left _ (Nat.le_mul_of_pos_right _ (by decide))).trans_lt hlt
  have hlayer : model.elementsPerLayer < 2 ^ 64 :=
    (Nat.le_mul_of_pos_left _ (Nat.pos_of_ne_zero hlayers)).trans_lt helements
  refine Except.bind_eq_ok.mpr ⟨model.numLayers * model.elementsPerLayer, okOr_eq_ok.mpr ?_, ?_⟩
  · unfold elementsPerToken
    unfold elementsPerLayer at hlayer helements ⊢
    cases hgeometry : model.tensorGeometry with
    | uniform =>
        rw [hgeometry] at hlayer helements
        dsimp only at hlayer helements ⊢
        rw [← mul_assoc model.kvTensorsPerToken] at hlayer helements ⊢
        have hheads : model.kvTensorsPerToken * model.kvHeads < 2 ^ 64 :=
          (Nat.le_mul_of_pos_right _ (Nat.pos_of_ne_zero hdim)).trans_lt hlayer
        rw [checkedMul_eq_some.mpr ⟨hheads, rfl⟩, Option.bind_some,
          checkedMul_eq_some.mpr ⟨hlayer, rfl⟩, Option.bind_some,
          checkedMul_eq_some.mpr ⟨helements, rfl⟩]
    | pair keyElements valueElements =>
        rw [hgeometry] at hlayer helements
        dsimp only at hlayer helements ⊢
        rw [checkedAdd_eq_some.mpr ⟨hlayer, rfl⟩, Option.bind_some,
          checkedMul_eq_some.mpr ⟨helements, rfl⟩]
    | packedBytes => exact absurd hgeometry hpacked
  · refine Except.bind_eq_ok.mpr ⟨4, rfl, okOr_checkedMul_eq_ok.mpr ?_⟩
    rw [mul_assoc]
    exact ⟨hlt, rfl⟩

theorem Floats.exists_tensorPairSizeBytes (h : model.Floats)
    (hlt : model.elementsPerLayer * 4 < 2 ^ 64) :
    ∃ pair, model.tensorPairSizeBytes .float32 = .ok pair := by
  unfold tensorPairSizeBytes
  cases hgeometry : model.tensorGeometry with
  | uniform => exact ⟨none, rfl⟩
  | pair keyElements valueElements =>
      simp only [elementsPerLayer, hgeometry] at hlt
      exact ⟨some (keyElements * 4, valueElements * 4), Except.bind_eq_ok.mpr ⟨4, rfl,
        Except.bind_eq_ok.mpr ⟨_, okOr_checkedMul_eq_ok.mpr ⟨by omega, rfl⟩,
          Except.bind_eq_ok.mpr ⟨_, okOr_checkedMul_eq_ok.mpr ⟨by omega, rfl⟩, rfl⟩⟩⟩⟩
  | packedBytes => exact absurd hgeometry h.packed

/-! ### The layout -/

/-- The layout of a runtime for floats. -/
def runtime (model : KvCacheModelLayout) (config : KvCacheAllocationConfig) :
    KvCacheRuntimeLayout where
  pageSize := config.pageSize
  numLayers := model.numLayers
  kvHeads := model.kvHeads
  headDim := model.headDim
  kvTensorsPerToken := model.kvTensorsPerToken
  bytesPerToken := model.numLayers * (model.elementsPerLayer * 4)
  pageSizeBytes := config.pageSize * (model.numLayers * (model.elementsPerLayer * 4))

/-- The layout for floats. -/
def floatLayout (model : KvCacheModelLayout) (config : KvCacheAllocationConfig) :
    PagedKvCacheLayout where
  runtime := model.runtime config
  pageCount := config.slotCapacity / config.pageSize
  bytesPerTokenPerLayer := model.elementsPerLayer * 4
  bytesPerLayerPage := config.pageSize * (model.elementsPerLayer * 4)
  tensorGeometry :=
    match model.tensorGeometry with
    | .pair keyElements valueElements =>
        .pair (keyElements * 4) (valueElements * 4) (config.pageSize * (keyElements * 4))
    | _ => .uniform (model.kvHeads * model.headDim * 4)
        (config.pageSize * (model.kvHeads * model.headDim * 4))
  totalByteLen := config.slotCapacity * (model.numLayers * (model.elementsPerLayer * 4))
  slotCount := config.slotCapacity

/-- There is room for the cache: the counts are not zero, the slots make whole pages, and the number
of bytes is a `usize`. -/
structure Allocates (model : KvCacheModelLayout) (config : KvCacheAllocationConfig) : Prop where
  slotCapacity : config.slotCapacity ≠ 0
  pageSize : config.pageSize ≠ 0
  aligned : config.pageSize ∣ config.slotCapacity
  numLayers : model.numLayers ≠ 0
  kvHeads : model.kvHeads ≠ 0
  headDim : model.headDim ≠ 0
  kvTensorsPerToken : model.kvTensorsPerToken ≠ 0
  bytes_lt : config.slotCapacity * (model.numLayers * (model.elementsPerLayer * 4)) < 2 ^ 64

theorem Floats.elementsPerLayer_ne_zero (h : model.Floats) (hheads : model.kvHeads ≠ 0)
    (hdim : model.headDim ≠ 0) (htensors : model.kvTensorsPerToken ≠ 0) :
    model.elementsPerLayer ≠ 0 := by
  unfold elementsPerLayer
  cases hgeometry : model.tensorGeometry with
  | uniform => exact mul_ne_zero htensors (mul_ne_zero hheads hdim)
  | pair keyElements valueElements =>
      have hkey := (h.pair _ _ hgeometry).2.2.1
      dsimp only
      omega
  | packedBytes => exact absurd hgeometry h.packed

theorem Allocates.nonZero (h : model.Floats) (hallocates : model.Allocates config) :
    (model.runtime config).NonZero := by
  have helements := h.elementsPerLayer_ne_zero hallocates.kvHeads hallocates.headDim
    hallocates.kvTensorsPerToken
  have hbytes := mul_ne_zero hallocates.numLayers (mul_ne_zero helements four_ne_zero)
  exact ⟨hallocates.pageSize, hallocates.numLayers, hallocates.kvHeads, hallocates.headDim,
    hallocates.kvTensorsPerToken, hbytes, mul_ne_zero hallocates.pageSize hbytes⟩

/-- **The constructors of a layout** for a model of floats. -/
theorem Floats.withWidths_eq_ok (h : model.Floats) {layout : PagedKvCacheLayout}
    {pair : Option (ℕ × ℕ)} (hpair : model.tensorPairSizeBytes .float32 = .ok pair)
    (hvalidate : validateCacheConfig config = .ok ()) :
    PagedKvCacheLayout.withWidths (model.runtime config) (config.slotCapacity / config.pageSize)
        pair = .ok layout ↔
      model.Allocates config ∧ layout = model.floatLayout config := by
  obtain ⟨hcapacity, hpage, hdvd⟩ := validateCacheConfig_eq_ok.mp hvalidate
  have hcount : config.slotCapacity / config.pageSize ≠ 0 :=
    (Nat.div_pos (Nat.le_of_dvd (Nat.pos_of_ne_zero hcapacity) hdvd)
      (Nat.pos_of_ne_zero hpage)).ne'
  have htotal (n : ℕ) :
      config.slotCapacity / config.pageSize * (config.pageSize * n) = config.slotCapacity * n := by
    rw [← mul_assoc, Nat.div_mul_cancel hdvd]
  have hallocates : (config.slotCapacity / config.pageSize ≠ 0 ∧ (model.runtime config).NonZero ∧
      config.slotCapacity / config.pageSize * (model.runtime config).pageSizeBytes < 2 ^ 64) ↔
        model.Allocates config := by
    constructor
    · rintro ⟨-, hnonzero, hlt⟩
      rw [runtime, htotal] at hlt
      exact ⟨hcapacity, hpage, hdvd, hnonzero.numLayers, hnonzero.kvHeads, hnonzero.headDim,
        hnonzero.kvTensorsPerToken, hlt⟩
    · intro hallocates
      refine ⟨hcount, hallocates.nonZero h, ?_⟩
      rw [runtime, htotal]
      exact hallocates.bytes_lt
  cases hgeometry : model.tensorGeometry with
  | uniform =>
      unfold tensorPairSizeBytes at hpair
      rw [hgeometry] at hpair
      obtain rfl := Except.ok.inj hpair
      have helements : model.elementsPerLayer * 4 =
          model.kvTensorsPerToken * (model.kvHeads * model.headDim * 4) := by
        simp only [elementsPerLayer, hgeometry, mul_assoc]
      have hbytes : (model.runtime config).bytesPerToken = (model.runtime config).numLayers *
          ((model.runtime config).kvTensorsPerToken * (model.kvHeads * model.headDim * 4)) :=
        congrArg _ helements
      rw [PagedKvCacheLayout.withWidths, PagedKvCacheLayout.new_eq_ok rfl hbytes, hallocates,
        floatLayout, hgeometry, helements]
      simp only [runtime, htotal, Nat.div_mul_cancel hdvd, helements]
  | pair keyElements valueElements =>
      obtain ⟨htensors, -, hkey, hvalue⟩ := h.pair _ _ hgeometry
      unfold tensorPairSizeBytes at hpair
      rw [hgeometry] at hpair
      obtain ⟨elementBytes, hdtype, hpair⟩ := Except.bind_eq_ok.mp hpair
      obtain rfl : 4 = elementBytes := Except.ok.inj hdtype
      obtain ⟨_, hkeyBytes, hpair⟩ := Except.bind_eq_ok.mp hpair
      obtain ⟨_, hvalueBytes, hpair⟩ := Except.bind_eq_ok.mp hpair
      obtain ⟨-, rfl⟩ := okOr_checkedMul_eq_ok.mp hkeyBytes
      obtain ⟨-, rfl⟩ := okOr_checkedMul_eq_ok.mp hvalueBytes
      obtain rfl := Except.ok.inj hpair
      have helements : model.elementsPerLayer * 4 = keyElements * 4 + valueElements * 4 := by
        simp only [elementsPerLayer, hgeometry, add_mul]
      have hbytes : (model.runtime config).bytesPerToken =
          (model.runtime config).numLayers * (keyElements * 4 + valueElements * 4) :=
        congrArg _ helements
      rw [PagedKvCacheLayout.withWidths, PagedKvCacheLayout.newWithTensorPair_eq_ok rfl hbytes
        htensors (mul_ne_zero hkey four_ne_zero) (mul_ne_zero hvalue four_ne_zero), hallocates,
        floatLayout, hgeometry, helements]
      simp only [runtime, htotal, Nat.div_mul_cancel hdvd, helements]
  | packedBytes => exact absurd hgeometry h.packed

/-- **The layout for a model of floats.** -/
theorem Floats.pagedKvCacheLayoutForModel_eq_ok (h : model.Floats) {layout : PagedKvCacheLayout} :
    pagedKvCacheLayoutForModel model .float32 config = .ok layout ↔
      model.Allocates config ∧ layout = model.floatLayout config := by
  unfold pagedKvCacheLayoutForModel
  constructor
  · intro hok
    obtain ⟨_, hvalidate, hok⟩ := Except.bind_eq_ok.mp hok
    obtain ⟨n, hn, hok⟩ := Except.bind_eq_ok.mp hok
    obtain rfl := h.tokenSizeBytes_eq_ok (Except.mapError_eq_ok.mp hn)
    obtain ⟨pair, hpair, hok⟩ := Except.bind_eq_ok.mp hok
    obtain ⟨_, hpageBytes, hok⟩ := Except.bind_eq_ok.mp hok
    obtain ⟨-, rfl⟩ := okOr_checkedMul_eq_ok.mp hpageBytes
    exact (h.withWidths_eq_ok (Except.mapError_eq_ok.mp hpair) hvalidate).mp
      (Except.mapError_eq_ok.mp hok)
  · intro hallocates
    have hvalidate := validateCacheConfig_eq_ok.mpr
      ⟨hallocates.1.slotCapacity, hallocates.1.pageSize, hallocates.1.aligned⟩
    have hpageBytes : config.pageSize * (model.numLayers * (model.elementsPerLayer * 4)) < 2 ^ 64 :=
      (Nat.mul_le_mul_right _ (Nat.le_of_dvd (Nat.pos_of_ne_zero hallocates.1.slotCapacity)
        hallocates.1.aligned)).trans_lt hallocates.1.bytes_lt
    have hbytes : model.numLayers * (model.elementsPerLayer * 4) < 2 ^ 64 :=
      (Nat.le_mul_of_pos_left _ (Nat.pos_of_ne_zero hallocates.1.pageSize)).trans_lt hpageBytes
    obtain ⟨pair, hpair⟩ := h.exists_tensorPairSizeBytes
      ((Nat.le_mul_of_pos_left _ (Nat.pos_of_ne_zero hallocates.1.numLayers)).trans_lt hbytes)
    refine Except.bind_eq_ok.mpr ⟨(), hvalidate, Except.bind_eq_ok.mpr ⟨_,
      Except.mapError_eq_ok.mpr (h.exists_tokenSizeBytes hallocates.1.numLayers
        hallocates.1.headDim hbytes), Except.bind_eq_ok.mpr ⟨pair,
      Except.mapError_eq_ok.mpr hpair, Except.bind_eq_ok.mpr ⟨_,
      okOr_checkedMul_eq_ok.mpr ⟨hpageBytes, rfl⟩, ?_⟩⟩⟩⟩
    exact Except.mapError_eq_ok.mpr ((h.withWidths_eq_ok hpair hvalidate).mpr hallocates)

/-- The layout is built by the constructors of layouts. -/
theorem isBuilt_of_pagedKvCacheLayoutForModel {dtype : KvCacheDtype} {layout : PagedKvCacheLayout}
    (h : pagedKvCacheLayoutForModel model dtype config = .ok layout) : layout.IsBuilt 64 := by
  obtain ⟨_, -, h⟩ := Except.bind_eq_ok.mp h
  obtain ⟨_, -, h⟩ := Except.bind_eq_ok.mp h
  obtain ⟨pair, -, h⟩ := Except.bind_eq_ok.mp h
  obtain ⟨_, -, h⟩ := Except.bind_eq_ok.mp h
  have h := Except.mapError_eq_ok.mp h
  cases pair with
  | none => exact .new _ _ h
  | some widths => exact .newWithTensorPair _ _ _ _ h

/-- The cache is a new one for its layout. -/
theorem built_of_allocateCpuActiveKvCache {cache : CpuReferenceKvCache}
    (h : allocateCpuActiveKvCache model config = .ok cache) :
    cache.layout.IsBuilt 64 ∧ CpuReferenceKvCache.new .float32 cache.layout = .ok cache := by
  obtain ⟨layout, hlayout, hcache⟩ := Except.bind_eq_ok.mp h
  have hcache := Except.mapError_eq_ok.mp hcache
  have hnew := hcache
  obtain ⟨-, hcache⟩ := ite_error_eq_ok.mp hcache
  obtain ⟨_, -, hcache⟩ := Except.bind_eq_ok.mp hcache
  obtain ⟨_, -, hcache⟩ := Except.bind_eq_ok.mp hcache
  obtain ⟨-, hcache⟩ := ite_error_eq_ok.mp hcache
  obtain rfl := Except.ok.inj hcache
  exact ⟨isBuilt_of_pagedKvCacheLayoutForModel hlayout, hnew⟩

theorem exists_allocator {cache : CpuReferenceKvCache}
    (h : allocateCpuActiveKvCache model config = .ok cache) :
    ∃ a, CachePageAllocator.withPageSize config.slotCapacity config.pageSize = .ok a ∧
      a.slotCapacity = config.slotCapacity ∧ a.pageSize = config.pageSize := by
  obtain ⟨_, hlayout, -⟩ := Except.bind_eq_ok.mp h
  obtain ⟨_, hvalidate, -⟩ := Except.bind_eq_ok.mp hlayout
  exact withPageSize_of_validateCacheConfig hvalidate

/-- The layout for packed tokens has one tensor. -/
theorem kvTensorsPerToken_of_packed {dtype : KvCacheDtype} {layout : PagedKvCacheLayout}
    (hpacked : model.tensorGeometry = .packedBytes)
    (h : pagedKvCacheLayoutForModel model dtype config = .ok layout) :
    layout.runtime.kvTensorsPerToken = model.kvTensorsPerToken := by
  obtain ⟨_, -, h⟩ := Except.bind_eq_ok.mp h
  obtain ⟨_, -, h⟩ := Except.bind_eq_ok.mp h
  obtain ⟨pair, hpair, h⟩ := Except.bind_eq_ok.mp h
  obtain ⟨_, -, h⟩ := Except.bind_eq_ok.mp h
  have hpair := Except.mapError_eq_ok.mp hpair
  rw [tensorPairSizeBytes, hpacked] at hpair
  obtain rfl := Except.ok.inj hpair
  obtain ⟨_, -, h⟩ := Except.bind_eq_ok.mp (Except.mapError_eq_ok.mp h)
  obtain ⟨-, h⟩ := ite_error_eq_ok.mp h
  obtain ⟨_, -, h⟩ := Except.bind_eq_ok.mp h
  obtain rfl := Except.ok.inj h
  rfl

/-- **A cache of floats** has a tensor of keys and a tensor of values. -/
theorem new_floatLayout_eq_ok (htensors : model.kvTensorsPerToken ≠ 0) {cache : CpuReferenceKvCache} :
    CpuReferenceKvCache.new .float32 (model.floatLayout config) = .ok cache ↔
      2 ≤ model.kvTensorsPerToken ∧
        cache = ⟨model.floatLayout config,
          List.replicate (model.floatLayout config).totalByteLen 0, model.widths.1,
          model.widths.2⟩ := by
  have hkey : (model.floatLayout config).tensorTokenSizeBytes 0 = .ok (model.widths.1 * 4) := by
    refine (if_neg (not_le.mpr (Nat.pos_of_ne_zero htensors))).trans ?_
    unfold PagedKvCacheLayout.tensorTokenBytes floatLayout widths
    cases model.tensorGeometry <;> rfl
  have hvalue {bytes : ℕ} : (model.floatLayout config).tensorTokenSizeBytes 1 = .ok bytes ↔
      2 ≤ model.kvTensorsPerToken ∧ bytes = model.widths.2 * 4 := by
    unfold PagedKvCacheLayout.tensorTokenSizeBytes
    rw [ite_error_eq_ok]
    refine and_congr not_le ⟨fun hok => ?_, fun hok => hok ▸ ?_⟩
    · refine Except.ok.inj (hok.symm.trans ?_)
      unfold PagedKvCacheLayout.tensorTokenBytes floatLayout widths
      cases model.tensorGeometry <;> rfl
    · unfold PagedKvCacheLayout.tensorTokenBytes floatLayout widths
      cases model.tensorGeometry <;> rfl
  rw [CpuReferenceKvCache.new, if_neg (not_not.mpr rfl), Except.bind_eq_ok, hkey]
  simp only [Except.bind_eq_ok, Except.mapError_eq_ok, hvalue, ite_error_eq_ok]
  constructor
  · rintro ⟨_, hkeyBytes, _, ⟨htwo, rfl⟩, -, hok⟩
    obtain rfl := Except.ok.inj hkeyBytes
    refine ⟨htwo, (Except.ok.inj hok).symm.trans ?_⟩
    rw [Nat.mul_div_cancel _ four_pos, Nat.mul_div_cancel _ four_pos]
  · rintro ⟨htwo, rfl⟩
    refine ⟨_, rfl, _, ⟨htwo, rfl⟩,
      not_or.mpr ⟨not_not.mpr (Nat.dvd_mul_left ..), not_not.mpr (Nat.dvd_mul_left ..)⟩, ?_⟩
    rw [Nat.mul_div_cancel _ four_pos, Nat.mul_div_cancel _ four_pos]
    rfl

/-- **The cache that the backend allocates.** -/
theorem IsBuilt.allocateCpuActiveKvCache_eq_ok (h : model.IsBuilt) {cache : CpuReferenceKvCache} :
    allocateCpuActiveKvCache model config = .ok cache ↔
      (2 ≤ model.kvTensorsPerToken ∧ model.Allocates config) ∧
        cache = ⟨model.floatLayout config,
          List.replicate (model.floatLayout config).totalByteLen 0, model.widths.1,
          model.widths.2⟩ := by
  rw [allocateCpuActiveKvCache, Except.bind_eq_ok]
  simp only [Except.mapError_eq_ok]
  rcases h.floats_or_packed with hfloats | ⟨hone, hpacked⟩
  · simp only [hfloats.pagedKvCacheLayoutForModel_eq_ok]
    constructor
    · rintro ⟨_, ⟨hallocates, rfl⟩, hok⟩
      obtain ⟨htwo, rfl⟩ := (new_floatLayout_eq_ok hallocates.kvTensorsPerToken).mp hok
      exact ⟨⟨htwo, hallocates⟩, rfl⟩
    · rintro ⟨⟨htwo, hallocates⟩, rfl⟩
      exact ⟨_, ⟨hallocates, rfl⟩,
        (new_floatLayout_eq_ok hallocates.kvTensorsPerToken).mpr ⟨htwo, rfl⟩⟩
  · -- packed tokens have no tensor of values
    refine ⟨?_, fun hok => absurd hok.1.1 (by omega)⟩
    rintro ⟨layout, hlayout, hok⟩
    have htensors := (kvTensorsPerToken_of_packed hpacked hlayout).trans hone
    obtain ⟨-, hok⟩ := ite_error_eq_ok.mp hok
    obtain ⟨_, -, hok⟩ := Except.bind_eq_ok.mp hok
    obtain ⟨_, hvalue, -⟩ := Except.bind_eq_ok.mp hok
    rw [Except.mapError_eq_ok, PagedKvCacheLayout.tensorTokenSizeBytes, htensors,
      if_pos le_rfl] at hvalue
    cases hvalue

end KvCacheModelLayout

end SglangRs
