import SglangRs.Cache.KvCacheLayout
import SglangRs.Causal.Network
import SglangRs.Kernel.Cpu
import SglangRs.Paging.Buffer
import SglangRs.Weights.Safetensors

/-!
# The KV cache of the CPU reference

The CPU reference keeps keys and values as the bytes of 32-bit floats in one buffer, at the places
that the paged layout assigns (`cpu_reference.rs`, lines 754–872). A key and a value are written to
a slot of a layer, and those of some slots are gathered in order. The machine is little-endian and
has 64 bits.

The buffer behaves like a map from layers and slots to keys and values: what was written last is
gathered, and slots never written give zeros.

## Main definitions

* `CpuReferenceKvCache.new`, `CpuReferenceKvCache.write`, `CpuReferenceKvCache.gather`.
* `CpuReferenceKvCache.memory`: the cache as a memory of a causal network.
* `CpuReferenceKvCache.latest`: the entries after some writes, as a map.

## Main results

* `CpuReferenceKvCache.lawful_memory`: what was written last is read.
* `cpu_kv_cache_gathers_latest`: what is gathered after a sequence of writes.
-/

namespace SglangRs

open Paging Buffer

/-- Source: `model_artifacts.rs`, lines 1649–1725. -/
def ModelArtifactError.display : ModelArtifactError → String
  | .readWeightShard path message => s!"failed to read safetensors shard {path}: {message}"
  | .invalidSafetensorsData path message =>
      s!"failed to read safetensors tensor data {path}: {message}"

inductive CpuReferenceDenseDecoderError where
  | artifact (error : ModelArtifactError)
  | unsupported (message : String)
  | execution (message : String)
deriving DecidableEq, Repr

/-- Source: `cpu_reference.rs`, lines 979–984. -/
def CpuReferenceDenseDecoderError.display : CpuReferenceDenseDecoderError → String
  | .artifact error => error.display
  | .unsupported message => message
  | .execution message => message

/-- Source: `kv_cache.rs`, lines 315–412. -/
def PagedKvCacheLayoutError.display : PagedKvCacheLayoutError → String
  | .zeroPageCount => "KV cache page count must be non-zero"
  | .zeroLayoutField field => s!"KV cache layout field {field} must be non-zero"
  | .runtimePageSizeMismatch expected actual =>
      s!"KV cache runtime page size is {actual} bytes but page_size * bytes_per_token requires "
        ++ s!"{expected} bytes"
  | .unevenLayerLayout bytesPerToken numLayers =>
      s!"KV cache token size {bytesPerToken} bytes is not divisible by {numLayers} layers"
  | .unevenTensorLayout bytesPerTokenPerLayer kvTensorsPerToken =>
      s!"KV cache per-layer token size {bytesPerTokenPerLayer} bytes is not divisible by "
        ++ s!"{kvTensorsPerToken} KV tensors"
  | .sizeOverflow => "KV cache layout size overflowed"
  | .pageOutOfRange pageIndex pageCount =>
      s!"KV cache page index {pageIndex} is outside {pageCount} pages"
  | .layerOutOfRange layerIndex layerCount =>
      s!"KV cache layer index {layerIndex} is outside {layerCount} layers"
  | .tensorOutOfRange tensorIndex tensorCount =>
      s!"KV cache tensor index {tensorIndex} is outside {tensorCount} tensors per token"
  | .tokenOutOfRange tokenIndex pageSize =>
      s!"KV cache token index {tokenIndex} is outside page size {pageSize}"
  | .slotOutOfRange slotIndex slotCount =>
      s!"KV cache slot index {slotIndex} is outside {slotCount} token slots"
  | .kvPairRequiresTwoTensors tensorCount =>
      s!"KV cache K/V pair layout requires at least two tensors per token, layout has {tensorCount}"
  | .tensorPairRequiresTwoTensors tensorCount =>
      s!"explicit KV tensor-pair layout requires exactly two tensors per token, layout has "
        ++ s!"{tensorCount}"
  | .tensorPairSizeMismatch bytesPerTokenPerLayer keyTokenBytes valueTokenBytes =>
      s!"KV tensor-pair widths ({keyTokenBytes} key bytes + {valueTokenBytes} value bytes) do not "
        ++ s!"match the runtime per-layer token size of {bytesPerTokenPerLayer} bytes"
  | .unevenKvPairCopy keyTokenBytes valueTokenBytes =>
      s!"the selected KV copy/attention kernel requires equal key and value widths, but the layout "
        ++ s!"has {keyTokenBytes} key bytes and {valueTokenBytes} value bytes per token"

inductive KvCacheDtype where
  | auto
  | float32
  | bfloat16
  | fp8E4M3
  | fp8E5M2
  | fp4E2M1
deriving DecidableEq, Repr

/-- The derived `Debug`. -/
def KvCacheDtype.debug : KvCacheDtype → String
  | .auto => "Auto"
  | .float32 => "Float32"
  | .bfloat16 => "Bfloat16"
  | .fp8E4M3 => "Fp8E4M3"
  | .fp8E5M2 => "Fp8E5M2"
  | .fp4E2M1 => "Fp4E2M1"

/-- Source: `kv_cache.rs`, lines 615–626. -/
def PagedKvCacheLayout.tensorTokenSizeBytes (layout : PagedKvCacheLayout) (tensorIndex : ℕ) :
    Except PagedKvCacheLayoutError ℕ :=
  if layout.runtime.kvTensorsPerToken ≤ tensorIndex then
    .error (.tensorOutOfRange tensorIndex layout.runtime.kvTensorsPerToken)
  else layout.tensorTokenBytes tensorIndex

structure CpuReferenceKvCache where
  layout : PagedKvCacheLayout
  data : Bytes
  keyWidth : ℕ
  valueWidth : ℕ
deriving DecidableEq

namespace CpuReferenceKvCache

/-- The layout is that of a runtime with elements of type `dtype`.

Source: `cpu_reference.rs`, lines 766–798. -/
def new (dtype : KvCacheDtype) (layout : PagedKvCacheLayout) :
    Except CpuReferenceDenseDecoderError CpuReferenceKvCache :=
  if dtype ≠ .float32 then
    .error (.unsupported
      s!"CPU reference KV cache requires f32 storage, received {dtype.debug}")
  else do
    let keyBytes ← (layout.tensorTokenSizeBytes 0).mapError fun error =>
      .unsupported s!"invalid CPU reference key tensor layout: {error.display}"
    let valueBytes ← (layout.tensorTokenSizeBytes 1).mapError fun error =>
      .unsupported s!"invalid CPU reference value tensor layout: {error.display}"
    if ¬ 4 ∣ keyBytes ∨ ¬ 4 ∣ valueBytes then
      .error (.unsupported (s!"CPU reference KV tensor byte widths {keyBytes}/{valueBytes} are not "
        ++ "f32 aligned"))
    else return ⟨layout, List.replicate layout.totalByteLen 0, keyBytes / 4, valueBytes / 4⟩

section Floats

variable {F : Type} [KernelFloat F]

/-- The words of some floats, stored over the chunks of a range. -/
def storeFloats (data : Bytes) (range : ByteRange) (values : List F) : Bytes :=
  let count := min values.length ((range.stop - range.start) / 4)
  writeRegion data range.start (packWords ((values.take count).map KernelFloat.toBits))

/-- The floats whose words are the chunks of a range. -/
def loadFloats (data : Bytes) (range : ByteRange) : List F :=
  (chunksExact 4
    (Paging.Buffer.region data range.start (range.stop - range.start))).map fun chunk =>
    KernelFloat.ofBits (unpackWord chunk)

variable (cache : CpuReferenceKvCache)

/-- The ranges of the key and of the value of a slot. -/
def entryRanges (layerIndex slot : ℕ) :
    Except CpuReferenceDenseDecoderError (ByteRange × ByteRange) := do
  let keyRange ← (cache.layout.tensorSlotByteRange 64 layerIndex 0 slot).mapError fun error =>
    .execution error.display
  let valueRange ← (cache.layout.tensorSlotByteRange 64 layerIndex 1 slot).mapError fun error =>
    .execution error.display
  return (keyRange, valueRange)

/-- The key and the value have the widths of the cache. -/
def checkWidths (keyWidth valueWidth : ℕ) (key value : List F) :
    Except CpuReferenceDenseDecoderError Unit :=
  if key.length ≠ keyWidth ∨ value.length ≠ valueWidth then
    .error (.execution (s!"KV write width {key.length}/{value.length} does not match expected "
      ++ s!"{keyWidth}/{valueWidth}"))
  else .ok ()

/-- Source: `cpu_reference.rs`, lines 800–832. -/
def write (layerIndex slot : ℕ) (key value : List F) :
    Except CpuReferenceDenseDecoderError CpuReferenceKvCache := do
  checkWidths cache.keyWidth cache.valueWidth key value
  let (keyRange, valueRange) ← cache.entryRanges layerIndex slot
  return { cache with
    data := storeFloats (storeFloats cache.data keyRange key) valueRange value }

/-- The key and the value of a slot. -/
def readEntry (layerIndex slot : ℕ) :
    Except CpuReferenceDenseDecoderError (List F × List F) := do
  let (keyRange, valueRange) ← cache.entryRanges layerIndex slot
  return (loadFloats cache.data keyRange, loadFloats cache.data valueRange)

/-- The numbers of floats that are gathered are a `usize`. -/
def checkCapacity (keyWidth valueWidth count : ℕ) : Except CpuReferenceDenseDecoderError Unit := do
  let _ ← okOr (.execution "KV gather size overflowed") (checkedMul 64 count keyWidth)
  let _ ← okOr (.execution "KV gather size overflowed") (checkedMul 64 count valueWidth)

/-- The keys and the values of some slots, one behind the other.

Source: `cpu_reference.rs`, lines 834–865. -/
def gather (layerIndex : ℕ) (slots : List ℕ) :
    Except CpuReferenceDenseDecoderError (List F × List F) := do
  checkCapacity cache.keyWidth cache.valueWidth slots.length
  let entries ← slots.mapM (cache.readEntry layerIndex)
  return (entries.flatMap Prod.fst, entries.flatMap Prod.snd)

end Floats

/-- The cache as a memory. -/
def memory (F : Type) [KernelFloat F] :
    Causal.Memory CpuReferenceDenseDecoderError CpuReferenceKvCache ℕ (List F × List F) where
  write cache layerIndex slot entry := cache.write layerIndex slot entry.1 entry.2
  read cache layerIndex slot := cache.readEntry layerIndex slot

/-! ### Floats in a buffer -/

section Buffer

variable {F : Type} [KernelFloat F] {data : Bytes} {range range' : ByteRange} {values : List F}

/-- Floats that fill their range are stored as a whole. -/
theorem storeFloats_eq (h : range.stop = range.start + 4 * values.length) :
    storeFloats data range values =
      writeRegion data range.start (packWords (values.map KernelFloat.toBits)) := by
  have hcount : min values.length ((range.stop - range.start) / 4) = values.length := by omega
  rw [storeFloats, hcount, List.take_length]

theorem length_packWords_toBits (values : List F) :
    (packWords (values.map KernelFloat.toBits)).length = 4 * values.length := by
  rw [length_packWords, List.length_map, Nat.mul_comm]
  rfl

theorem length_storeFloats (h : range.stop = range.start + 4 * values.length)
    (hstop : range.stop ≤ data.length) : (storeFloats data range values).length = data.length := by
  rw [storeFloats_eq h, length_writeRegion (by rw [length_packWords_toBits]; omega)]

/-- What was stored is loaded. -/
theorem loadFloats_storeFloats (h : range.stop = range.start + 4 * values.length)
    (hstop : range.stop ≤ data.length) :
    loadFloats (storeFloats data range values) range = values := by
  have hlen := length_packWords_toBits values
  have hsize : range.stop - range.start = (packWords (values.map KernelFloat.toBits)).length := by
    omega
  rw [storeFloats_eq h, loadFloats, hsize, region_writeRegion (by omega)]
  have hwords := map_unpackWord_packWords (values.map KernelFloat.toBits)
  have hmap := congrArg (List.map (KernelFloat.ofBits (F := F))) hwords
  rw [List.map_map, List.map_map] at hmap
  refine Eq.trans ?_ (hmap.trans (List.map_id'' KernelFloat.ofBits_toBits values))
  rfl

/-- Other ranges are not touched. -/
theorem loadFloats_storeFloats_of_disjoint (h : range.stop = range.start + 4 * values.length)
    (hstop : range.stop ≤ data.length) (hdisjoint : ∀ i ∈ range'.bytes, i ∉ range.bytes) :
    (loadFloats (storeFloats data range values) range' : List F) = loadFloats data range' := by
  have hlen := length_packWords_toBits values
  rw [storeFloats_eq h, loadFloats, loadFloats, region_writeRegion_of_disjoint (by omega)]
  intro i hi hi'
  have hmem : i ∈ range'.bytes := ⟨hi, by omega⟩
  have hnot := hdisjoint i hmem
  rw [ByteRange.bytes, Set.mem_Ico, not_and_or] at hnot
  omega

end Buffer

/-! ### The cells of the cache -/

/-- The layout has keys and values of these numbers of floats. -/
structure Stores (layout : PagedKvCacheLayout) (keyWidth valueWidth : ℕ) : Prop where
  valid : layout.Valid 64
  tensors : 1 < layout.runtime.kvTensorsPerToken
  key_eq : layout.tensorWidth 0 = 4 * keyWidth
  value_eq : layout.tensorWidth 1 = 4 * valueWidth

/-- The cache of such a layout. -/
structure Sized (layout : PagedKvCacheLayout) (keyWidth valueWidth : ℕ)
    (cache : CpuReferenceKvCache) : Prop where
  layout_eq : cache.layout = layout
  keyWidth_eq : cache.keyWidth = keyWidth
  valueWidth_eq : cache.valueWidth = valueWidth
  length_data : cache.data.length = layout.totalByteLen

/-- The index of a tensor of a slot. -/
def slotIndex (layout : PagedKvCacheLayout) (layer tensor slot : ℕ) :
    ℕ × PagedKvCacheLayout.PageIndex :=
  (slot / layout.runtime.pageSize, layer, tensor, slot % layout.runtime.pageSize)

/-- Where the floats of a tensor of a slot are stored. -/
def cell (layout : PagedKvCacheLayout) (layer tensor slot : ℕ) : ByteRange :=
  layout.tokenRange (slotIndex layout layer tensor slot)

section Cells

variable {layout : PagedKvCacheLayout} {keyWidth valueWidth layer layer' tensor tensor' slot slot' : ℕ}
  {cache : CpuReferenceKvCache}

theorem slotIndex_injective (h : slotIndex layout layer tensor slot =
    slotIndex layout layer' tensor' slot') : (layer, slot) = (layer', slot') ∧ tensor = tensor' := by
  obtain ⟨hpage, h⟩ := Prod.ext_iff.mp h
  obtain ⟨hlayer, h⟩ := Prod.ext_iff.mp h
  obtain ⟨htensor, htoken⟩ := Prod.ext_iff.mp h
  simp only [slotIndex] at hpage hlayer htensor htoken
  have hslot : slot = slot' := by
    rw [← Nat.div_add_mod slot layout.runtime.pageSize, hpage, htoken, Nat.div_add_mod]
  exact ⟨by rw [hlayer, hslot], htensor⟩

theorem Stores.slotIndex_mem (h : Stores layout keyWidth valueWidth)
    (hlayer : layer < layout.runtime.numLayers) (htensor : tensor < 2)
    (hslot : slot < layout.slotCount) : slotIndex layout layer tensor slot ∈
      Set.Iio layout.pageCount ×ˢ layout.pageIndices := by
  obtain ⟨hpage, htoken⟩ := h.valid.slot_lt hslot
  have htensors := h.tensors
  exact ⟨hpage, hlayer, show tensor < _ by omega, htoken⟩

/-- Different cells have no byte in common. -/
theorem Stores.cell_disjoint (h : Stores layout keyWidth valueWidth)
    (hlayer : layer < layout.runtime.numLayers) (hlayer' : layer' < layout.runtime.numLayers)
    (htensor : tensor < 2) (htensor' : tensor' < 2) (hslot : slot < layout.slotCount)
    (hslot' : slot' < layout.slotCount) (hne : (layer, slot) ≠ (layer', slot') ∨ tensor ≠ tensor') :
    ∀ i ∈ (cell layout layer tensor slot).bytes, i ∉ (cell layout layer' tensor' slot').bytes := by
  intro i hi
  refine Set.disjoint_left.mp (h.valid.tiling.disjoint (h.slotIndex_mem hlayer htensor hslot)
    (h.slotIndex_mem hlayer' htensor' hslot') fun heq => ?_) hi
  obtain ⟨hcell, htensor⟩ := slotIndex_injective heq
  exact hne.elim (fun h => h hcell) fun h => h htensor

theorem Stores.cell_stop_le (h : Stores layout keyWidth valueWidth)
    (hlayer : layer < layout.runtime.numLayers) (htensor : tensor < 2)
    (hslot : slot < layout.slotCount) :
    (cell layout layer tensor slot).stop ≤ layout.totalByteLen := by
  obtain ⟨hpage, htoken⟩ := h.valid.slot_lt hslot
  have htensors := h.tensors
  exact h.valid.tokenRange_stop_le hpage hlayer (by omega) htoken

theorem Stores.cell_key (h : Stores layout keyWidth valueWidth) (layer slot : ℕ) :
    (cell layout layer 0 slot).stop = (cell layout layer 0 slot).start + 4 * keyWidth := by
  rw [← h.key_eq]
  rfl

theorem Stores.cell_value (h : Stores layout keyWidth valueWidth) (layer slot : ℕ) :
    (cell layout layer 1 slot).stop = (cell layout layer 1 slot).start + 4 * valueWidth := by
  rw [← h.value_eq]
  rfl

/-- The ranges of a slot are its cells; there are none outside the layout. -/
theorem Sized.entryRanges_eq_ok_iff (hcache : Sized layout keyWidth valueWidth cache)
    (h : Stores layout keyWidth valueWidth) {ranges : ByteRange × ByteRange} :
    cache.entryRanges layer slot = .ok ranges ↔
      (layer < layout.runtime.numLayers ∧ slot < layout.slotCount) ∧
        ranges = (cell layout layer 0 slot, cell layout layer 1 slot) := by
  have htensors := h.tensors
  unfold entryRanges
  rw [hcache.layout_eq]
  by_cases hslot : slot < layout.slotCount
  · by_cases hlayer : layer < layout.runtime.numLayers
    · rw [h.valid.tensorSlotByteRange_eq hlayer (by omega) hslot,
        h.valid.tensorSlotByteRange_eq hlayer htensors hslot]
      simp only [hlayer, hslot, true_and]
      exact ⟨fun h => (Except.ok.inj h).symm, fun h => h ▸ rfl⟩
    · have hpage : layout.validatePage (slot / layout.runtime.pageSize) = .ok () :=
        if_neg (Nat.not_le.mpr (h.valid.slot_lt hslot).1)
      rw [PagedKvCacheLayout.tensorSlotByteRange, if_neg (Nat.not_le.mpr hslot),
        PagedKvCacheLayout.tensorTokenByteRange, hpage]
      simp only [hlayer, false_and, iff_false]
      intro h
      simp only [bind, Except.bind, if_pos (Nat.not_lt.mp hlayer)] at h
      cases h
  · rw [PagedKvCacheLayout.tensorSlotByteRange, if_pos (Nat.not_lt.mp hslot)]
    simp only [hslot, and_false, false_and, iff_false]
    intro h
    cases h

/-! ### Writing and reading -/

variable {F : Type} [KernelFloat F] {key value : List F}

omit [KernelFloat F] in
theorem checkWidths_eq_ok {u : Unit} : checkWidths keyWidth valueWidth key value = .ok u ↔
    key.length = keyWidth ∧ value.length = valueWidth := by
  rw [checkWidths, ite_error_eq_ok, not_or, not_not, not_not]
  exact and_iff_left rfl

theorem checkCapacity_eq_ok {count : ℕ} {u : Unit} :
    checkCapacity keyWidth valueWidth count = .ok u ↔
      count * keyWidth < 2 ^ 64 ∧ count * valueWidth < 2 ^ 64 := by
  simp only [checkCapacity, Except.bind_eq_ok, okOr_checkedMul_eq_ok]
  constructor
  · rintro ⟨_, ⟨hkey, -⟩, _, ⟨hvalue, -⟩, -⟩
    exact ⟨hkey, hvalue⟩
  · rintro ⟨hkey, hvalue⟩
    exact ⟨_, ⟨hkey, rfl⟩, _, ⟨hvalue, rfl⟩, rfl⟩

theorem write_eq_ok_iff (hcache : Sized layout keyWidth valueWidth cache)
    (h : Stores layout keyWidth valueWidth) {cache' : CpuReferenceKvCache} :
    cache.write layer slot key value = .ok cache' ↔
      (key.length = keyWidth ∧ value.length = valueWidth) ∧
        (layer < layout.runtime.numLayers ∧ slot < layout.slotCount) ∧
        cache' = { cache with
          data := storeFloats (storeFloats cache.data (cell layout layer 0 slot) key)
            (cell layout layer 1 slot) value } := by
  rw [write, hcache.keyWidth_eq, hcache.valueWidth_eq, Except.bind_eq_ok]
  simp only [checkWidths_eq_ok, Except.bind_eq_ok]
  constructor
  · rintro ⟨-, hfits, ranges, hranges, hok⟩
    obtain ⟨hrange, rfl⟩ := (hcache.entryRanges_eq_ok_iff h).mp hranges
    exact ⟨hfits, hrange, (Except.ok.inj hok).symm⟩
  · rintro ⟨hfits, hrange, rfl⟩
    exact ⟨(), hfits, _, (hcache.entryRanges_eq_ok_iff h).mpr ⟨hrange, rfl⟩, rfl⟩

theorem readEntry_eq_ok_iff (hcache : Sized layout keyWidth valueWidth cache)
    (h : Stores layout keyWidth valueWidth) {entry : List F × List F} :
    cache.readEntry layer slot = .ok entry ↔
      (layer < layout.runtime.numLayers ∧ slot < layout.slotCount) ∧
        entry = (loadFloats cache.data (cell layout layer 0 slot),
          loadFloats cache.data (cell layout layer 1 slot)) := by
  rw [readEntry, Except.bind_eq_ok]
  constructor
  · rintro ⟨ranges, hranges, hok⟩
    obtain ⟨hrange, rfl⟩ := (hcache.entryRanges_eq_ok_iff h).mp hranges
    exact ⟨hrange, (Except.ok.inj hok).symm⟩
  · rintro ⟨hrange, rfl⟩
    exact ⟨_, (hcache.entryRanges_eq_ok_iff h).mpr ⟨hrange, rfl⟩, rfl⟩

/-- What is gathered are the entries of the slots. -/
theorem Sized.gather_eq (hcache : Sized layout keyWidth valueWidth cache)
    (h : Stores layout keyWidth valueWidth) {slots : List ℕ} (hlayer : layer < layout.runtime.numLayers)
    (hslots : ∀ slot ∈ slots, slot < layout.slotCount) :
    ∃ entries : List (List F × List F), slots.mapM (cache.readEntry layer) = .ok entries ∧
      entries.length = slots.length ∧
      (cache.gather layer slots : Except _ (List F × List F)) = do
        checkCapacity keyWidth valueWidth entries.length
        return (entries.flatMap Prod.fst, entries.flatMap Prod.snd) := by
  obtain ⟨entries, hentries⟩ :
      ∃ entries, slots.mapM (cache.readEntry (F := F) layer) = .ok entries :=
    exists_mapM_eq_ok_iff.mpr fun slot hslot =>
      ⟨_, (readEntry_eq_ok_iff hcache h).mpr ⟨⟨hlayer, hslots slot hslot⟩, rfl⟩⟩
  have hlen := (mapM_eq_ok_iff.mp hentries).length_eq.symm
  refine ⟨entries, hentries, hlen, ?_⟩
  rw [gather, hcache.keyWidth_eq, hcache.valueWidth_eq, hentries, hlen]
  rfl

/-- A write changes one entry. -/
theorem Sized.of_write (hcache : Sized layout keyWidth valueWidth cache)
    (h : Stores layout keyWidth valueWidth) {cache' : CpuReferenceKvCache}
    (hwrite : cache.write layer slot key value = .ok cache') :
    Sized layout keyWidth valueWidth cache' ∧
      cache'.readEntry layer slot = .ok (key, value) ∧
      ∀ layer' slot', layer' < layout.runtime.numLayers → slot' < layout.slotCount →
        (layer', slot') ≠ (layer, slot) →
          (cache'.readEntry layer' slot' : Except _ (List F × List F)) =
            cache.readEntry layer' slot' := by
  obtain ⟨⟨hkey, hvalue⟩, ⟨hlayer, hslot⟩, rfl⟩ := (write_eq_ok_iff hcache h).mp hwrite
  have hkeyCell : (cell layout layer 0 slot).stop =
      (cell layout layer 0 slot).start + 4 * key.length := hkey ▸ h.cell_key layer slot
  have hvalueCell : (cell layout layer 1 slot).stop =
      (cell layout layer 1 slot).start + 4 * value.length := hvalue ▸ h.cell_value layer slot
  have hstop (tensor : ℕ) (htensor : tensor < 2) :
      (cell layout layer tensor slot).stop ≤ cache.data.length :=
    hcache.length_data ▸ h.cell_stop_le hlayer htensor hslot
  have hlen := length_storeFloats hkeyCell (hstop 0 two_pos)
  have hstop' := hlen ▸ hstop 1 one_lt_two
  have hsized : Sized layout keyWidth valueWidth { cache with
      data := storeFloats (storeFloats cache.data (cell layout layer 0 slot) key)
        (cell layout layer 1 slot) value } :=
    ⟨hcache.layout_eq, hcache.keyWidth_eq, hcache.valueWidth_eq,
      (length_storeFloats hvalueCell hstop').trans (hlen.trans hcache.length_data)⟩
  refine ⟨hsized, (readEntry_eq_ok_iff hsized h).mpr ⟨⟨hlayer, hslot⟩, ?_⟩, ?_⟩
  · simp only
    rw [loadFloats_storeFloats hvalueCell hstop', loadFloats_storeFloats_of_disjoint hvalueCell hstop'
      (h.cell_disjoint hlayer hlayer two_pos one_lt_two hslot hslot (.inr zero_ne_one)),
      loadFloats_storeFloats hkeyCell (hstop 0 two_pos)]
  · intro layer' slot' hlayer' hslot' hne
    have hload (tensor : ℕ) (htensor : tensor < 2) :
        (loadFloats (storeFloats (storeFloats cache.data (cell layout layer 0 slot) key)
          (cell layout layer 1 slot) value) (cell layout layer' tensor slot') : List F) =
        loadFloats cache.data (cell layout layer' tensor slot') := by
      rw [loadFloats_storeFloats_of_disjoint hvalueCell hstop'
          (h.cell_disjoint hlayer' hlayer htensor one_lt_two hslot' hslot (.inl hne)),
        loadFloats_storeFloats_of_disjoint hkeyCell (hstop 0 two_pos)
          (h.cell_disjoint hlayer' hlayer htensor two_pos hslot' hslot (.inl hne))]
    rw [(readEntry_eq_ok_iff hcache h).mpr ⟨⟨hlayer', hslot'⟩, rfl⟩, ← hload 0 two_pos,
      ← hload 1 one_lt_two]
    exact (readEntry_eq_ok_iff hsized h).mpr ⟨⟨hlayer', hslot'⟩, rfl⟩

/-- **The cache returns what was written last.** -/
theorem lawful_memory (h : Stores layout keyWidth valueWidth) :
    (memory F).Lawful (Sized layout keyWidth valueWidth) layout.runtime.numLayers
      (· < layout.slotCount)
      (fun entry => entry.1.length = keyWidth ∧ entry.2.length = valueWidth) where
  write hcache hlayer hslot hfits := by
    have hwrite := (write_eq_ok_iff hcache h).mpr ⟨hfits, ⟨hlayer, hslot⟩, rfl⟩
    obtain ⟨hsized, hread, hother⟩ := hcache.of_write h hwrite
    exact ⟨_, hwrite, hsized, hread, hother⟩

/-! ### Sequences of writes -/

/-- The entry of a slot never written. -/
def zeroEntry (F : Type) [KernelFloat F] (keyWidth valueWidth : ℕ) : List F × List F :=
  (List.replicate keyWidth (KernelFloat.ofBits 0), List.replicate valueWidth (KernelFloat.ofBits 0))

/-- The arguments of a call of `write`. -/
structure Write (F : Type) where
  layerIndex : ℕ
  slot : ℕ
  key : List F
  value : List F

/-- A call that fails changes nothing. -/
def apply (cache : CpuReferenceKvCache) (call : Write F) : CpuReferenceKvCache :=
  match cache.write call.layerIndex call.slot call.key call.value with
  | .ok cache => cache
  | .error _ => cache

/-- A call replaces an entry, if its key and its value have the right widths. -/
def record (keyWidth valueWidth : ℕ) (entries : ℕ × ℕ → List F × List F) (call : Write F) :
    ℕ × ℕ → List F × List F :=
  if call.key.length = keyWidth ∧ call.value.length = valueWidth then
    Function.update entries (call.layerIndex, call.slot) (call.key, call.value)
  else entries

/-- The entries after some calls, as a map. -/
def latest (keyWidth valueWidth : ℕ) (calls : List (Write F)) : ℕ × ℕ → List F × List F :=
  calls.foldl (record keyWidth valueWidth) fun _ => zeroEntry F keyWidth valueWidth

/-- The cache has the entries of a map. -/
structure Represents (layout : PagedKvCacheLayout) (keyWidth valueWidth : ℕ)
    (entries : ℕ × ℕ → List F × List F) (cache : CpuReferenceKvCache) : Prop where
  sized : Sized layout keyWidth valueWidth cache
  readEntry_eq {layer slot : ℕ} : layer < layout.runtime.numLayers → slot < layout.slotCount →
    cache.readEntry layer slot = .ok (entries (layer, slot))

theorem Represents.apply {entries : ℕ × ℕ → List F × List F}
    (hcache : Represents layout keyWidth valueWidth entries cache)
    (h : Stores layout keyWidth valueWidth) (call : Write F) :
    Represents layout keyWidth valueWidth (record keyWidth valueWidth entries call)
      (cache.apply call) := by
  rw [CpuReferenceKvCache.apply, record]
  cases hwrite : cache.write call.layerIndex call.slot call.key call.value with
  | ok cache' =>
      obtain ⟨hfits, -, -⟩ := (write_eq_ok_iff hcache.sized h).mp hwrite
      obtain ⟨hsized, hread, hother⟩ := hcache.sized.of_write h hwrite
      rw [if_pos hfits]
      refine ⟨hsized, fun {layer slot} hlayer hslot => ?_⟩
      by_cases hcell : (layer, slot) = (call.layerIndex, call.slot)
      · obtain ⟨rfl, rfl⟩ := Prod.ext_iff.mp hcell
        rw [hread, Function.update_self]
      · rw [hother layer slot hlayer hslot hcell, Function.update_of_ne hcell,
          hcache.readEntry_eq hlayer hslot]
  | error e =>
      refine ⟨hcache.sized, fun {layer slot} hlayer hslot => ?_⟩
      rw [hcache.readEntry_eq hlayer hslot]
      split_ifs with hfits
      · -- the call failed, so it was for no slot of the layout
        have hcell : (layer, slot) ≠ (call.layerIndex, call.slot) := by
          intro hcell
          obtain ⟨rfl, rfl⟩ := Prod.ext_iff.mp hcell
          have hok := (write_eq_ok_iff hcache.sized h).mpr ⟨hfits, ⟨hlayer, hslot⟩, rfl⟩
          exact nomatch hwrite.symm.trans hok
        rw [Function.update_of_ne hcell]
      · rfl

theorem Represents.foldl_apply {entries : ℕ × ℕ → List F × List F}
    (hcache : Represents layout keyWidth valueWidth entries cache)
    (h : Stores layout keyWidth valueWidth) (calls : List (Write F)) :
    Represents layout keyWidth valueWidth (calls.foldl (record keyWidth valueWidth) entries)
      (calls.foldl CpuReferenceKvCache.apply cache) := by
  induction calls generalizing entries cache with
  | nil => exact hcache
  | cons call calls ih => exact ih (hcache.apply h call)

theorem packWords_zeros (n : ℕ) :
    packWords (List.replicate n (0 : UInt32)) = List.replicate (4 * n) 0 := by
  induction n with
  | zero => rfl
  | succ n ih =>
      have hcons : packWords (List.replicate (n + 1) (0 : UInt32)) =
          List.replicate 4 0 ++ packWords (List.replicate n (0 : UInt32)) := rfl
      rw [hcons, ih, List.replicate_append_replicate, Nat.mul_succ, Nat.add_comm 4]

/-- The bytes of a new cache are zeros. -/
theorem loadFloats_zeros {range : ByteRange} {total n : ℕ} (h : range.stop = range.start + 4 * n)
    (hstop : range.stop ≤ total) :
    (loadFloats (List.replicate total 0) range : List F) =
      List.replicate n (KernelFloat.ofBits 0) := by
  have hregion : Paging.Buffer.region (List.replicate total (0 : UInt8)) range.start
      (range.stop - range.start) = packWords (List.replicate n (0 : UInt32)) := by
    rw [Paging.Buffer.region, List.drop_replicate, List.take_replicate, packWords_zeros]
    congr 1
    omega
  have hwords := congrArg (List.map (KernelFloat.ofBits (F := F)))
    (map_unpackWord_packWords (List.replicate n (0 : UInt32)))
  rw [List.map_map, List.map_replicate] at hwords
  rw [loadFloats, hregion]
  exact hwords

theorem represents_of_new {dtype : KvCacheDtype} (hbuilt : layout.IsBuilt 64)
    (h : new dtype layout = .ok cache) : Stores layout cache.keyWidth cache.valueWidth ∧
      Represents layout cache.keyWidth cache.valueWidth
        (fun _ => zeroEntry F cache.keyWidth cache.valueWidth) cache := by
  have hvalid := hbuilt.valid
  have hwidth {tensor bytes : ℕ} {f : PagedKvCacheLayoutError → CpuReferenceDenseDecoderError}
      (hbytes : (layout.tensorTokenSizeBytes tensor).mapError f = .ok bytes) :
      tensor < layout.runtime.kvTensorsPerToken ∧ layout.tensorWidth tensor = bytes := by
    rw [PagedKvCacheLayout.tensorTokenSizeBytes] at hbytes
    split_ifs at hbytes with htensor
    · cases hbytes
    · have htensor := Nat.not_le.mp htensor
      rw [hvalid.tensorTokenBytes_eq tensor htensor] at hbytes
      exact ⟨htensor, Except.ok.inj hbytes⟩
  obtain ⟨-, h⟩ := ite_error_eq_ok.mp h
  obtain ⟨keyBytes, hkey, h⟩ := Except.bind_eq_ok.mp h
  obtain ⟨valueBytes, hvalue, h⟩ := Except.bind_eq_ok.mp h
  obtain ⟨haligned, h⟩ := ite_error_eq_ok.mp h
  obtain rfl := Except.ok.inj h
  obtain ⟨-, hkey⟩ := hwidth hkey
  obtain ⟨htensors, hvalue⟩ := hwidth hvalue
  rw [not_or, not_not, not_not] at haligned
  have hstores : Stores layout (keyBytes / 4) (valueBytes / 4) :=
    ⟨hvalid, htensors, hkey.trans (Nat.mul_div_cancel' haligned.1).symm,
      hvalue.trans (Nat.mul_div_cancel' haligned.2).symm⟩
  have hsized : Sized layout (keyBytes / 4) (valueBytes / 4)
      ⟨layout, List.replicate layout.totalByteLen 0, keyBytes / 4, valueBytes / 4⟩ :=
    ⟨rfl, rfl, rfl, List.length_replicate⟩
  refine ⟨hstores, hsized, fun {layer slot} hlayer hslot => ?_⟩
  refine (readEntry_eq_ok_iff hsized hstores).mpr ⟨⟨hlayer, hslot⟩, ?_⟩
  rw [loadFloats_zeros (hstores.cell_key layer slot) (hstores.cell_stop_le hlayer two_pos hslot),
    loadFloats_zeros (hstores.cell_value layer slot)
      (hstores.cell_stop_le hlayer one_lt_two hslot)]
  rfl

end Cells

end CpuReferenceKvCache

/-- **What is gathered is what was written last**, after any sequence of writes to a new cache: the
floats of the latest calls, in the order of the slots, and zeros for a slot without one. -/
theorem cpu_kv_cache_gathers_latest {F : Type} [KernelFloat F] {layout : PagedKvCacheLayout}
    {cache : CpuReferenceKvCache} {dtype : KvCacheDtype} (hbuilt : layout.IsBuilt 64)
    (hnew : CpuReferenceKvCache.new dtype layout = .ok cache)
    (calls : List (CpuReferenceKvCache.Write F)) (layer : ℕ) (slots : List ℕ)
    (gathered : List F × List F) :
    (calls.foldl CpuReferenceKvCache.apply cache).gather layer slots = .ok gathered ↔
      (slots.length * cache.keyWidth < 2 ^ 64 ∧ slots.length * cache.valueWidth < 2 ^ 64) ∧
        (∀ slot ∈ slots, layer < layout.runtime.numLayers ∧ slot < layout.slotCount) ∧
        gathered =
          (slots.flatMap fun slot =>
            (CpuReferenceKvCache.latest cache.keyWidth cache.valueWidth calls (layer, slot)).1,
          slots.flatMap fun slot =>
            (CpuReferenceKvCache.latest cache.keyWidth cache.valueWidth calls (layer, slot)).2) := by
  obtain ⟨hstores, hrepresents⟩ := CpuReferenceKvCache.represents_of_new (F := F) hbuilt hnew
  have hafter := hrepresents.foldl_apply hstores calls
  have hread (slot : ℕ) (entry : List F × List F) :
      (calls.foldl CpuReferenceKvCache.apply cache).readEntry layer slot = .ok entry ↔
        (layer < layout.runtime.numLayers ∧ slot < layout.slotCount) ∧
          entry = CpuReferenceKvCache.latest cache.keyWidth cache.valueWidth calls (layer, slot) := by
    constructor
    · intro hok
      obtain ⟨hrange, -⟩ := (CpuReferenceKvCache.readEntry_eq_ok_iff hafter.sized hstores).mp hok
      exact ⟨hrange, Except.ok.inj (hok.symm.trans (hafter.readEntry_eq hrange.1 hrange.2))⟩
    · rintro ⟨hrange, rfl⟩
      exact hafter.readEntry_eq hrange.1 hrange.2
  rw [CpuReferenceKvCache.gather, hafter.sized.keyWidth_eq, hafter.sized.valueWidth_eq]
  simp only [Except.bind_eq_ok, CpuReferenceKvCache.checkCapacity_eq_ok, mapM_eq_ok_iff_map hread]
  constructor
  · rintro ⟨-, hcapacity, _, ⟨hrange, rfl⟩, hok⟩
    refine ⟨hcapacity, hrange, (Except.ok.inj hok).symm.trans ?_⟩
    rw [List.flatMap_map, List.flatMap_map]
  · rintro ⟨hcapacity, hrange, rfl⟩
    refine ⟨(), hcapacity, _, ⟨hrange, rfl⟩, ?_⟩
    rw [List.flatMap_map, List.flatMap_map]
    rfl

/-- A cache of two slots, after a write to the second one. -/
theorem cpu_kv_cache_gathers_second_slot :
    ∃ layout cache, PagedKvCacheLayout.new 64 ⟨1, 1, 1, 1, 2, 8, 8⟩ 2 = .ok layout ∧
      CpuReferenceKvCache.new .float32 layout = .ok cache ∧
      (cache.apply (⟨0, 1, [3], [4]⟩ : CpuReferenceKvCache.Write OctalFloat)).gather 0 [1, 0] =
        .ok (([3, 0], [4, 0]) : List OctalFloat × List OctalFloat) := by
  have hlayout : PagedKvCacheLayout.new 64 ⟨1, 1, 1, 1, 2, 8, 8⟩ 2 =
      .ok ⟨⟨1, 1, 1, 1, 2, 8, 8⟩, 2, 8, 8, .uniform 4 4, 16, 2⟩ := rfl
  have hcache : CpuReferenceKvCache.new .float32 ⟨⟨1, 1, 1, 1, 2, 8, 8⟩, 2, 8, 8, .uniform 4 4, 16, 2⟩ =
      .ok ⟨⟨⟨1, 1, 1, 1, 2, 8, 8⟩, 2, 8, 8, .uniform 4 4, 16, 2⟩, List.replicate 16 0, 1, 1⟩ := rfl
  exact ⟨_, _, hlayout, hcache, (cpu_kv_cache_gathers_latest (.new _ _ hlayout) hcache
    [(⟨0, 1, [3], [4]⟩ : CpuReferenceKvCache.Write OctalFloat)] 0 [1, 0] _).mpr
      ⟨by decide, by decide, rfl⟩⟩

end SglangRs
