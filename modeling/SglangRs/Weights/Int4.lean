import Mathlib.Data.Nat.Digits.Defs
import Mathlib.Data.Rat.Defs
import Mathlib.Tactic.NormNum
import SglangRs.Collections.Classes
import SglangRs.Collections.Rows
import SglangRs.Weights.Safetensors

/-!
# Weights of four bits

A compressed weight matrix is stored as three tensors: words of 32 bits that hold eight entries
each, one scale for every group of columns of a row, and the shape of the matrix
(`sglang-srt/src/compressed_tensors.rs`, lines 19–178). Loading checks the shapes of the tensors;
the entries are decoded later without a further check.

The tensors are those of a function that reads a tensor by its name. Floats and their arithmetic are
abstract. An index out of range is a panic; the allocation of the values is taken to succeed.

## Main definitions

* `CompressedTensorsInt4Weight.load`, `CompressedTensorsInt4Weight.dequantizeF32`.
* `nibbleOf`, `packInt4`: the layout of a word.

## Main results

* `CompressedTensorsInt4Weight.shaped_of_load`: a weight that was loaded has enough words and
  scales.
* `int4_weights_decode_exactly`: the entries of a weight, and those of a matrix that was packed.
-/

namespace SglangRs

/-! ### Decoding of tensors -/

/-- The floats that scales are decoded to. -/
class ScaleFloat (F : Type) where
  fromBits : UInt32 → F
  f16ToF32 : UInt16 → F
  f8E4m3fnToF32 : UInt8 → F
  fromInt : ℤ → F
  mul : F → F → F

inductive SafetensorsTensorDecodeError where
  | unsupportedDtype (dtype : String)
  | invalidByteLength (dtype : String) (byteLen : ℕ)
deriving DecidableEq, Repr

/-- The words of the bytes, if there is no rest. -/
def decodeWords {α ε : Type} [LeWord α] (bytes : Bytes) (error : ε) : Except ε (List α) :=
  if bytes.length % LeWord.width α ≠ 0 then .error error
  else .ok ((chunksExact (LeWord.width α) bytes).map unpackWord)

section Decode

variable {F : Type} [ScaleFloat F]

/-- Source: `model_artifacts.rs`, lines 885–897. -/
def decodeF32Bytes (bytes : Bytes) : Except SafetensorsTensorDecodeError (List F) := do
  let words : List UInt32 ← decodeWords bytes (.invalidByteLength "F32" bytes.length)
  return words.map ScaleFloat.fromBits

/-- Source: `model_artifacts.rs`, lines 899–915. -/
def decodeU16FloatBytes (dtype : String) (bytes : Bytes) (decode : UInt16 → F) :
    Except SafetensorsTensorDecodeError (List F) := do
  let words : List UInt16 ← decodeWords bytes (.invalidByteLength dtype bytes.length)
  return words.map decode

def bf16ToF32 (bits : UInt16) : F := ScaleFloat.fromBits (bits.toUInt32 <<< 16)

/-- Source: `model_artifacts.rs`, lines 850–860. -/
def SafetensorsTensorData.decodeF32Values (data : SafetensorsTensorData) :
    Except SafetensorsTensorDecodeError (List F) :=
  match data.metadata.dtype with
  | "F32" => decodeF32Bytes data.bytes
  | "BF16" => decodeU16FloatBytes "BF16" data.bytes bf16ToF32
  | "F16" => decodeU16FloatBytes "F16" data.bytes ScaleFloat.f16ToF32
  | "F8_E4M3" => .ok (data.bytes.map ScaleFloat.f8E4m3fnToF32)
  | dtype => .error (.unsupportedDtype dtype)

end Decode

/-! ### Loading -/

inductive CompressedTensorsError where
  | artifact (error : ModelArtifactError)
  | decode (error : SafetensorsTensorDecodeError)
  | invalid (message : String)
deriving DecidableEq, Repr

def int4PackedFactor : ℕ := 8

structure CompressedTensorsInt4Weight (F : Type) where
  rows : ℕ
  columns : ℕ
  groupSize : ℕ
  packed : List Int32
  scales : List F

/-- A text without the given end. -/
def stripSuffix (text ending : String) : Option String :=
  if ending.toList <:+ text.toList then
    some (String.ofList (text.toList.take (text.toList.length - ending.toList.length)))
  else none

/-- The tensors of a model, by name. -/
abbrev TensorReader := String → Except ModelArtifactError (Option SafetensorsTensorData)

/-- Source: `compressed_tensors.rs`, lines 117–125. -/
def readRequired (readTensor : TensorReader) (name : String) :
    Except CompressedTensorsError SafetensorsTensorData :=
  match readTensor name with
  | .error error => .error (.artifact error)
  | .ok none => .error (.invalid ("missing tensor " ++ name))
  | .ok (some data) => .ok data

/-- Source: `compressed_tensors.rs`, lines 127–139. -/
def validateShape (tensor : SafetensorsTensorData) (name : String) (expected : List ℕ) :
    Except CompressedTensorsError Unit :=
  if tensor.metadata.shape ≠ expected then
    .error (.invalid <| s!"compressed tensor {name} shape {tensor.metadata.shape} " ++
      s!"does not match expected {expected}")
  else .ok ()

/-- Source: `compressed_tensors.rs`, lines 141–155. -/
def decodeI32 (tensor : SafetensorsTensorData) (name : String) :
    Except CompressedTensorsError (List Int32) :=
  decodeWords tensor.bytes
    (.invalid s!"compressed INT4 tensor {name} has invalid byte length {tensor.bytes.length}")

/-- One entry of a shape. -/
def decodeDimension (name : String) (chunk : Bytes) : Except CompressedTensorsError ℕ :=
  let value : Int64 := unpackWord chunk
  if value.toInt < 0 then
    .error (.invalid
      s!"compressed tensor {name} dimension {value.toInt} cannot be represented as usize")
  else .ok value.toInt.toNat

/-- Source: `compressed_tensors.rs`, lines 157–178. -/
def decodeShape (tensor : SafetensorsTensorData) (name : String) :
    Except CompressedTensorsError (List ℕ) :=
  if tensor.metadata.dtype ≠ "I64" ∨ tensor.bytes.length ≠ 16 then
    .error (.invalid s!"compressed tensor {name} must contain two I64 dimensions")
  else (chunksExact 8 tensor.bytes).mapM (decodeDimension name)

/-- The scales of a tensor, with the error of the tensor as one of the weight. -/
def decodeScales {F : Type} [ScaleFloat F] (tensor : SafetensorsTensorData) :
    Except CompressedTensorsError (List F) :=
  match (tensor.decodeF32Values : Except SafetensorsTensorDecodeError (List F)) with
  | .ok values => .ok values
  | .error error => .error (.decode error)

namespace CompressedTensorsInt4Weight

/-- Source: `compressed_tensors.rs`, lines 20–75. -/
def load {F : Type} [ScaleFloat F] (readTensor : TensorReader) (logicalWeightName : String)
    (rows columns groupSize : ℕ) :
    Except CompressedTensorsError (CompressedTensorsInt4Weight F) :=
  if rows = 0 ∨ columns = 0 ∨ groupSize = 0 then
    .error (.invalid <| s!"compressed INT4 tensor {logicalWeightName} " ++
      "dimensions and group size must be non-zero")
  else if columns % int4PackedFactor ≠ 0 ∨ columns % groupSize ≠ 0 then
    .error (.invalid <| s!"compressed INT4 tensor {logicalWeightName} input width {columns} " ++
      s!"must be divisible by packed factor {int4PackedFactor} and group size {groupSize}")
  else do
    let base ← okOr
      (.invalid s!"compressed INT4 logical weight name {logicalWeightName} must end in .weight")
      (stripSuffix logicalWeightName ".weight")
    let packedName := base ++ ".weight_packed"
    let scaleName := base ++ ".weight_scale"
    let shapeName := base ++ ".weight_shape"
    let packed ← readRequired readTensor packedName
    let scales ← readRequired readTensor scaleName
    let shape ← readRequired readTensor shapeName
    validateShape packed packedName [rows, columns / int4PackedFactor]
    validateShape scales scaleName [rows, columns / groupSize]
    validateShape shape shapeName [2]
    if packed.metadata.dtype ≠ "I32" then
      .error (.invalid <| s!"compressed INT4 tensor {packedName} must use safetensors I32, " ++
        s!"found {packed.metadata.dtype}")
    else if scales.metadata.dtype ∉ ["F32", "F16", "BF16"] then
      .error (.invalid <| s!"compressed INT4 tensor {scaleName} must use F32, F16, or BF16 " ++
        s!"scales, found {scales.metadata.dtype}")
    else
      let originalShape ← decodeShape shape shapeName
      if originalShape ≠ [rows, columns] then
        .error (.invalid <| s!"compressed INT4 tensor {shapeName} declares original shape " ++
          s!"{originalShape}, expected [{rows}, {columns}]")
      else
        let packed ← decodeI32 packed packedName
        let scales ← decodeScales scales
        return { rows, columns, groupSize, packed, scales }

/-! ### Decoding of entries -/

variable {F ε : Type} [ScaleFloat F] (weight : CompressedTensorsInt4Weight F)

/-- The body of the loop over the columns. -/
def dequantizeEntry (packedColumns groupsPerRow row column : ℕ) : RustResult ε F := do
  let value ← elementAt weight.packed (row * packedColumns + column / int4PackedFactor)
  let word := value.toUInt32
  let nibble : ℤ := ((word >>> UInt32.ofNat (column % int4PackedFactor * 4)) &&& 0x0f).toNat
  let quantized := nibble - 8
  let group ← usizeDiv column weight.groupSize
  let scale ← elementAt weight.scales (row * groupsPerRow + group)
  return ScaleFloat.mul (ScaleFloat.fromInt quantized) scale

/-- Source: `compressed_tensors.rs`, lines 100–114. -/
def dequantizeF32 : RustResult ε (List F) := do
  let packedColumns := weight.columns / int4PackedFactor
  let groupsPerRow ← usizeDiv weight.columns weight.groupSize
  let values ← RustResult.collect (fun row =>
    RustResult.collect (weight.dequantizeEntry packedColumns groupsPerRow row)
      (List.range weight.columns)) (List.range weight.rows)
  return values.flatten

end CompressedTensorsInt4Weight

/-! ### The layout of a word -/

/-- The field of four bits at a position of a word, the lowest first. -/
def nibbleOf (word : Int32) (position : ℕ) : ℕ := word.toUInt32.toNat / 16 ^ position % 16

/-- The word of eight integers from −8 to 7, the first in the lowest bits. -/
def packNibbles (entries : List ℤ) : Int32 :=
  (UInt32.ofNat (Nat.ofDigits 16 (entries.map fun entry => (entry + 8).toNat))).toInt32

/-- The words of a matrix, row after row. -/
def packInt4 (rows columns : ℕ) (entries : ℕ → ℕ → ℤ) : List Int32 :=
  (List.range rows).flatMap fun row => (List.range (columns / int4PackedFactor)).map fun j =>
    packNibbles ((List.range int4PackedFactor).map fun i => entries row (int4PackedFactor * j + i))

theorem nibbleOf_packNibbles {entries : List ℤ} (hlength : entries.length = int4PackedFactor)
    (hentries : ∀ entry ∈ entries, -8 ≤ entry ∧ entry ≤ 7) {i : ℕ} {entry : ℤ}
    (hi : entries[i]? = some entry) : (nibbleOf (packNibbles entries) i : ℤ) = entry + 8 := by
  let digits : List ℕ := entries.map fun entry => (entry + 8).toNat
  have hdigits : ∀ digit ∈ digits, digit < 16 := by
    intro digit hdigit
    obtain ⟨entry, hentry, rfl⟩ := List.mem_map.mp hdigit
    have := hentries entry hentry
    omega
  have hlt : Nat.ofDigits 16 digits < 2 ^ 32 := by
    calc Nat.ofDigits 16 digits < 16 ^ digits.length :=
          Nat.ofDigits_lt_base_pow_length (by decide) hdigits
      _ = 2 ^ 32 := by rw [List.length_map, hlength]; rfl
  have hword : (packNibbles entries).toUInt32.toNat = Nat.ofDigits 16 digits :=
    UInt32.toNat_ofNat_of_lt' hlt
  have hdrop : digits.drop i = (entry + 8).toNat :: digits.drop (i + 1) := by
    obtain ⟨hlt, hget⟩ := List.getElem?_eq_some_iff.mp hi
    rw [List.drop_eq_getElem_cons (by rwa [List.length_map]), List.getElem_map, hget]
  have hentry := hentries entry (List.mem_of_getElem? hi)
  rw [nibbleOf, hword, Nat.ofDigits_div_pow_eq_ofDigits_drop i (by decide) digits hdigits, hdrop,
    Nat.ofDigits_cons]
  omega

/-- The field of a packed matrix at a row and a column. -/
theorem nibbleOf_packInt4 {rows columns : ℕ} (hdvd : int4PackedFactor ∣ columns)
    {entries : ℕ → ℕ → ℤ}
    (hentries : ∀ row < rows, ∀ column < columns, -8 ≤ entries row column ∧ entries row column ≤ 7)
    {row column : ℕ} (hrow : row < rows) (hcolumn : column < columns) {word : Int32}
    (hword : (packInt4 rows columns entries)[row * (columns / 8) + column / 8]? = some word) :
    (nibbleOf word (column % 8) : ℤ) - 8 = entries row column := by
  have hj : column / 8 < columns / 8 := Nat.div_lt_div_of_lt_of_dvd hdvd hcolumn
  have hcolumns : columns / 8 * 8 = columns := Nat.div_mul_cancel hdvd
  rw [packInt4, Rows.getElem?_flatMap (fun _ _ => by rw [List.length_map, List.length_range]; rfl)
    hj] at hword
  simp only [List.getElem?_range hrow, List.getElem?_map, int4PackedFactor, List.getElem?_range hj,
    Option.bind_some, Option.map_some, Option.some.injEq] at hword
  have hget : ((List.range 8).map fun i => entries row (8 * (column / 8) + i))[column % 8]? =
      some (entries row column) := by
    rw [List.getElem?_map, List.getElem?_range (Nat.mod_lt _ (by decide)), Option.map_some,
      Nat.div_add_mod]
  rw [← hword, nibbleOf_packNibbles (by simp [int4PackedFactor]) _ hget, add_sub_cancel_right]
  intro entry hentry
  obtain ⟨i, hi, rfl⟩ := List.mem_map.mp hentry
  rw [List.mem_range] at hi
  exact hentries row hrow _ (by omega)

/-! ### What loading guarantees -/

section Load

variable {F : Type} [ScaleFloat F]

theorem decodeWords_eq_ok {α ε : Type} [LeWord α] {bytes : Bytes} {error : ε} {words : List α}
    (h : decodeWords bytes error = .ok words) :
    words = (chunksExact (LeWord.width α) bytes).map unpackWord ∧
      bytes.length = words.length * LeWord.width α := by
  obtain ⟨hmod, h⟩ := ite_error_eq_ok.mp h
  obtain rfl := Except.ok.inj h
  refine ⟨rfl, ?_⟩
  rw [List.length_map, chunksExact, length_takeChunks,
    Nat.div_mul_cancel (Nat.dvd_of_mod_eq_zero (not_not.mp hmod))]

theorem readRequired_eq_ok {readTensor : TensorReader} {name : String}
    {data : SafetensorsTensorData} :
    readRequired readTensor name = .ok data ↔ readTensor name = .ok (some data) := by
  unfold readRequired
  cases readTensor name with
  | error e => simp
  | ok found => cases found <;> simp

theorem validateShape_eq_ok {tensor : SafetensorsTensorData} {name : String} {expected : List ℕ}
    (h : validateShape tensor name expected = .ok ()) : tensor.metadata.shape = expected :=
  not_not.mp (ite_error_eq_ok.mp h).1

/-- A tensor of a shape and a width has as many bytes. -/
theorem SafetensorsTensorData.WellSized.length_eq {data : SafetensorsTensorData}
    (h : data.WellSized) {shape : List ℕ} (hshape : data.metadata.shape = shape) {width : ℕ}
    (hwidth : data.metadata.dtypeByteWidth = some width) :
    data.bytes.length = shape.prod * width := by
  obtain ⟨count, width', hcount, hwidth', hlength⟩ := h
  rw [hwidth] at hwidth'
  obtain rfl := Option.some.inj hwidth'
  rw [hlength, shapeElementCount_eq_some hcount, hshape]

/-- The words of a tensor are as many as its elements. -/
theorem length_of_decodeWords {α ε : Type} [LeWord α] {data : SafetensorsTensorData}
    (h : data.WellSized) {shape : List ℕ} (hshape : data.metadata.shape = shape)
    (hwidth : data.metadata.dtypeByteWidth = some (LeWord.width α)) {error : ε} {words : List α}
    (hwords : decodeWords data.bytes error = .ok words) : words.length = shape.prod := by
  have hlength := (decodeWords_eq_ok hwords).2
  rw [h.length_eq hshape hwidth] at hlength
  exact (Nat.eq_of_mul_eq_mul_right LeWord.width_pos hlength).symm

theorem length_of_decodeF32Bytes {data : SafetensorsTensorData} (h : data.WellSized)
    {shape : List ℕ} (hshape : data.metadata.shape = shape)
    (hwidth : data.metadata.dtypeByteWidth = some 4) {values : List F}
    (hvalues : decodeF32Bytes data.bytes = .ok values) : values.length = shape.prod := by
  obtain ⟨words, hwords, hmap⟩ := Except.bind_eq_ok.mp hvalues
  rw [← Except.ok.inj hmap, List.length_map]
  exact length_of_decodeWords h hshape hwidth hwords

omit [ScaleFloat F] in
theorem length_of_decodeU16FloatBytes {data : SafetensorsTensorData} (h : data.WellSized)
    {shape : List ℕ} (hshape : data.metadata.shape = shape)
    (hwidth : data.metadata.dtypeByteWidth = some 2) {dtype : String} {decode : UInt16 → F}
    {values : List F} (hvalues : decodeU16FloatBytes dtype data.bytes decode = .ok values) :
    values.length = shape.prod := by
  obtain ⟨words, hwords, hmap⟩ := Except.bind_eq_ok.mp hvalues
  rw [← Except.ok.inj hmap, List.length_map]
  exact length_of_decodeWords h hshape hwidth hwords

theorem decodeScales_eq_ok {data : SafetensorsTensorData} {scales : List F} :
    decodeScales data = .ok scales ↔ data.decodeF32Values = .ok scales := by
  unfold decodeScales
  cases (data.decodeF32Values : Except SafetensorsTensorDecodeError (List F)) <;> simp

/-- The scales of a tensor are as many as its elements. -/
theorem length_of_decodeScales {data : SafetensorsTensorData} (h : data.WellSized)
    {shape : List ℕ} (hshape : data.metadata.shape = shape)
    (hdtype : data.metadata.dtype ∈ ["F32", "F16", "BF16"]) {scales : List F}
    (hscales : decodeScales data = .ok scales) : scales.length = shape.prod := by
  have hwidth : data.metadata.dtypeByteWidth = safetensorsDtypeByteWidth data.metadata.dtype := rfl
  rw [decodeScales_eq_ok, SafetensorsTensorData.decodeF32Values] at hscales
  simp only [List.mem_cons, List.not_mem_nil, or_false] at hdtype
  obtain hdtype | hdtype | hdtype := hdtype <;> rw [hdtype] at hwidth hscales
  · exact length_of_decodeF32Bytes h hshape hwidth hscales
  · exact length_of_decodeU16FloatBytes h hshape hwidth hscales
  · exact length_of_decodeU16FloatBytes h hshape hwidth hscales

namespace CompressedTensorsInt4Weight

/-- The tensors of the words and of the scales of a weight. -/
def StoredAs (readTensor : TensorReader) (name : String) (packed scales : SafetensorsTensorData) :
    Prop :=
  ∃ base, stripSuffix name ".weight" = some base ∧
    readTensor (base ++ ".weight_packed") = .ok (some packed) ∧
    readTensor (base ++ ".weight_scale") = .ok (some scales)

/-- A weight with a word for every eight columns and a scale for every group of every row. -/
structure Shaped (weight : CompressedTensorsInt4Weight F) : Prop where
  groupSize_pos : 0 < weight.groupSize
  factor_dvd : int4PackedFactor ∣ weight.columns
  groupSize_dvd : weight.groupSize ∣ weight.columns
  packed_length : weight.packed.length = weight.rows * (weight.columns / int4PackedFactor)
  scales_length : weight.scales.length = weight.rows * (weight.columns / weight.groupSize)

/-- **Loading.** A weight that was loaded has the sizes asked for, and the words and the scales of
its tensors. -/
theorem shaped_of_load {readTensor : TensorReader}
    (hread : ∀ name data, readTensor name = .ok (some data) → data.WellSized) {name : String}
    {rows columns groupSize : ℕ} {weight : CompressedTensorsInt4Weight F}
    (h : load readTensor name rows columns groupSize = .ok weight) :
    (weight.rows = rows ∧ weight.columns = columns ∧ weight.groupSize = groupSize) ∧
      weight.Shaped ∧ ∃ packed scales, StoredAs readTensor name packed scales ∧
        weight.packed = (chunksExact 4 packed.bytes).map unpackWord ∧
        scales.decodeF32Values = .ok weight.scales := by
  simp only [load, ite_error_eq_ok, Except.bind_eq_ok, okOr_eq_ok, readRequired_eq_ok] at h
  obtain ⟨hzero, hdvd, base, hbase, packed, hpacked, scales, hscales, shape, -, _, hpackedShape, _,
    hscalesShape, _, -, hpackedType, hscalesType, _, -, -, words, hwords, values, hvalues, h⟩ := h
  obtain rfl := Except.ok.inj h
  have hwidth : packed.metadata.dtypeByteWidth = some 4 := by
    rw [SafetensorsTensorMetadata.dtypeByteWidth, not_not.mp hpackedType]
    rfl
  have hwordCount := length_of_decodeWords (hread _ _ hpacked) (validateShape_eq_ok hpackedShape)
    hwidth hwords
  have hscaleCount := length_of_decodeScales (hread _ _ hscales) (validateShape_eq_ok hscalesShape)
    (not_not.mp hscalesType) hvalues
  obtain ⟨hfactor, hgroup⟩ := not_or.mp hdvd
  refine ⟨⟨rfl, rfl, rfl⟩, ⟨by dsimp only; omega, Nat.dvd_of_mod_eq_zero (not_not.mp hfactor),
    Nat.dvd_of_mod_eq_zero (not_not.mp hgroup), ?_, ?_⟩, packed, scales,
    ⟨base, hbase, hpacked, hscales⟩, (decodeWords_eq_ok hwords).1, decodeScales_eq_ok.mp hvalues⟩
  · simpa using hwordCount
  · simpa using hscaleCount

/-! ### What decoding returns -/

variable {weight : CompressedTensorsInt4Weight F}

theorem toNat_shiftRight_and (word : UInt32) {i : ℕ} (hi : i < 8) :
    ((word >>> UInt32.ofNat (i * 4)) &&& 0x0f).toNat = word.toNat / 16 ^ i % 16 := by
  have hshift : (UInt32.ofNat (i * 4)).toNat % 32 = 4 * i := by
    rw [UInt32.toNat_ofNat']
    omega
  have hand : (0x0f : UInt32).toNat = 2 ^ 4 - 1 := rfl
  rw [UInt32.toNat_and, UInt32.toNat_shiftRight, hshift, hand, Nat.and_two_pow_sub_one_eq_mod,
    Nat.shiftRight_eq_div_pow, pow_mul]
  rfl

/-- The word and the scale of an entry are there, and the entry is their product. -/
theorem Shaped.dequantizeEntry_eq {ε : Type} (h : weight.Shaped) {row column : ℕ}
    (hrow : row < weight.rows) (hcolumn : column < weight.columns) : ∃ word scale,
      weight.packed[row * (weight.columns / 8) + column / 8]? = some word ∧
      weight.scales[row * (weight.columns / weight.groupSize) + column / weight.groupSize]? =
        some scale ∧
      (weight.dequantizeEntry (weight.columns / int4PackedFactor)
        (weight.columns / weight.groupSize) row column : RustResult ε F) =
          .ok (ScaleFloat.mul (ScaleFloat.fromInt (nibbleOf word (column % 8) - 8)) scale) := by
  have hword : row * (weight.columns / 8) + column / 8 < weight.packed.length := by
    rw [h.packed_length]
    exact Classes.mul_add_lt hrow (Nat.div_lt_div_of_lt_of_dvd h.factor_dvd hcolumn)
  have hscale : row * (weight.columns / weight.groupSize) + column / weight.groupSize <
      weight.scales.length := by
    rw [h.scales_length]
    exact Classes.mul_add_lt hrow (Nat.div_lt_div_of_lt_of_dvd h.groupSize_dvd hcolumn)
  refine ⟨_, _, List.getElem?_eq_getElem hword, List.getElem?_eq_getElem hscale, ?_⟩
  have hnibble := toNat_shiftRight_and
    (weight.packed[row * (weight.columns / 8) + column / 8]).toUInt32 (Nat.mod_lt column (by decide : 0 < 8))
  rw [dequantizeEntry, usizeDiv_ok h.groupSize_pos]
  simp only [int4PackedFactor, elementAt_ok (List.getElem?_eq_getElem hword),
    elementAt_ok (List.getElem?_eq_getElem hscale), RustResult.ok_bind, RustResult.pure_eq, hnibble,
    nibbleOf]

/-- **Decoding.** There is one value for each entry, and no index is out of range. -/
theorem Shaped.dequantizeF32_eq {ε : Type} (h : weight.Shaped) : ∃ values,
    (weight.dequantizeF32 : RustResult ε (List F)) = .ok values ∧
      values.length = weight.rows * weight.columns ∧
      ∀ row < weight.rows, ∀ column < weight.columns, ∃ word scale,
        weight.packed[row * (weight.columns / 8) + column / 8]? = some word ∧
        weight.scales[row * (weight.columns / weight.groupSize) + column / weight.groupSize]? =
          some scale ∧
        values[row * weight.columns + column]? =
          some (ScaleFloat.mul (ScaleFloat.fromInt (nibbleOf word (column % 8) - 8)) scale) := by
  have : Nonempty F := ⟨ScaleFloat.fromInt 0⟩
  choose! word scale hword hscale hentry using
    fun row (hrow : row < weight.rows) column (hcolumn : column < weight.columns) =>
      h.dequantizeEntry_eq (ε := ε) hrow hcolumn
  let valueAt (row column : ℕ) : F := ScaleFloat.mul
    (ScaleFloat.fromInt (nibbleOf (word row column) (column % 8) - 8)) (scale row column)
  have hcollect : RustResult.collect (fun row =>
      RustResult.collect (weight.dequantizeEntry (weight.columns / int4PackedFactor)
        (weight.columns / weight.groupSize) row) (List.range weight.columns))
        (List.range weight.rows) = (.ok ((List.range weight.rows).map fun row =>
          (List.range weight.columns).map (valueAt row)) : RustResult ε _) :=
    RustResult.collect_eq_map fun row hrow => RustResult.collect_eq_map fun column hcolumn =>
      hentry row (List.mem_range.mp hrow) column (List.mem_range.mp hcolumn)
  have hwidth : ∀ row ∈ List.range weight.rows,
      ((List.range weight.columns).map (valueAt row)).length = weight.columns := by simp
  refine ⟨(List.range weight.rows).flatMap fun row => (List.range weight.columns).map (valueAt row),
    ?_, ?_, fun row hrow column hcolumn => ?_⟩
  · rw [dequantizeF32, usizeDiv_ok h.groupSize_pos, RustResult.ok_bind, hcollect,
      RustResult.ok_bind, RustResult.pure_eq, List.flatMap_def]
  · rw [Rows.length_flatMap_const hwidth, List.length_range]
  · refine ⟨word row column, scale row column, hword row hrow column hcolumn,
      hscale row hrow column hcolumn, ?_⟩
    rw [Rows.getElem?_flatMap hwidth hcolumn]
    simp [hrow, hcolumn, valueAt]

end CompressedTensorsInt4Weight

end Load

open CompressedTensorsInt4Weight in
/-- **Weights of four bits.** For every reader of tensors that gives each tensor the bytes its shape
asks for, a weight that was loaded is decoded without an index out of range, to one value for each
row and column: the field of the column in its word, less eight, times the scale of its group. If
the words are those of a matrix of integers from −8 to 7, then the fields are the integers. -/
theorem int4_weights_decode_exactly {F ε : Type} [ScaleFloat F] {readTensor : TensorReader}
    (hread : ∀ name data, readTensor name = .ok (some data) → data.WellSized) {name : String}
    {rows columns groupSize : ℕ} {weight : CompressedTensorsInt4Weight F}
    (h : load readTensor name rows columns groupSize = .ok weight) :
    ∃ packed scales scaleValues values, StoredAs readTensor name packed scales ∧
      scales.decodeF32Values = .ok scaleValues ∧
      (weight.dequantizeF32 : RustResult ε (List F)) = .ok values ∧
      values.length = rows * columns ∧
      (∀ row < rows, ∀ column < columns, ∃ chunk scale,
        (chunksExact 4 packed.bytes)[row * (columns / 8) + column / 8]? = some chunk ∧
        scaleValues[row * (columns / groupSize) + column / groupSize]? = some scale ∧
        values[row * columns + column]? = some (ScaleFloat.mul
          (ScaleFloat.fromInt (nibbleOf (unpackWord chunk) (column % 8) - 8)) scale)) ∧
      ∀ entries : ℕ → ℕ → ℤ,
        (∀ row < rows, ∀ column < columns, -8 ≤ entries row column ∧ entries row column ≤ 7) →
        packed.bytes = packWords (packInt4 rows columns entries) →
        ∀ row < rows, ∀ column < columns, ∃ scale,
          scaleValues[row * (columns / groupSize) + column / groupSize]? = some scale ∧
          values[row * columns + column]? =
            some (ScaleFloat.mul (ScaleFloat.fromInt (entries row column)) scale) := by
  obtain ⟨⟨rfl, rfl, rfl⟩, hshaped, packed, scales, hstored, hwords, hscales⟩ :=
    shaped_of_load hread h
  obtain ⟨values, hvalues, hlength, hentry⟩ := hshaped.dequantizeF32_eq (ε := ε)
  refine ⟨packed, scales, weight.scales, values, hstored, hscales, hvalues, hlength, ?_, ?_⟩
  · intro row hrow column hcolumn
    obtain ⟨word, scale, hword, hscale, hvalue⟩ := hentry row hrow column hcolumn
    rw [hwords, List.getElem?_map, Option.map_eq_some_iff] at hword
    obtain ⟨chunk, hchunk, rfl⟩ := hword
    exact ⟨chunk, scale, hchunk, hscale, hvalue⟩
  · intro entries hentries hbytes row hrow column hcolumn
    obtain ⟨word, scale, hword, hscale, hvalue⟩ := hentry row hrow column hcolumn
    have hpacked : weight.packed = packInt4 weight.rows weight.columns entries := by
      rw [hwords, hbytes]
      exact map_unpackWord_packWords _
    rw [hpacked] at hword
    rw [nibbleOf_packInt4 hshaped.factor_dvd hentries hrow hcolumn hword] at hvalue
    exact ⟨scale, hscale, hvalue⟩

/-- The value of a binary floating-point number that is normal, of a sign, an exponent and a
fraction. -/
def normalFloat (exponentBits fractionBits bits : ℕ) : ℚ :=
  let fraction : ℚ := 1 + (bits % 2 ^ fractionBits : ℕ) / 2 ^ fractionBits
  let exponent : ℤ :=
    (bits / 2 ^ fractionBits % 2 ^ exponentBits : ℕ) - (2 ^ (exponentBits - 1) - 1)
  (-1) ^ (bits / 2 ^ (fractionBits + exponentBits)) * fraction * 2 ^ exponent

/-- Exact floats. -/
instance : ScaleFloat ℚ where
  fromBits bits := normalFloat 8 23 bits.toNat
  f16ToF32 bits := normalFloat 5 10 bits.toNat
  f8E4m3fnToF32 bits := normalFloat 4 3 bits.toNat
  fromInt value := value
  mul a b := a * b

theorem fromBits_two : (ScaleFloat.fromBits 0x40000000 : ℚ) = 2 := by
  change normalFloat 8 23 0x40000000 = 2
  norm_num [normalFloat]

/-- One row of the integers from −4 to 3, with the scale 2. -/
def exampleHeader : SafetensorsHeader where
  headerLen := 192
  tensors name :=
    if name = "w.weight_packed" then some ⟨"I32", [1, 1], (0, 4)⟩
    else if name = "w.weight_scale" then some ⟨"F32", [1, 1], (4, 8)⟩
    else if name = "w.weight_shape" then some ⟨"I64", [2], (8, 24)⟩
    else none

def exampleFile : Bytes :=
  .replicate 200 0 ++ [0x54, 0x76, 0x98, 0xba, 0, 0, 0, 0x40, 1, 0, 0, 0, 0, 0, 0, 0,
    8, 0, 0, 0, 0, 0, 0, 0]

def exampleTensors : TensorReader := exampleHeader.readTensor (fun _ => .ok exampleFile) "w"

def exampleWeight : CompressedTensorsInt4Weight ℚ :=
  ⟨1, 8, 8, [-1164413356], [ScaleFloat.fromBits 0x40000000]⟩

set_option maxRecDepth 4000 in
theorem load_exampleTensors : CompressedTensorsInt4Weight.load exampleTensors "w.weight" 1 8 8 =
    .ok exampleWeight := by rfl

set_option maxRecDepth 4000 in
/-- The theorem at one word. -/
theorem int4_weights_decode_exactly_of_one_word : ∃ values,
    (exampleWeight.dequantizeF32 : RustResult Unit (List ℚ)) = .ok values ∧ values.length = 8 ∧
      ∀ column : ℕ, column < 8 → values[column]? = some (((column : ℤ) - 4 : ℤ) * 2 : ℚ) := by
  obtain ⟨packed, scales, scaleValues, values, ⟨base, hbase, hpacked, hscales⟩, hscaleValues,
    hvalues, hlength, -, hentries⟩ := int4_weights_decode_exactly (ε := Unit)
      (fun _ _ => SafetensorsHeader.wellSized_of_readTensor) load_exampleTensors
  obtain rfl : "w" = base := Option.some.inj hbase
  obtain rfl := Option.some.inj (Except.ok.inj hpacked)
  obtain rfl := Option.some.inj (Except.ok.inj hscales)
  obtain rfl : [ScaleFloat.fromBits 0x40000000] = scaleValues := Except.ok.inj hscaleValues
  refine ⟨values, hvalues, hlength, fun column hcolumn => ?_⟩
  obtain ⟨scale, hscale, hvalue⟩ := hentries (fun _ column => column - 4) (by omega) (by decide) 0
    (by decide) column hcolumn
  have hgroup : 0 * (8 / 8) + column / 8 = 0 := by omega
  obtain rfl := Option.some.inj (hgroup ▸ hscale)
  rw [Nat.zero_mul, Nat.zero_add] at hvalue
  rw [hvalue, fromBits_two]
  rfl

end SglangRs
