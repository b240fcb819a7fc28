import Mathlib.Algebra.BigOperators.Ring.List
import Mathlib.Algebra.Order.Ring.Nat
import SglangRs.Arithmetic.Checked
import SglangRs.Wire.Slices

/-!
# Tensors in files

A safetensors file starts with the length of a header and the header, which names the type, the
shape and the place of every tensor (`sglang-srt/src/model_artifacts.rs`, lines 813–866, 1385–1450
and 1524–1610). The place of a tensor is checked against its shape and the length of the file before
anything is read.

A file system gives the bytes of a file, or the text of an error. The machine has 64 bits, where
conversions between `usize` and `u64` cannot fail.

## Main definitions

* `SafetensorsTensorMetadata.elementCount`, `SafetensorsTensorMetadata.dtypeByteWidth`.
* `SafetensorsHeader.tensorSpan`, `SafetensorsHeader.readTensor`.
* `SafetensorsTensorData.WellSized`: as many bytes as the shape asks for.

## Main results

* `shapeElementCount_eq_some`: the number of elements of a shape.
* `SafetensorsHeader.spanInFile_of_tensorSpan`: a span lies in its file.
* `SafetensorsHeader.wellSized_of_readTensor`: what is read has the size of its shape.
-/

namespace SglangRs

/-- The bytes of the files, where a file can be opened. -/
abbrev FileSystem := String → Except String Bytes

inductive ModelArtifactError where
  | readWeightShard (path message : String)
  | invalidSafetensorsData (path message : String)
deriving DecidableEq, Repr

/-- Source: `model_artifacts.rs`, lines 1942–1947. -/
def shapeElementCount (shape : List ℕ) : Option ℕ :=
  shape.foldlM (fun count dimension => checkedMul 64 count dimension) 1

/-- Source: `model_artifacts.rs`, lines 1949–1957. -/
def safetensorsDtypeByteWidth (dtype : String) : Option ℕ :=
  match dtype with
  | "BOOL" | "I8" | "U8" | "F8_E4M3" | "F8_E5M2" | "F8_E8M0" => some 1
  | "I16" | "U16" | "F16" | "BF16" => some 2
  | "I32" | "U32" | "F32" => some 4
  | "I64" | "U64" | "F64" => some 8
  | _ => none

structure SafetensorsTensorMetadata where
  dtype : String
  shape : List ℕ
  dataOffsets : ℕ × ℕ
deriving DecidableEq, Repr

namespace SafetensorsTensorMetadata

def elementCount (metadata : SafetensorsTensorMetadata) : Option ℕ :=
  shapeElementCount metadata.shape

def dtypeByteWidth (metadata : SafetensorsTensorMetadata) : Option ℕ :=
  safetensorsDtypeByteWidth metadata.dtype

end SafetensorsTensorMetadata

structure SafetensorsTensorData where
  metadata : SafetensorsTensorMetadata
  bytes : Bytes
deriving DecidableEq

structure SafetensorsTensorSpan where
  path : String
  metadata : SafetensorsTensorMetadata
  absoluteByteOffset : ℕ
  byteLen : ℕ
deriving DecidableEq, Repr

structure SafetensorsHeader where
  headerLen : ℕ
  tensors : String → Option SafetensorsTensorMetadata

/-! ### Files -/

/-- `File::open`. -/
def openShard (fs : FileSystem) (path : String) : Except ModelArtifactError Bytes :=
  match fs path with
  | .ok file => .ok file
  | .error message => .error (.readWeightShard path message)

/-- `seek` and `read_exact`: the bytes from an offset on. -/
def readExactAt (path : String) (file : Bytes) (offset len : ℕ) :
    Except ModelArtifactError Bytes :=
  if ((file.drop offset).take len).length = len then .ok ((file.drop offset).take len)
  else .error (.readWeightShard path "failed to fill whole buffer")

def invalidSafetensorsData (path message : String) : ModelArtifactError :=
  .invalidSafetensorsData path message

/-- Source: `model_artifacts.rs`, lines 1916–1940. -/
def expectedTensorByteLen (path tensorName : String) (metadata : SafetensorsTensorMetadata) :
    Except ModelArtifactError ℕ := do
  let elementCount ← okOr
    (invalidSafetensorsData path ("tensor " ++ tensorName ++ " element count overflowed"))
    metadata.elementCount
  let dtypeByteWidth ← okOr
    (invalidSafetensorsData path
      ("tensor " ++ tensorName ++ " has unsupported safetensors dtype " ++ metadata.dtype))
    metadata.dtypeByteWidth
  okOr (invalidSafetensorsData path ("tensor " ++ tensorName ++ " byte length overflowed"))
    (checkedMul 64 elementCount dtypeByteWidth)

namespace SafetensorsHeader

/-- Source: `model_artifacts.rs`, lines 1524–1598. -/
def tensorSpan (fs : FileSystem) (header : SafetensorsHeader) (path tensorName : String) :
    Except ModelArtifactError (Option SafetensorsTensorSpan) :=
  match header.tensors tensorName with
  | none => .ok none
  | some metadata => do
      let (start, stop) := metadata.dataOffsets
      if stop < start then
        .error (invalidSafetensorsData path
          ("tensor " ++ tensorName ++ " data_offsets start is after end"))
      else
        let tensorLen := stop - start
        let expectedTensorLen ← expectedTensorByteLen path tensorName metadata
        if tensorLen ≠ expectedTensorLen then
          .error (invalidSafetensorsData path ("tensor " ++ tensorName ++ " metadata expects " ++
            toString expectedTensorLen ++ " bytes but data_offsets describe " ++
            toString tensorLen ++ " bytes"))
        else
          let payloadStart ← okOr
            (invalidSafetensorsData path "safetensors payload start offset overflowed")
            (checkedAdd 64 8 header.headerLen)
          let absoluteStart ← okOr
            (invalidSafetensorsData path ("tensor " ++ tensorName ++ " start offset overflowed"))
            (checkedAdd 64 payloadStart start)
          let absoluteEnd ← okOr
            (invalidSafetensorsData path ("tensor " ++ tensorName ++ " end offset overflowed"))
            (checkedAdd 64 payloadStart stop)
          let file ← openShard fs path
          if absoluteEnd > file.length then
            .error (invalidSafetensorsData path
              ("tensor " ++ tensorName ++ " payload extends past end of shard"))
          else
            return some { path, metadata, absoluteByteOffset := absoluteStart,
                          byteLen := tensorLen }

end SafetensorsHeader

/-- Source: `model_artifacts.rs`, lines 1424–1446. -/
def SafetensorsTensorSpan.read (fs : FileSystem) (span : SafetensorsTensorSpan) :
    Except ModelArtifactError (Option SafetensorsTensorData) := do
  let file ← openShard fs span.path
  let bytes ← readExactAt span.path file span.absoluteByteOffset span.byteLen
  return some { metadata := span.metadata, bytes }

/-- Source: `model_artifacts.rs`, lines 1600–1609. -/
def SafetensorsHeader.readTensor (fs : FileSystem) (header : SafetensorsHeader)
    (path tensorName : String) : Except ModelArtifactError (Option SafetensorsTensorData) := do
  match ← header.tensorSpan fs path tensorName with
  | none => return none
  | some span => span.read fs

/-! ### The number of elements -/

/-- A count that does not overflow is the product of the dimensions. -/
theorem foldlM_checkedMul_eq_some {shape : List ℕ} {count product : ℕ}
    (h : shape.foldlM (fun count dimension => checkedMul 64 count dimension) count = some product) :
    product = count * shape.prod := by
  induction shape generalizing count with
  | nil =>
      obtain rfl := Option.some.inj h
      simp
  | cons dimension shape ih =>
      rw [List.foldlM_cons] at h
      obtain ⟨next, hnext, hrest⟩ := Option.bind_eq_some_iff.mp h
      obtain ⟨-, rfl⟩ := checkedMul_eq_some.mp hnext
      rw [ih hrest, List.prod_cons, Nat.mul_assoc]

theorem shapeElementCount_eq_some {shape : List ℕ} {count : ℕ}
    (h : shapeElementCount shape = some count) : count = shape.prod := by
  rw [foldlM_checkedMul_eq_some h, Nat.one_mul]

/-- Without a zero dimension the products of the first dimensions grow, so that none of them
overflows if the last does not. -/
theorem foldlM_checkedMul_eq {shape : List ℕ} {count : ℕ} (hshape : ∀ d ∈ shape, d ≠ 0)
    (hcount : count ≠ 0) (h : count * shape.prod < 2 ^ 64) :
    shape.foldlM (fun count dimension => checkedMul 64 count dimension) count =
      some (count * shape.prod) := by
  induction shape generalizing count with
  | nil => simp
  | cons dimension shape ih =>
      obtain ⟨hdimension, hshape⟩ := List.forall_mem_cons.mp hshape
      rw [List.prod_cons, ← Nat.mul_assoc] at h ⊢
      have hpos : 0 < shape.prod := Nat.pos_of_ne_zero (List.prod_ne_zero fun h0 => hshape 0 h0 rfl)
      have hnext : count * dimension < 2 ^ 64 :=
        Nat.lt_of_le_of_lt (Nat.le_mul_of_pos_right _ hpos) h
      rw [List.foldlM_cons, checkedMul_eq hnext]
      exact ih hshape (Nat.mul_ne_zero hcount hdimension) h

/-! ### Spans -/

/-- A span that lies in the file and has the size of its shape. -/
structure SpanInFile (fs : FileSystem) (span : SafetensorsTensorSpan) (file : Bytes)
    (elementCount width : ℕ) : Prop where
  file_eq : fs span.path = .ok file
  end_le : span.absoluteByteOffset + span.byteLen ≤ file.length
  end_lt : span.absoluteByteOffset + span.byteLen < 2 ^ 64
  elementCount_eq : span.metadata.elementCount = some elementCount
  width_eq : span.metadata.dtypeByteWidth = some width
  byteLen_eq : span.byteLen = elementCount * width

theorem expectedTensorByteLen_eq_ok {path tensorName : String}
    {metadata : SafetensorsTensorMetadata} {len : ℕ}
    (h : expectedTensorByteLen path tensorName metadata = .ok len) :
    ∃ elementCount width, metadata.elementCount = some elementCount ∧
      metadata.dtypeByteWidth = some width ∧ len = elementCount * width := by
  obtain ⟨elementCount, hcount, h⟩ := Except.bind_eq_ok.mp h
  obtain ⟨width, hwidth, h⟩ := Except.bind_eq_ok.mp h
  obtain ⟨-, rfl⟩ := okOr_checkedMul_eq_ok.mp h
  exact ⟨elementCount, width, okOr_eq_ok.mp hcount, okOr_eq_ok.mp hwidth, rfl⟩

theorem openShard_eq_ok {fs : FileSystem} {path : String} {file : Bytes} :
    openShard fs path = .ok file ↔ fs path = .ok file := by
  unfold openShard
  cases fs path <;> simp

theorem readExactAt_ok {path : String} {file : Bytes} {offset len : ℕ}
    (h : offset + len ≤ file.length) :
    readExactAt path file offset len = .ok ((file.drop offset).take len) := by
  rw [readExactAt, if_pos]
  rw [List.length_take, List.length_drop]
  omega

/-- **Spans.** A span that is found lies in its file. -/
theorem SafetensorsHeader.spanInFile_of_tensorSpan {fs : FileSystem} {header : SafetensorsHeader}
    {path tensorName : String} {span : SafetensorsTensorSpan}
    (h : header.tensorSpan fs path tensorName = .ok (some span)) :
    ∃ file elementCount width, SpanInFile fs span file elementCount width := by
  unfold SafetensorsHeader.tensorSpan at h
  cases hmetadata : header.tensors tensorName with
  | none =>
      rw [hmetadata] at h
      cases h
  | some metadata =>
      rw [hmetadata] at h
      simp only [ite_error_eq_ok, Except.bind_eq_ok, okOr_checkedAdd_eq_ok, openShard_eq_ok] at h
      obtain ⟨hstart, expected, hexpected, hlen, _, ⟨-, rfl⟩, _, ⟨-, rfl⟩, _, ⟨hlt, rfl⟩, file,
        hfile, hend, h⟩ := h
      obtain rfl := Option.some.inj (Except.ok.inj h)
      obtain ⟨elementCount, width, hcount, hwidth, rfl⟩ := expectedTensorByteLen_eq_ok hexpected
      exact ⟨file, elementCount, width, hfile, by dsimp only; omega, by dsimp only; omega, hcount,
        hwidth, not_not.mp hlen⟩

/-- A tensor with as many bytes as its type and shape ask for. -/
def SafetensorsTensorData.WellSized (data : SafetensorsTensorData) : Prop :=
  ∃ elementCount width, data.metadata.elementCount = some elementCount ∧
    data.metadata.dtypeByteWidth = some width ∧ data.bytes.length = elementCount * width

/-- What is read of a tensor has the size of its shape. -/
theorem SafetensorsHeader.wellSized_of_readTensor {fs : FileSystem} {header : SafetensorsHeader}
    {path tensorName : String} {data : SafetensorsTensorData}
    (h : header.readTensor fs path tensorName = .ok (some data)) : data.WellSized := by
  obtain ⟨found, hspan, h⟩ := Except.bind_eq_ok.mp h
  cases found with
  | none => cases h
  | some span =>
      obtain ⟨file, elementCount, width, hin⟩ := spanInFile_of_tensorSpan hspan
      obtain ⟨file', hfile, h⟩ := Except.bind_eq_ok.mp h
      rw [openShard_eq_ok, hin.file_eq] at hfile
      obtain rfl := Except.ok.inj hfile
      rw [readExactAt_ok hin.end_le] at h
      obtain rfl := Option.some.inj (Except.ok.inj h)
      refine ⟨elementCount, width, hin.elementCount_eq, hin.width_eq, ?_⟩
      rw [List.length_take, List.length_drop, ← hin.byteLen_eq]
      have := hin.end_le
      omega

end SglangRs
