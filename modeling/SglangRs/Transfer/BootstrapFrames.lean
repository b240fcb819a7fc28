import SglangRs.Transfer.Control
import SglangRs.Wire.Slices

/-!
# The frames of the bootstrap protocol

A decode worker announces to the prefill worker where its KV cache lies
(`PdDecodeKvArgsRegistration`) and, for every room, which pages the transfer is to fill
(`PdDecodeTransferMetadata`). Both are sent as multipart messages with a hand-written format
(`sglang-srt/src/transfer/pd_bootstrap.rs`, lines 863–929): decimal fields, rows of fixed-width
little-endian numbers, and lists of such rows with the number of rows and the length of each in
front (lines 1578–1638). The prefill worker reads them as `PdKvArgsRegisterInfo` and
`PdTransferInfo` (lines 602–666, 1786–1997).

The lengths in front of a list of rows are cut to 32 bits when they are written. A decoder may panic
in this model wherever the source slices or converts; sums of offsets stay far below the size of the
address space, since a vector is never longer than half of it.

## Main definitions

* `PdDecodeKvArgsRegistration.toFrame`, `PdKvArgsRegisterInfo.fromFrame`.
* `PdDecodeTransferMetadata.toFrame`, `PdTransferInfo.fromFrame`.
* `packListOfBuffers`, `unpackListOfBuffers`: lists of rows.

## Main results

* `unpackListOfBuffers_pack`, `unpackLists_packLists_iff`: a list of rows is read back exactly when its
  lengths fit into 32 bits.
* `frames_round_trip`: what is read back of the two messages, and that reading never panics.
-/

namespace SglangRs

inductive PdBootstrapFrameError where
  | missingField (frame : String) (expected actual : ℕ)
  | utf8Field (field : String)
  | integerField (field value : String)
  | binaryLength (field : String) (width actual : ℕ)
  | packedListHeader (field : String)
  | packedListLength (field : String)
deriving DecidableEq, Repr

abbrev FrameResult (α : Type) := RustResult PdBootstrapFrameError α

/-! ### Fields -/

def requireMinFields (frame : Frames) (expected : ℕ) (frameName : String) : FrameResult Unit :=
  if frame.length < expected then .err (.missingField frameName expected frame.length) else .ok ()

def field (frame : Frames) (index : ℕ) (name : String) : FrameResult Bytes :=
  match frame[index]? with
  | some bytes => .ok bytes
  | none => .err (.missingField name (index + 1) frame.length)

def asciiField (frame : Frames) (index : ℕ) (name : String) : FrameResult String := do
  let bytes ← field frame index name
  match fromUtf8 bytes with
  | some text => return text
  | none => .err (.utf8Field name)

/-- The value of a decimal field. -/
def parseField {α : Type} [FromStr α] (frame : Frames) (index : ℕ) (name : String) :
    FrameResult α := do
  let value ← asciiField frame index name
  match FromStr.parse value with
  | some number => return number
  | none => .err (.integerField name value)

def parseI32 (frame : Frames) (index : ℕ) (name : String) : FrameResult Int32 :=
  parseField frame index name

def parseU16 (frame : Frames) (index : ℕ) (name : String) : FrameResult UInt16 :=
  parseField frame index name

def parseUsize (frame : Frames) (index : ℕ) (name : String) : FrameResult UInt64 :=
  parseField frame index name

/-- A room is sent as a signed number, so that its highest bit is clear. -/
def parseBootstrapRoom (frame : Frames) (index : ℕ) (name : String) :
    FrameResult BootstrapRoom := do
  let value ← asciiField frame index name
  match FromStr.parse value with
  | none => .err (.integerField name value)
  | some (room : UInt64) =>
      if 2 ^ 63 ≤ room.toNat then .err (.integerField name value) else return room

def optionalUsize (frame : Frames) (index : ℕ) (name : String) : FrameResult (Option UInt64) :=
  match frame[index]? with
  | none => .ok none
  | some value =>
      if value = [] then .ok none
      else do
        let number ← parseUsize frame index name
        return some number

/-! ### Rows of numbers -/

def unpackFixedWidth {α : Type} [LeWord α] (bytes : Bytes) (name : String) : FrameResult (List α) :=
  if bytes.length % LeWord.width α ≠ 0 then
    .err (.binaryLength name (LeWord.width α) bytes.length)
  else
    RustResult.collect (fun chunk => do
      let array ← toArray (LeWord.width α) chunk
      return unpackWord array) (chunksExact (LeWord.width α) bytes)

def packListOfBuffers (buffers : List Bytes) : Bytes :=
  if buffers = [] then []
  else
    natToLe 4 buffers.length ++ buffers.flatMap (fun buffer => natToLe 4 buffer.length)
      ++ buffers.flatten

/-- The length of the row with the given index. -/
def readLength (bytes : Bytes) (index : ℕ) : FrameResult ℕ := do
  let offset := 4 + index * 4
  let word ← slice bytes offset (offset + 4)
  let array ← toArray 4 word
  return leToNat array

/-- The loop that cuts the rows, from the given offset on. -/
def cutBuffers (bytes : Bytes) (name : String) : ℕ → List ℕ → FrameResult (List Bytes)
  | _, [] => .ok []
  | offset, length :: lengths => do
      let stop := offset + length
      if bytes.length < stop then .err (.packedListLength name)
      else
        let buffer ← slice bytes offset stop
        let buffers ← cutBuffers bytes name stop lengths
        return buffer :: buffers

def unpackListOfBuffers (bytes : Bytes) (name : String) : FrameResult (List Bytes) :=
  if bytes = [] then .ok []
  else if bytes.length < 4 then .err (.packedListHeader name)
  else do
    let word ← slice bytes 0 4
    let array ← toArray 4 word
    let count := leToNat array
    let headerLen := 4 + count * 4
    if bytes.length < headerLen then .err (.packedListHeader name)
    else
      let lengths ← RustResult.collect (readLength bytes) (List.range count)
      cutBuffers bytes name headerLen lengths

/-- Write a list of rows. -/
def packLists {α : Type} [LeWord α] (values : List (List α)) : Bytes :=
  packListOfBuffers (values.map packWords)

/-- Read a list of rows. -/
def unpackLists {α : Type} [LeWord α] (bytes : Bytes) (lists values : String) :
    FrameResult (List (List α)) := do
  let buffers ← unpackListOfBuffers bytes lists
  RustResult.collect (fun buffer => unpackFixedWidth buffer values) buffers

def packI32s (values : List Int32) : Bytes := packWords values

def packU64s (values : List UInt64) : Bytes := packWords values

def packI32Lists (values : List (List Int32)) : Bytes := packLists values

def packU64Lists (values : List (List UInt64)) : Bytes := packLists values

def packU32Lists (values : List (List UInt32)) : Bytes := packLists values

def unpackU64s (bytes : Bytes) : FrameResult (List UInt64) := unpackFixedWidth bytes "u64 values"

def unpackI32s (bytes : Bytes) : FrameResult (List Int32) := unpackFixedWidth bytes "i32 values"

def unpackU64Lists (bytes : Bytes) : FrameResult (List (List UInt64)) :=
  unpackLists bytes "u64 lists" "u64 values"

def unpackU32Lists (bytes : Bytes) : FrameResult (List (List UInt32)) :=
  unpackLists bytes "u32 lists" "u32 values"

def unpackI32Lists (bytes : Bytes) : FrameResult (List (List Int32)) :=
  unpackLists bytes "i32 lists" "i32 values"

def optionalU32Lists (frame : Frames) (index : ℕ) : FrameResult (List (List UInt32)) :=
  match frame[index]? with
  | none => .ok []
  | some value => unpackU32Lists value

/-! ### Registrations -/

structure PdKvArgsRegisterInfo where
  room : String
  endpoint : String
  dstPort : UInt16
  sessionId : String
  dstKvPtrs : List UInt64
  dstAuxPtrs : List UInt64
  dstStateDataPtrs : List (List UInt64)
  dstTpRank : Int32
  dstAttnTpSize : UInt64
  dstKvItemLen : UInt64
  dstStateItemLens : List (List UInt32)
  dstStateDimPerTensor : List (List UInt32)
deriving DecidableEq

def PdKvArgsRegisterInfo.fromFrame (frame : Frames) : FrameResult PdKvArgsRegisterInfo := do
  requireMinFields frame 10 "KVArgs registration"
  let room ← asciiField frame 0 "room"
  let endpoint ← asciiField frame 1 "endpoint"
  let dstPort ← parseU16 frame 2 "dst_port"
  let sessionId ← asciiField frame 3 "session_id"
  let dstKvPtrs ← unpackU64s (← field frame 4 "dst_kv_ptrs")
  let dstAuxPtrs ← unpackU64s (← field frame 5 "dst_aux_ptrs")
  let dstStateDataPtrs ← unpackU64Lists (← field frame 6 "dst_state_data_ptrs")
  let dstTpRank ← parseI32 frame 7 "dst_tp_rank"
  let dstAttnTpSize ← parseUsize frame 8 "dst_attn_tp_size"
  let dstKvItemLen ← parseUsize frame 9 "dst_kv_item_len"
  let dstStateItemLens ← optionalU32Lists frame 10
  let dstStateDimPerTensor ← optionalU32Lists frame 11
  return { room, endpoint, dstPort, sessionId, dstKvPtrs, dstAuxPtrs, dstStateDataPtrs, dstTpRank,
           dstAttnTpSize, dstKvItemLen, dstStateItemLens, dstStateDimPerTensor }

structure PdDecodeKvArgsRegistration where
  endpoint : String
  dstPort : UInt16
  sessionId : String
  dstKvPtrs : List UInt64
  dstAuxPtrs : List UInt64
  dstStateDataPtrs : List (List UInt64)
  dstTpRank : Int32
  dstAttnTpSize : UInt64
  dstKvItemLen : UInt64
  dstStateItemLens : List (List UInt32)
  dstStateDimPerTensor : List (List UInt32)
deriving DecidableEq

def PdDecodeKvArgsRegistration.toFrame (registration : PdDecodeKvArgsRegistration) : Frames :=
  [utf8 "None", utf8 registration.endpoint, utf8 (toString registration.dstPort),
    utf8 registration.sessionId, packU64s registration.dstKvPtrs, packU64s registration.dstAuxPtrs,
    packU64Lists registration.dstStateDataPtrs, utf8 (toString registration.dstTpRank),
    utf8 (toString registration.dstAttnTpSize), utf8 (toString registration.dstKvItemLen),
    packU32Lists registration.dstStateItemLens, packU32Lists registration.dstStateDimPerTensor,
    [], utf8 "0"]

/-! ### Transfer metadata -/

structure PdTransferInfo where
  room : BootstrapRoom
  endpoint : String
  dstPort : UInt16
  sessionId : String
  dstKvIndices : List Int32
  dstAuxIndex : Option Int32
  dstStateIndices : List (List Int32)
  requiredDstInfoNum : UInt64
  isDummy : Bool
  decodePrefixLen : Option UInt64
deriving DecidableEq

/-- The destinations in a frame of transfer metadata. -/
def PdTransferInfo.destinations (frame : Frames) (isDummy : Bool) :
    FrameResult (List Int32 × Option Int32 × List (List Int32)) :=
  if isDummy then .ok ([], none, [])
  else do
    let dstKvIndices ← unpackI32s (← field frame 4 "dst_kv_indices")
    let dstAuxIndex ← parseI32 frame 5 "dst_aux_index"
    let dstStateIndices ← unpackI32Lists (← field frame 6 "dst_state_indices")
    return (dstKvIndices, some dstAuxIndex, dstStateIndices)

def PdTransferInfo.fromFrame (frame : Frames) : FrameResult PdTransferInfo := do
  requireMinFields frame 8 "transfer metadata"
  let kvField ← field frame 4 "dst_kv_indices"
  let auxField ← field frame 5 "dst_aux_index"
  let isDummy := kvField.isEmpty && auxField.isEmpty
  let (dstKvIndices, dstAuxIndex, dstStateIndices) ← destinations frame isDummy
  let room ← parseBootstrapRoom frame 0 "room"
  let endpoint ← asciiField frame 1 "endpoint"
  let dstPort ← parseU16 frame 2 "dst_port"
  let sessionId ← asciiField frame 3 "session_id"
  let requiredDstInfoNum ← parseUsize frame 7 "required_dst_info_num"
  let decodePrefixLen ← optionalUsize frame 8 "decode_prefix_len"
  return { room, endpoint, dstPort, sessionId, dstKvIndices, dstAuxIndex, dstStateIndices,
           requiredDstInfoNum, isDummy, decodePrefixLen }

structure PdDecodeTransferMetadata where
  room : BootstrapRoom
  endpoint : String
  dstPort : UInt16
  sessionId : String
  dstKvIndices : List Int32
  dstAuxIndex : Option Int32
  dstStateIndices : List (List Int32)
  requiredDstInfoNum : UInt64
  decodePrefixLen : Option UInt64
  isDummy : Bool
deriving DecidableEq

inductive PdDecodeBootstrapError where
  | missingAuxIndex (sessionId : String)
deriving DecidableEq, Repr

def PdDecodeTransferMetadata.toFrame (metadata : PdDecodeTransferMetadata) :
    Except PdDecodeBootstrapError Frames := do
  let (dstKvIndices, dstAuxIndex, dstStateIndices) ←
    if metadata.isDummy then pure ([], [], [])
    else match metadata.dstAuxIndex with
      | none => throw (.missingAuxIndex metadata.sessionId)
      | some dstAuxIndex =>
          pure (packI32s metadata.dstKvIndices, utf8 (toString dstAuxIndex),
            packI32Lists metadata.dstStateIndices)
  return [utf8 (toString metadata.room), utf8 metadata.endpoint, utf8 (toString metadata.dstPort),
    utf8 metadata.sessionId, dstKvIndices, dstAuxIndex, dstStateIndices,
    utf8 (toString metadata.requiredDstInfoNum),
    utf8 (toString (metadata.decodePrefixLen.getD 0))]

/-! ### Reading never panics -/

section Panics

theorem returns_requireMinFields (frame : Frames) (expected : ℕ) (name : String) :
    (requireMinFields frame expected name).Returns := by
  by_cases h : frame.length < expected <;> simp [requireMinFields, h]

theorem returns_field (frame : Frames) (index : ℕ) (name : String) :
    (field frame index name).Returns := by
  cases h : frame[index]? <;> simp [field, h]

theorem returns_asciiField (frame : Frames) (index : ℕ) (name : String) :
    (asciiField frame index name).Returns := by
  refine (returns_field frame index name).bind fun bytes _ => ?_
  cases fromUtf8 bytes <;> simp

theorem returns_parseField {α : Type} [FromStr α] (frame : Frames) (index : ℕ) (name : String) :
    (parseField frame index name : FrameResult α).Returns := by
  refine (returns_asciiField frame index name).bind fun value _ => ?_
  cases (FromStr.parse value : Option α) <;> simp

theorem returns_parseBootstrapRoom (frame : Frames) (index : ℕ) (name : String) :
    (parseBootstrapRoom frame index name).Returns := by
  refine (returns_asciiField frame index name).bind fun value _ => ?_
  cases (FromStr.parse value : Option UInt64) with
  | none => simp
  | some room => by_cases h : 9223372036854775808 ≤ room.toNat <;> simp [h]

theorem returns_optionalUsize (frame : Frames) (index : ℕ) (name : String) :
    (optionalUsize frame index name).Returns := by
  cases h : frame[index]? with
  | none => simp [optionalUsize, h]
  | some value =>
      by_cases hempty : value = []
      · simp [optionalUsize, h, hempty]
      · simp only [optionalUsize, h, hempty, if_false]
        exact (returns_parseField frame index name).bind fun number _ => RustResult.returns_ok _

/-- Every chunk has the width of a word. -/
theorem returns_unpackFixedWidth {α : Type} [LeWord α] (bytes : Bytes) (name : String) :
    (unpackFixedWidth bytes name : FrameResult (List α)).Returns := by
  by_cases h : bytes.length % LeWord.width α = 0
  · simp only [unpackFixedWidth, h, ne_eq, not_true_eq_false, if_false]
    refine RustResult.returns_collect fun chunk hchunk => ?_
    rw [toArray_ok (length_of_mem_chunksExact hchunk)]
    simp
  · simp [unpackFixedWidth, h]

/-- The length of a row is read within the header. -/
theorem readLength_ok {bytes : Bytes} {index : ℕ} (h : 4 + index * 4 + 4 ≤ bytes.length) :
    readLength bytes index = .ok (leToNat ((bytes.drop (4 + index * 4)).take 4)) := by
  have hlength := length_slice (show 4 + index * 4 ≤ 4 + index * 4 + 4 by omega) h
  have hwidth : 4 + index * 4 + 4 - (4 + index * 4) = 4 := by omega
  rw [hwidth] at hlength
  rw [readLength, slice_ok (by omega) h, hwidth, RustResult.ok_bind, toArray_ok hlength,
    RustResult.ok_bind, RustResult.pure_eq]

theorem returns_cutBuffers (bytes : Bytes) (name : String) (offset : ℕ) (lengths : List ℕ) :
    (cutBuffers bytes name offset lengths).Returns := by
  induction lengths generalizing offset with
  | nil => simp [cutBuffers]
  | cons length lengths ih =>
      by_cases h : bytes.length < offset + length
      · simp [cutBuffers, h]
      · simp only [cutBuffers, h, if_false]
        rw [slice_ok (by omega) (by omega)]
        exact (ih _).bind fun buffers _ => RustResult.returns_ok _

theorem returns_unpackListOfBuffers (bytes : Bytes) (name : String) :
    (unpackListOfBuffers bytes name).Returns := by
  by_cases hempty : bytes = []
  · simp [unpackListOfBuffers, hempty]
  by_cases hshort : bytes.length < 4
  · simp [unpackListOfBuffers, hempty, hshort]
  have hlength := length_slice (show 0 ≤ 4 by omega) (Nat.not_lt.1 hshort)
  simp only [unpackListOfBuffers, hempty, hshort, if_false]
  rw [slice_ok (by omega) (by omega), RustResult.ok_bind, toArray_ok hlength, RustResult.ok_bind]
  split
  · simp
  · rename_i hheader
    refine (RustResult.returns_collect fun index hindex => ?_).bind fun lengths _ =>
      returns_cutBuffers _ _ _ _
    have := List.mem_range.1 hindex
    rw [readLength_ok (by omega)]
    simp

theorem returns_unpackLists {α : Type} [LeWord α] (bytes : Bytes) (lists values : String) :
    (unpackLists bytes lists values : FrameResult (List (List α))).Returns :=
  (returns_unpackListOfBuffers bytes lists).bind fun _ _ =>
    RustResult.returns_collect fun buffer _ => returns_unpackFixedWidth buffer values

theorem returns_optionalU32Lists (frame : Frames) (index : ℕ) :
    (optionalU32Lists frame index).Returns := by
  cases h : frame[index]? with
  | none => simp [optionalU32Lists, h]
  | some value =>
      simp only [optionalU32Lists, h]
      exact returns_unpackLists value _ _

theorem PdKvArgsRegisterInfo.returns_fromFrame (frame : Frames) :
    (PdKvArgsRegisterInfo.fromFrame frame).Returns := by
  refine (returns_requireMinFields _ _ _).bind fun _ _ => ?_
  refine (returns_asciiField _ _ _).bind fun _ _ => ?_
  refine (returns_asciiField _ _ _).bind fun _ _ => ?_
  refine (returns_parseField _ _ _).bind fun _ _ => ?_
  refine (returns_asciiField _ _ _).bind fun _ _ => ?_
  refine (returns_field _ _ _).bind fun _ _ => (returns_unpackFixedWidth _ _).bind fun _ _ => ?_
  refine (returns_field _ _ _).bind fun _ _ => (returns_unpackFixedWidth _ _).bind fun _ _ => ?_
  refine (returns_field _ _ _).bind fun _ _ => (returns_unpackLists _ _ _).bind fun _ _ => ?_
  refine (returns_parseField _ _ _).bind fun _ _ => ?_
  refine (returns_parseField _ _ _).bind fun _ _ => ?_
  refine (returns_parseField _ _ _).bind fun _ _ => ?_
  refine (returns_optionalU32Lists _ _).bind fun _ _ => ?_
  exact (returns_optionalU32Lists _ _).bind fun _ _ => RustResult.returns_ok _

theorem PdTransferInfo.returns_destinations (frame : Frames) (isDummy : Bool) :
    (PdTransferInfo.destinations frame isDummy).Returns := by
  cases isDummy with
  | true => exact RustResult.returns_ok _
  | false =>
      refine (returns_field _ _ _).bind fun _ _ => (returns_unpackFixedWidth _ _).bind fun _ _ => ?_
      refine (returns_parseField _ _ _).bind fun _ _ => ?_
      refine (returns_field _ _ _).bind fun _ _ => (returns_unpackLists _ _ _).bind fun _ _ => ?_
      exact RustResult.returns_ok _

theorem PdTransferInfo.returns_fromFrame (frame : Frames) :
    (PdTransferInfo.fromFrame frame).Returns := by
  refine (returns_requireMinFields _ _ _).bind fun _ _ => ?_
  refine (returns_field _ _ _).bind fun _ _ => (returns_field _ _ _).bind fun _ _ => ?_
  refine (PdTransferInfo.returns_destinations _ _).bind fun _ _ => ?_
  refine (returns_parseBootstrapRoom _ _ _).bind fun _ _ => ?_
  refine (returns_asciiField _ _ _).bind fun _ _ => ?_
  refine (returns_parseField _ _ _).bind fun _ _ => ?_
  refine (returns_asciiField _ _ _).bind fun _ _ => ?_
  refine (returns_parseField _ _ _).bind fun _ _ => ?_
  exact (returns_optionalUsize _ _ _).bind fun _ _ => RustResult.returns_ok _

end Panics

/-! ### Lists of rows -/

section Rows

variable {α : Type} [LeWord α]

@[simp]
theorem unpackFixedWidth_packWords (xs : List α) (name : String) :
    unpackFixedWidth (packWords xs) name = .ok xs := by
  simp only [unpackFixedWidth, length_packWords, Nat.mul_mod_left, ne_eq, not_true_eq_false,
    if_false, chunksExact_packWords]
  refine RustResult.collect_map_ok fun x _ => ?_
  simp [toArray_ok (length_packWord x)]

theorem length_of_unpackFixedWidth {bytes : Bytes} {name : String} {xs : List α}
    (h : unpackFixedWidth bytes name = .ok xs) : bytes.length = xs.length * LeWord.width α := by
  by_cases hmod : bytes.length % LeWord.width α = 0
  · simp only [unpackFixedWidth, hmod, ne_eq, not_true_eq_false, if_false] at h
    have hlength := (RustResult.collect_eq_ok h).length_eq
    rw [chunksExact, length_takeChunks] at hlength
    rw [← hlength, Nat.div_mul_cancel (Nat.dvd_of_mod_eq_zero hmod)]
  · simp [unpackFixedWidth, hmod] at h

theorem packListOfBuffers_of_ne_nil {buffers : List Bytes} (h : buffers ≠ []) :
    packListOfBuffers buffers = natToLe 4 buffers.length ++
      buffers.flatMap (fun buffer => natToLe 4 buffer.length) ++ buffers.flatten :=
  if_neg h

theorem length_header (buffers : List Bytes) :
    (buffers.flatMap fun buffer => natToLe 4 buffer.length).length = buffers.length * 4 :=
  Rows.length_flatMap_const fun _ _ => length_natToLe 4 _

/-- The lengths in the header are those of the rows, cut to 32 bits. -/
theorem readLength_pack {buffers : List Bytes} {index : ℕ} (h : index < buffers.length) :
    readLength (packListOfBuffers buffers) index = .ok (buffers[index].length % 2 ^ 32) := by
  have hne : buffers ≠ [] := List.ne_nil_of_length_pos (by omega)
  have hlength := length_header buffers
  rw [packListOfBuffers_of_ne_nil hne, readLength_ok, List.append_assoc, ← List.drop_drop,
    List.drop_left' (length_natToLe 4 _),
    Rows.take_drop_flatMap (fun _ _ => length_natToLe 4 _) _ index h, leToNat_natToLe]
  · rfl
  · rw [List.length_append, List.length_append, length_natToLe, hlength]
    omega

/-- What the decoder does with a list of rows that was packed. -/
theorem unpackListOfBuffers_pack {buffers : List Bytes} (h : buffers ≠ []) (name : String) :
    unpackListOfBuffers (packListOfBuffers buffers) name =
      cutBuffers (packListOfBuffers buffers) name (4 + buffers.length % 2 ^ 32 * 4)
        ((buffers.take (buffers.length % 2 ^ 32)).map (·.length % 2 ^ 32)) := by
  have hcount := Nat.mod_le buffers.length (2 ^ 32)
  have hheader := length_header buffers
  have hlength : (packListOfBuffers buffers).length =
      4 + buffers.length * 4 + buffers.flatten.length := by
    rw [packListOfBuffers_of_ne_nil h, List.length_append, List.length_append, length_natToLe,
      hheader]
  have hempty : packListOfBuffers buffers ≠ [] := List.ne_nil_of_length_pos (by omega)
  have hword : ((packListOfBuffers buffers).drop 0).take (4 - 0) = natToLe 4 buffers.length := by
    rw [packListOfBuffers_of_ne_nil h, List.drop_zero, List.append_assoc,
      List.take_left' (by simp)]
  have hlengths : RustResult.collect (readLength (packListOfBuffers buffers))
      (List.range (buffers.length % 2 ^ 32)) =
        .ok ((buffers.take (buffers.length % 2 ^ 32)).map (·.length % 2 ^ 32)) := by
    rw [RustResult.collect_eq_map (g := fun i => (buffers.getD i []).length % 2 ^ 32)]
    · congr 1
      refine List.ext_getElem (by simp [Nat.mod_le]) fun i hi hi' => ?_
      have hlt : i < buffers.length := by
        simp at hi
        omega
      simp [hlt]
    · intro i hi
      have hlt : i < buffers.length := by
        have := List.mem_range.1 hi
        omega
      rw [readLength_pack hlt, List.getD_eq_getElem _ _ hlt]
  rw [unpackListOfBuffers, if_neg hempty, if_neg (by omega), slice_ok (by omega) (by omega), hword,
    RustResult.ok_bind, toArray_ok (by simp), RustResult.ok_bind]
  simp only [leToNat_natToLe]
  rw [show (256 : ℕ) ^ 4 = 2 ^ 32 by rfl, if_neg (by omega), hlengths, RustResult.ok_bind]

theorem cutBuffers_flatten (buffers : List Bytes) (before after : Bytes) (name : String) :
    cutBuffers (before ++ buffers.flatten ++ after) name before.length
      (buffers.map List.length) = .ok buffers := by
  induction buffers generalizing before with
  | nil => rfl
  | cons buffer buffers ih =>
      have hbytes : before ++ (buffer :: buffers).flatten ++ after =
          before ++ buffer ++ (buffers.flatten ++ after) := by simp
      have hnext := ih (before ++ buffer)
      rw [List.length_append, List.append_assoc] at hnext
      rw [hbytes, List.map_cons, cutBuffers, slice_append, if_neg (by simp), RustResult.ok_bind, hnext]
      rfl

/-- The rows that are cut have the lengths asked for. -/
theorem length_of_cutBuffers {bytes : Bytes} {name : String} {offset : ℕ} {lengths : List ℕ}
    {buffers : List Bytes} (h : cutBuffers bytes name offset lengths = .ok buffers) :
    buffers.map List.length = lengths := by
  induction lengths generalizing offset buffers with
  | nil =>
      obtain rfl : [] = buffers := by simpa [cutBuffers] using h
      rfl
  | cons length lengths ih =>
      by_cases hshort : bytes.length < offset + length
      · simp [cutBuffers, hshort] at h
      · simp only [cutBuffers, hshort, if_false] at h
        rw [slice_ok (by omega) (by omega), RustResult.ok_bind, RustResult.bind_eq_ok] at h
        obtain ⟨rest, hrest, hcons⟩ := h
        obtain rfl := RustResult.ok.inj hcons
        rw [List.map_cons, ih hrest, length_slice (by omega) (by omega)]
        simp

/-- The number of rows and the byte length of each fit into 32 bits. -/
def FitsU32 (values : List (List α)) : Prop :=
  values.length < 2 ^ 32 ∧ ∀ xs ∈ values, xs.length * LeWord.width α < 2 ^ 32

/-- Packed rows whose lengths fit are cut where they were packed. -/
theorem unpackListOfBuffers_packListOfBuffers (buffers : List Bytes)
    (hcount : buffers.length < 2 ^ 32) (hlengths : ∀ buffer ∈ buffers, buffer.length < 2 ^ 32)
    (name : String) : unpackListOfBuffers (packListOfBuffers buffers) name = .ok buffers := by
  by_cases hne : buffers = []
  · subst hne
    rfl
  have hmap : buffers.map (fun buffer => buffer.length % 2 ^ 32) = buffers.map List.length :=
    List.map_congr_left fun buffer hbuffer => Nat.mod_eq_of_lt (hlengths buffer hbuffer)
  have hcut := cutBuffers_flatten buffers (natToLe 4 buffers.length ++
    buffers.flatMap fun buffer => natToLe 4 buffer.length) [] name
  rw [List.append_nil, List.length_append, length_natToLe, length_header] at hcut
  rw [unpackListOfBuffers_pack hne, Nat.mod_eq_of_lt hcount, List.take_length, hmap,
    packListOfBuffers_of_ne_nil hne, hcut]

theorem lengths_of_collect {buffers : List Bytes} {name : String} {values : List (List α)}
    (h : RustResult.collect (fun buffer => unpackFixedWidth buffer name) buffers = .ok values) :
    buffers.map List.length = values.map fun xs => xs.length * LeWord.width α := by
  have hall := RustResult.collect_eq_ok h
  clear h
  induction hall with
  | nil => rfl
  | cons hhead _ ih => rw [List.map_cons, List.map_cons, length_of_unpackFixedWidth hhead, ih]

/-- **Lists of rows.** A list of rows is read back exactly when its lengths fit into 32 bits. -/
theorem unpackLists_packLists_iff (values : List (List α)) (lists name : String) :
    unpackLists (packLists values) lists name = .ok values ↔ FitsU32 values := by
  constructor
  · intro h
    by_cases hne : values = []
    · simp [hne, FitsU32]
    obtain ⟨buffers, hbuffers, hcollect⟩ := RustResult.bind_eq_ok.1 h
    rw [packLists, unpackListOfBuffers_pack (by simpa using hne)] at hbuffers
    have hcut := length_of_cutBuffers hbuffers
    rw [lengths_of_collect hcollect, List.length_map] at hcut
    have hmod := Nat.mod_lt values.length (show 0 < 2 ^ 32 by decide)
    have hcount : values.length < 2 ^ 32 := by
      have hlength := congrArg List.length hcut
      rw [List.length_map, List.length_map, List.length_take, List.length_map] at hlength
      omega
    refine ⟨hcount, fun xs hxs => ?_⟩
    rw [Nat.mod_eq_of_lt hcount, List.take_of_length_le (by simp), List.map_map] at hcut
    have hxs' := List.map_inj_left.1 hcut xs hxs
    rw [hxs']
    exact Nat.mod_lt _ (by decide)
  · rintro ⟨hcount, hlengths⟩
    have hbuffers := unpackListOfBuffers_packListOfBuffers (values.map packWords)
      (by simpa using hcount) (by simpa using hlengths) lists
    rw [unpackLists, packLists, hbuffers, RustResult.ok_bind]
    exact RustResult.collect_map_ok fun xs _ => unpackFixedWidth_packWords xs name

end Rows

/-! ### Round trips -/

theorem utf8_toString_ne_nil {α : Type} [FromStr α] [ToString α] [LawfulFromStr α] (x : α)
    (hempty : (FromStr.parse "" : Option α) = none) : utf8 (toString x) ≠ [] := by
  intro h
  have hnil : utf8 "" = [] := by decide
  exact toString_ne hempty x (utf8_injective (h.trans hnil.symm))

/-- What the prefill worker is to learn from a registration. -/
def PdDecodeKvArgsRegistration.registerInfo (registration : PdDecodeKvArgsRegistration) :
    PdKvArgsRegisterInfo :=
  { registration with room := "None" }

/-- Reading a registration gives all its fields, if the lengths of its lists fit. -/
theorem PdKvArgsRegisterInfo.fromFrame_toFrame (registration : PdDecodeKvArgsRegistration)
    (hptrs : FitsU32 registration.dstStateDataPtrs) (hlens : FitsU32 registration.dstStateItemLens)
    (hdims : FitsU32 registration.dstStateDimPerTensor) :
    PdKvArgsRegisterInfo.fromFrame registration.toFrame = .ok registration.registerInfo := by
  have hptrs' :=
    (unpackLists_packLists_iff registration.dstStateDataPtrs "u64 lists" "u64 values").2 hptrs
  have hlens' :=
    (unpackLists_packLists_iff registration.dstStateItemLens "u32 lists" "u32 values").2 hlens
  have hdims' :=
    (unpackLists_packLists_iff registration.dstStateDimPerTensor "u32 lists" "u32 values").2 hdims
  simp [PdKvArgsRegisterInfo.fromFrame, PdDecodeKvArgsRegistration.toFrame, requireMinFields,
    asciiField, field, parseU16, parseI32, parseUsize, parseField, unpackU64s, packU64s,
    unpackU64Lists, packU64Lists, optionalU32Lists, unpackU32Lists, packU32Lists, hptrs', hlens',
    hdims', PdDecodeKvArgsRegistration.registerInfo]

/-- The transfer metadata that the prefill worker has read is that of the decode worker. -/
structure PdDecodeTransferMetadata.Describes (metadata : PdDecodeTransferMetadata)
    (info : PdTransferInfo) : Prop where
  room : info.room = metadata.room
  endpoint : info.endpoint = metadata.endpoint
  dstPort : info.dstPort = metadata.dstPort
  sessionId : info.sessionId = metadata.sessionId
  requiredDstInfoNum : info.requiredDstInfoNum = metadata.requiredDstInfoNum
  isDummy : info.isDummy = metadata.isDummy
  decodePrefixLen : info.decodePrefixLen = some (metadata.decodePrefixLen.getD 0)
  destinations : metadata.isDummy = false →
    info.dstKvIndices = metadata.dstKvIndices ∧ info.dstAuxIndex = metadata.dstAuxIndex ∧
      info.dstStateIndices = metadata.dstStateIndices

/-- The frame of transfer metadata with the given destinations. -/
def PdDecodeTransferMetadata.frameWith (metadata : PdDecodeTransferMetadata)
    (dstKvIndices dstAuxIndex dstStateIndices : Bytes) : Frames :=
  [utf8 (toString metadata.room), utf8 metadata.endpoint, utf8 (toString metadata.dstPort),
    utf8 metadata.sessionId, dstKvIndices, dstAuxIndex, dstStateIndices,
    utf8 (toString metadata.requiredDstInfoNum),
    utf8 (toString (metadata.decodePrefixLen.getD 0))]

/-- Apart from the destinations the metadata is read back as it was written. -/
theorem PdTransferInfo.fromFrame_frameWith (metadata : PdDecodeTransferMetadata)
    (hroom : metadata.room.toNat < 2 ^ 63) (kv aux state : Bytes) :
    PdTransferInfo.fromFrame (metadata.frameWith kv aux state) =
      PdTransferInfo.destinations (metadata.frameWith kv aux state) (kv.isEmpty && aux.isEmpty) >>=
        fun (dstKvIndices, dstAuxIndex, dstStateIndices) => .ok
          { room := metadata.room, endpoint := metadata.endpoint, dstPort := metadata.dstPort,
            sessionId := metadata.sessionId, dstKvIndices, dstAuxIndex, dstStateIndices,
            requiredDstInfoNum := metadata.requiredDstInfoNum,
            isDummy := kv.isEmpty && aux.isEmpty,
            decodePrefixLen := some (metadata.decodePrefixLen.getD 0) } := by
  have hroom' : ¬ 9223372036854775808 ≤ metadata.room.toNat := by omega
  have hpre := utf8_toString_ne_nil (metadata.decodePrefixLen.getD 0) (by decide)
  simp [PdTransferInfo.fromFrame, PdDecodeTransferMetadata.frameWith, requireMinFields, asciiField,
    field, parseU16, parseUsize, parseField, parseBootstrapRoom, optionalUsize, hroom', hpre]

/-- Metadata that `toFrame` encodes is a dummy without destinations or has an auxiliary index. -/
theorem PdDecodeTransferMetadata.toFrame_ok {metadata : PdDecodeTransferMetadata} {frame : Frames}
    (h : metadata.toFrame = .ok frame) :
    (metadata.isDummy = true ∧ frame = metadata.frameWith [] [] []) ∨
      ∃ aux, metadata.isDummy = false ∧ metadata.dstAuxIndex = some aux ∧
        frame = metadata.frameWith (packI32s metadata.dstKvIndices) (utf8 (toString aux))
          (packI32Lists metadata.dstStateIndices) := by
  cases hdummy : metadata.isDummy with
  | true =>
      simp only [PdDecodeTransferMetadata.toFrame, hdummy, if_true, pure, Except.pure, bind,
        Except.bind, Except.ok.injEq] at h
      exact .inl ⟨rfl, h.symm⟩
  | false =>
      cases haux : metadata.dstAuxIndex with
      | none =>
          simp [PdDecodeTransferMetadata.toFrame, hdummy, haux, bind, Except.bind, throw, throwThe,
            MonadExceptOf.throw] at h
      | some aux =>
          simp only [PdDecodeTransferMetadata.toFrame, hdummy, haux, pure, Except.pure, bind,
            Except.bind, Except.ok.injEq, Bool.false_eq_true, if_false] at h
          exact .inr ⟨aux, rfl, rfl, h.symm⟩

theorem PdTransferInfo.fromFrame_toFrame_iff (metadata : PdDecodeTransferMetadata) (frame : Frames)
    (hroom : metadata.room.toNat < 2 ^ 63) (hframe : metadata.toFrame = .ok frame) :
    (∃ info, PdTransferInfo.fromFrame frame = .ok info ∧ metadata.Describes info) ↔
      metadata.isDummy ∨ FitsU32 metadata.dstStateIndices := by
  obtain ⟨hdummy, rfl⟩ | ⟨aux, hdummy, haux, rfl⟩ := metadata.toFrame_ok hframe
  · rw [PdTransferInfo.fromFrame_frameWith metadata hroom]
    refine iff_of_true ⟨_, rfl, ⟨rfl, rfl, rfl, rfl, rfl, ?_, rfl, fun h => ?_⟩⟩ (.inl hdummy)
    · simp [hdummy]
    · simp [hdummy] at h
  · have hfull : (utf8 (toString aux)).isEmpty = false := by
      simpa using utf8_toString_ne_nil aux (by decide)
    have hlists := unpackLists_packLists_iff metadata.dstStateIndices "i32 lists" "i32 values"
    rw [PdTransferInfo.fromFrame_frameWith metadata hroom]
    simp only [hdummy, hfull, Bool.and_false, Bool.false_eq_true, false_or, ← hlists,
      PdTransferInfo.destinations, PdDecodeTransferMetadata.frameWith, field, parseI32, parseField,
      asciiField, unpackI32s, packI32s, unpackI32Lists, packI32Lists, RustResult.ok_bind,
      unpackFixedWidth_packWords, fromUtf8_utf8, LawfulFromStr.parse_toString, RustResult.pure_eq,
      List.getElem?_cons_succ, List.getElem?_cons_zero, if_false]
    constructor
    · rintro ⟨info, hinfo, hdescribes⟩
      obtain ⟨parts, hparts, hok⟩ := RustResult.bind_eq_ok.1 hinfo
      obtain rfl := RustResult.ok.inj hok
      obtain ⟨state, hstate, hpart⟩ := RustResult.bind_eq_ok.1 hparts
      obtain rfl := RustResult.ok.inj hpart
      have hsame : state = metadata.dstStateIndices := (hdescribes.destinations hdummy).2.2
      rw [hstate, hsame]
    · intro hstate
      rw [hstate]
      refine ⟨_, rfl, ⟨rfl, rfl, rfl, rfl, rfl, hdummy.symm, rfl, fun _ => ?_⟩⟩
      exact ⟨rfl, haux.symm, rfl⟩

/-- **Round trips of the bootstrap frames.** A registration whose lists have lengths that fit into
32 bits is read back with all its fields. Transfer metadata of a room below `2 ^ 63` that is encoded
is read back exactly when it is a dummy or its nested state indices have lengths that fit into 32
bits. Reading arbitrary frames never panics.

Source: `sglang-srt/src/transfer/pd_bootstrap.rs`, lines 602–666, 863–929, 1578–1638, 1880–1997. -/
theorem frames_round_trip (registration : PdDecodeKvArgsRegistration)
    (metadata : PdDecodeTransferMetadata) (frame received : Frames) :
    (FitsU32 registration.dstStateDataPtrs → FitsU32 registration.dstStateItemLens →
      FitsU32 registration.dstStateDimPerTensor →
        PdKvArgsRegisterInfo.fromFrame registration.toFrame = .ok registration.registerInfo) ∧
    (metadata.room.toNat < 2 ^ 63 → metadata.toFrame = .ok frame →
      ((∃ info, PdTransferInfo.fromFrame frame = .ok info ∧ metadata.Describes info) ↔
        metadata.isDummy ∨ FitsU32 metadata.dstStateIndices)) ∧
    (PdKvArgsRegisterInfo.fromFrame received).Returns ∧
    (PdTransferInfo.fromFrame received).Returns :=
  ⟨PdKvArgsRegisterInfo.fromFrame_toFrame registration,
    PdTransferInfo.fromFrame_toFrame_iff metadata frame,
    PdKvArgsRegisterInfo.returns_fromFrame received, PdTransferInfo.returns_fromFrame received⟩

/-- The registration of a session with two buffers. -/
def sampleRegistration (sessionId : String) : PdDecodeKvArgsRegistration where
  endpoint := "10.0.0.1"
  dstPort := 7000
  sessionId := sessionId
  dstKvPtrs := [4096, 8192]
  dstAuxPtrs := []
  dstStateDataPtrs := []
  dstTpRank := 0
  dstAttnTpSize := 1
  dstKvItemLen := 64
  dstStateItemLens := []
  dstStateDimPerTensor := []

/-- Metadata with the given state indices. -/
def sampleMetadata (dstStateIndices : List (List Int32)) : PdDecodeTransferMetadata where
  room := 1
  endpoint := "10.0.0.1"
  dstPort := 7000
  sessionId := "s"
  dstKvIndices := [3, 4]
  dstAuxIndex := some 0
  dstStateIndices := dstStateIndices
  requiredDstInfoNum := 1
  decodePrefixLen := none
  isDummy := false

theorem toFrame_sampleMetadata (dstStateIndices : List (List Int32)) :
    (sampleMetadata dstStateIndices).toFrame =
      .ok ((sampleMetadata dstStateIndices).frameWith (packI32s [3, 4]) (utf8 (toString (0 : Int32)))
        (packI32Lists dstStateIndices)) :=
  rfl

theorem sampleMetadata_not_read_back (row : List Int32) (h : 2 ^ 32 ≤ row.length * 4) :
    ∃ frame, (sampleMetadata [row]).toFrame = .ok frame ∧
      ¬ ∃ info, PdTransferInfo.fromFrame frame = .ok info ∧ (sampleMetadata [row]).Describes info := by
  have hframe := toFrame_sampleMetadata [row]
  refine ⟨_, hframe, fun hread => ?_⟩
  have hroom : (sampleMetadata [row]).room.toNat < 2 ^ 63 := by
    show (1 : UInt64).toNat < 2 ^ 63
    decide
  obtain hdummy | ⟨-, hlengths⟩ := (PdTransferInfo.fromFrame_toFrame_iff _ _ hroom hframe).1 hread
  · simp [sampleMetadata] at hdummy
  · have hrow : row.length * 4 < 2 ^ 32 := hlengths row (List.mem_singleton.2 rfl)
    omega

/-- A row of `2 ^ 30` state indices takes `2 ^ 32` bytes, and its length is written as zero. -/
theorem exists_metadata_not_read_back :
    ∃ frame, (sampleMetadata [List.replicate (2 ^ 30) 0]).toFrame = .ok frame ∧
      ¬ ∃ info, PdTransferInfo.fromFrame frame = .ok info ∧
        (sampleMetadata [List.replicate (2 ^ 30) 0]).Describes info := by
  refine sampleMetadata_not_read_back (List.replicate (2 ^ 30) 0) ?_
  rw [List.length_replicate]
  decide

/-- Metadata with nested state indices that is read back. -/
theorem sampleMetadata_read_back :
    PdKvArgsRegisterInfo.fromFrame (sampleRegistration "s").toFrame =
        .ok (sampleRegistration "s").registerInfo ∧
    ∃ frame, (sampleMetadata [[1, -1], []]).toFrame = .ok frame ∧
      ∃ info, PdTransferInfo.fromFrame frame = .ok info ∧
        (sampleMetadata [[1, -1], []]).Describes info := by
  have hframe := toFrame_sampleMetadata [[1, -1], []]
  obtain ⟨hregistration, hmetadata, -⟩ :=
    frames_round_trip (sampleRegistration "s") (sampleMetadata [[1, -1], []]) _ []
  refine ⟨hregistration ?_ ?_ ?_, _, hframe, (hmetadata (by decide) hframe).2 (.inr ?_)⟩
  all_goals simp [FitsU32, sampleRegistration, sampleMetadata, LeWord.width]

end SglangRs
