import SglangRs.Arithmetic.Checked
import SglangRs.Wire.Slices

/-!
# Recurrent states on the wire

A worker that hands a request on sends the recurrent state of every layer along
(`sglang-srt/src/recurrent_state.rs`, lines 143–275): a magic number, the next position, the number
of layers, and for each layer two rows of floats with their lengths in front. Floats are 32-bit
patterns here.

The counts are cut to 32 bits when they are written. Reading follows a running offset, whose sums
panic in this model when they overflow. Before a row of floats is read its length is compared with
the bytes that are left; memory for the layers is requested for as many as the message announces.

## Main definitions

* `RecurrentStatePayload.toBytes`, `RecurrentStatePayload.fromBytes`.
* `RecurrentStatePayload.Encodable`: the counts that fit into their fields.
* `RecurrentStatePayload.LayersGranted`: the allocator grants memory for the layers announced.

## Main results

* `RecurrentStatePayload.fromBytes_eq_ok_iff`: a message is read exactly where one was written.
* `recurrent_state_codec_iff`: the round trips hold and reading returns, exactly if the memory for
  the layers is granted.
-/

namespace SglangRs

structure RecurrentLayerStatePayload where
  conv : List UInt32
  recurrent : List UInt32
deriving DecidableEq, Repr

structure RecurrentStatePayload where
  nextPosition : ℕ
  layerStates : List RecurrentLayerStatePayload
deriving DecidableEq, Repr

/-- The text of a number under the format `#X`. -/
def upperHex (n : ℕ) : String := "0x" ++ (String.ofList (Nat.toDigits 16 n)).toUpper

namespace RecurrentStatePayload

def magic : ℕ := 0x53474C52

/-! ### Writing -/

/-- The length of a row and its floats. -/
def floatsToBytes (values : List UInt32) : Bytes := natToLe 4 values.length ++ packWords values

def layerToBytes (layer : RecurrentLayerStatePayload) : Bytes :=
  floatsToBytes layer.conv ++ floatsToBytes layer.recurrent

/-- Source: `recurrent_state.rs`, lines 158–178. -/
def toBytes (payload : RecurrentStatePayload) : Bytes :=
  natToLe 4 magic ++ natToLe 8 payload.nextPosition ++ natToLe 4 payload.layerStates.length ++
    payload.layerStates.flatMap layerToBytes

/-! ### Reading -/

section Reading

variable (heap : Heap)

/-- `try_into`, whose failure is an error. -/
def tryInto (width : ℕ) (bytes : Bytes) (error : String) : RustResult String Bytes :=
  if bytes.length = width then .ok bytes else .err error

/-- The number in a field of the given width. -/
def readNat (bytes : Bytes) (start width : ℕ) (name : String) : RustResult String ℕ := do
  let stop ← usizeAdd start width
  let word ← slice bytes start stop
  let array ← tryInto width word ("failed to read " ++ name)
  return leToNat array

/-- The float with the given index in a row. -/
def readFloat (bytes : Bytes) (offset : ℕ) (name : String) (i : ℕ) : RustResult String UInt32 := do
  let elemOffset ← usizeAdd offset (← usizeMul i 4)
  let value ← readNat bytes elemOffset 4 (name ++ " float")
  return UInt32.ofNat value

/-- The bytes of the floats of a row. -/
def floatsByteLen (len : ℕ) (name : String) : RustResult String ℕ :=
  match checkedMul 64 len 4 with
  | some byteLen => .ok byteLen
  | none => .err (name ++ " byte length overflow")

/-- A row of floats, with the offset after it: the part of the loop that is written twice. -/
def readFloats (bytes : Bytes) (offset : ℕ) (name : String) :
    RustResult String (List UInt32 × ℕ) := do
  if bytes.length < (← usizeAdd offset 4) then
    .err ("unexpected EOF reading " ++ name ++ " length")
  else
    let len ← readNat bytes offset 4 (name ++ " length")
    let offset ← usizeAdd offset 4
    let byteLen ← floatsByteLen len name
    if bytes.length < (← usizeAdd offset byteLen) then
      .err ("unexpected EOF reading " ++ name ++ " data")
    else
      let _ ← (heap.withCapacity len 4 : RustResult String (List UInt32))
      let values ← RustResult.collect (readFloat bytes offset name) (List.range len)
      return (values, ← usizeAdd offset byteLen)

/-- The body of the loop over the layers. -/
def readLayer (bytes : Bytes) (offset : ℕ) :
    RustResult String (RecurrentLayerStatePayload × ℕ) := do
  let (conv, offset) ← readFloats heap bytes offset "conv"
  let (recurrent, offset) ← readFloats heap bytes offset "recurrent"
  return ({ conv, recurrent }, offset)

/-- The loop over the layers. -/
def readLayers (bytes : Bytes) : ℕ → ℕ →
    RustResult String (List RecurrentLayerStatePayload × ℕ)
  | 0, offset => return ([], offset)
  | count + 1, offset => do
      let (layer, offset) ← readLayer heap bytes offset
      let (layers, offset) ← readLayers bytes count offset
      return (layer :: layers, offset)

/-- Source: `recurrent_state.rs`, lines 180–275. -/
def fromBytes (bytes : Bytes) : RustResult String RecurrentStatePayload := do
  if bytes.length < 16 then .err "recurrent state payload too short"
  else
    let found ← readNat bytes 0 4 "magic"
    if found ≠ magic then
      .err ("invalid recurrent state magic: expected " ++ upperHex magic ++ ", found " ++
        upperHex found)
    else
      let nextPosition ← readNat bytes 4 8 "next_position"
      let layerCount ← readNat bytes 12 4 "layer_count"
      let _ ← (heap.withCapacity layerCount 48 :
        RustResult String (List RecurrentLayerStatePayload))
      let (layerStates, offset) ← readLayers heap bytes layerCount 16
      if offset ≠ bytes.length then
        .err ("trailing bytes in recurrent state payload: read " ++ toString offset ++
          ", total " ++ toString bytes.length)
      else return { nextPosition, layerStates }

end Reading

/-! ### Words in a row -/

theorem natToLe_leToNat_take {bytes : Bytes} {width : ℕ} (h : width ≤ bytes.length) :
    natToLe width (leToNat (bytes.take width)) = bytes.take width := by
  have hlength : (bytes.take width).length = width := List.length_take_of_le h
  have hround := natToLe_leToNat (bytes.take width)
  rwa [hlength] at hround

theorem leToNat_take_lt (bytes : Bytes) (width : ℕ) : leToNat (bytes.take width) < 256 ^ width := by
  refine (leToNat_lt _).trans_le (Nat.pow_le_pow_right (by decide) ?_)
  rw [List.length_take]
  exact Nat.min_le_left _ _

theorem packWord_ofNat {chunk : Bytes} (h : chunk.length = 4) :
    packWord (UInt32.ofNat (leToNat chunk)) = chunk := by
  have hlt : leToNat chunk < 2 ^ 32 := by
    have := leToNat_lt chunk
    rwa [h] at this
  have htoNat : (UInt32.ofNat (leToNat chunk)).toNat = leToNat chunk := by
    rw [UInt32.toNat_ofNat', Nat.mod_eq_of_lt hlt]
  have hround := natToLe_leToNat chunk
  rw [h] at hround
  calc packWord (UInt32.ofNat (leToNat chunk))
      = natToLe 4 (UInt32.ofNat (leToNat chunk)).toNat := rfl
    _ = chunk := by rw [htoNat, hround]

/-- The first words of the bytes. -/
def wordsOf (bytes : Bytes) (len : ℕ) : List UInt32 :=
  (List.range len).map fun i => UInt32.ofNat (leToNat ((bytes.drop (i * 4)).take 4))

@[simp] theorem length_wordsOf (bytes : Bytes) (len : ℕ) : (wordsOf bytes len).length = len := by
  simp [wordsOf]

theorem packWords_wordsOf {bytes : Bytes} {len : ℕ} (h : len * 4 ≤ bytes.length) :
    packWords (wordsOf bytes len) = bytes.take (len * 4) := by
  induction len with
  | zero => simp [wordsOf, packWords]
  | succ len ih =>
      have hchunk : ((bytes.drop (len * 4)).take 4).length = 4 := by
        rw [List.length_take, List.length_drop]
        omega
      have hsucc : wordsOf bytes (len + 1) = wordsOf bytes len ++
          [UInt32.ofNat (leToNat ((bytes.drop (len * 4)).take 4))] := by
        rw [wordsOf, List.range_succ, List.map_append]
        rfl
      rw [hsucc, packWords, List.flatMap_append, ← packWords, ih (by omega),
        List.flatMap_singleton, packWord_ofNat hchunk, Nat.succ_mul, List.take_add]

theorem wordsOf_append (values : List UInt32) (rest : Bytes) :
    wordsOf (packWords values ++ rest) values.length = values := by
  refine List.ext_getElem (length_wordsOf _ _) fun i hi hi' => ?_
  have hchunk : ((packWords values ++ rest).drop (i * 4)).take 4 = packWord values[i] :=
    Rows.take_drop_flatMap (fun b _ => length_packWord b) rest i hi'
  have hword : UInt32.ofNat (leToNat (packWord values[i])) = values[i] :=
    unpackWord_packWord values[i]
  simp only [wordsOf, List.getElem_map, List.getElem_range, hchunk, hword]

/-! ### A row of floats -/

section Rows

variable {heap : Heap} {bytes : Bytes} {offset : ℕ} {name : String}

theorem readNat_ok (hbytes : bytes.length < 2 ^ 63) {start width : ℕ}
    (h : start + width ≤ bytes.length) :
    readNat bytes start width name = .ok (leToNat ((bytes.drop start).take width)) := by
  have hlength := length_slice (Nat.le_add_right start width) h
  rw [Nat.add_sub_cancel_left] at hlength
  rw [readNat, usizeAdd_ok (by omega), RustResult.ok_bind, slice_ok (Nat.le_add_right _ _) h,
    RustResult.ok_bind, Nat.add_sub_cancel_left, tryInto, if_pos hlength, RustResult.ok_bind,
    RustResult.pure_eq]

theorem readFloat_ok (hbytes : bytes.length < 2 ^ 63) {i : ℕ}
    (h : offset + i * 4 + 4 ≤ bytes.length) : readFloat bytes offset name i =
      .ok (UInt32.ofNat (leToNat (((bytes.drop offset).drop (i * 4)).take 4))) := by
  rw [readFloat, usizeMul_ok (by omega), RustResult.ok_bind, usizeAdd_ok (by omega),
    RustResult.ok_bind, readNat_ok hbytes h, RustResult.ok_bind, RustResult.pure_eq,
    List.drop_drop]

theorem floatsByteLen_ok {len : ℕ} (h : len < 2 ^ 32) : floatsByteLen len name = .ok (len * 4) := by
  rw [floatsByteLen, checkedMul_eq (by omega)]

/-- What reading a row comes to. -/
theorem readFloats_eq (hheld : bytes.length ≤ heap.limit) (hoffset : offset ≤ bytes.length) :
    readFloats heap bytes offset name =
      let len := leToNat ((bytes.drop offset).take 4)
      if bytes.length < offset + 4 then .err ("unexpected EOF reading " ++ name ++ " length")
      else if bytes.length < offset + 4 + len * 4 then
        .err ("unexpected EOF reading " ++ name ++ " data")
      else .ok (wordsOf (bytes.drop (offset + 4)) len, offset + 4 + len * 4) := by
  have hbytes : bytes.length < 2 ^ 63 := hheld.trans_lt heap.limit_lt
  have hlen : leToNat ((bytes.drop offset).take 4) < 2 ^ 32 := leToNat_take_lt _ 4
  rw [readFloats, usizeAdd_ok (by omega), RustResult.ok_bind]
  dsimp only
  by_cases hlength : bytes.length < offset + 4
  · rw [if_pos hlength, if_pos hlength]
  have hcollect (h : ¬bytes.length < offset + 4 + leToNat ((bytes.drop offset).take 4) * 4) :
      RustResult.collect (readFloat bytes (offset + 4) name)
        (List.range (leToNat ((bytes.drop offset).take 4))) =
          .ok (wordsOf (bytes.drop (offset + 4)) (leToNat ((bytes.drop offset).take 4))) := by
    refine RustResult.collect_eq_map fun i hi => ?_
    have := List.mem_range.mp hi
    exact readFloat_ok hbytes (by omega)
  rw [if_neg hlength, if_neg hlength, readNat_ok hbytes (by omega), RustResult.ok_bind,
    RustResult.ok_bind, floatsByteLen_ok hlen, RustResult.ok_bind, usizeAdd_ok (by omega),
    RustResult.ok_bind]
  by_cases hdata : bytes.length < offset + 4 + leToNat ((bytes.drop offset).take 4) * 4
  · rw [if_pos hdata, if_pos hdata]
  · rw [if_neg hdata, if_neg hdata, Heap.withCapacity_ok (by omega), RustResult.ok_bind,
      hcollect hdata, RustResult.ok_bind, RustResult.ok_bind, RustResult.pure_eq]

theorem returns_readFloats (hheld : bytes.length ≤ heap.limit) (hoffset : offset ≤ bytes.length) :
    (readFloats heap bytes offset name).Returns := by
  rw [readFloats_eq hheld hoffset]
  dsimp only
  split_ifs <;> simp

@[simp] theorem length_floatsToBytes (values : List UInt32) :
    (floatsToBytes values).length = 4 + values.length * 4 := by
  rw [floatsToBytes, List.length_append, length_natToLe, length_packWords]
  rfl

/-- A row is read exactly where one was written. -/
theorem readFloats_eq_ok_iff (hheld : bytes.length ≤ heap.limit) (hoffset : offset ≤ bytes.length)
    {values : List UInt32} {stop : ℕ} :
    readFloats heap bytes offset name = .ok (values, stop) ↔
      values.length < 2 ^ 32 ∧ stop ≤ bytes.length ∧
        bytes.drop offset = floatsToBytes values ++ bytes.drop stop := by
  have hdrop : (bytes.drop offset).length = bytes.length - offset := List.length_drop
  rw [readFloats_eq hheld hoffset]
  constructor
  · intro h
    dsimp only at h
    split_ifs at h with hlength hdata
    obtain ⟨rfl, rfl⟩ := Prod.mk.inj (RustResult.ok.inj h)
    have hfloats : leToNat ((bytes.drop offset).take 4) * 4 ≤ (bytes.drop (offset + 4)).length := by
      rw [List.length_drop]
      omega
    refine ⟨by rw [length_wordsOf]; exact leToNat_take_lt _ 4, by omega, ?_⟩
    have hrest : bytes.drop (offset + 4 + leToNat ((bytes.drop offset).take 4) * 4) =
        (bytes.drop (offset + 4)).drop (leToNat ((bytes.drop offset).take 4) * 4) := by
      rw [List.drop_drop]
    rw [floatsToBytes, length_wordsOf, natToLe_leToNat_take (by omega), packWords_wordsOf hfloats,
      hrest, List.append_assoc, List.take_append_drop, ← List.drop_drop, List.take_append_drop]
  · rintro ⟨hlen, hstop, hrow⟩
    have htotal := congrArg List.length hrow
    rw [List.length_append, length_floatsToBytes, List.length_drop, List.length_drop] at htotal
    rw [floatsToBytes, List.append_assoc] at hrow
    have htake : leToNat ((bytes.drop offset).take 4) = values.length := by
      rw [hrow, List.take_left' (length_natToLe 4 _), leToNat_natToLe]
      exact Nat.mod_eq_of_lt hlen
    have hrest : bytes.drop (offset + 4) = packWords values ++ bytes.drop stop := by
      rw [← List.drop_drop, hrow, List.drop_left' (length_natToLe 4 _)]
    dsimp only
    rw [htake, if_neg (by omega), if_neg (by omega), hrest, wordsOf_append,
      show offset + 4 + values.length * 4 = stop by omega]

end Rows

/-! ### Layers -/

/-- A layer whose rows have lengths below `2 ^ 32`. -/
def Fits (layer : RecurrentLayerStatePayload) : Prop :=
  layer.conv.length < 2 ^ 32 ∧ layer.recurrent.length < 2 ^ 32

section Layers

variable {heap : Heap} {bytes : Bytes} {offset : ℕ}

theorem returns_readLayer (hheld : bytes.length ≤ heap.limit) (hoffset : offset ≤ bytes.length) :
    (readLayer heap bytes offset).Returns := by
  refine (returns_readFloats hheld hoffset).bind fun ⟨conv, middle⟩ hconv => ?_
  obtain ⟨-, hmiddle, -⟩ := (readFloats_eq_ok_iff hheld hoffset).mp hconv
  exact (returns_readFloats hheld hmiddle).bind fun _ _ => RustResult.returns_ok _

/-- A layer is read exactly where one was written. -/
theorem readLayer_eq_ok_iff (hheld : bytes.length ≤ heap.limit) (hoffset : offset ≤ bytes.length)
    {layer : RecurrentLayerStatePayload} {stop : ℕ} :
    readLayer heap bytes offset = .ok (layer, stop) ↔
      Fits layer ∧ stop ≤ bytes.length ∧
        bytes.drop offset = layerToBytes layer ++ bytes.drop stop := by
  constructor
  · intro h
    obtain ⟨⟨conv, middle⟩, hconv, h⟩ := RustResult.bind_eq_ok.mp h
    obtain ⟨⟨recurrent, stop'⟩, hrecurrent, h⟩ := RustResult.bind_eq_ok.mp h
    obtain ⟨rfl, rfl⟩ := Prod.mk.inj (RustResult.ok.inj h)
    obtain ⟨hconvLen, hmiddle, hconvBytes⟩ := (readFloats_eq_ok_iff hheld hoffset).mp hconv
    obtain ⟨hrecLen, hstop, hrecBytes⟩ := (readFloats_eq_ok_iff hheld hmiddle).mp hrecurrent
    refine ⟨⟨hconvLen, hrecLen⟩, hstop, ?_⟩
    rw [hconvBytes, hrecBytes, layerToBytes, List.append_assoc]
  · rintro ⟨⟨hconvLen, hrecLen⟩, hstop, hlayer⟩
    rw [layerToBytes, List.append_assoc] at hlayer
    have htotal := congrArg List.length hlayer
    rw [List.length_append, List.length_append, List.length_drop, List.length_drop] at htotal
    have hmiddle : bytes.drop (offset + (floatsToBytes layer.conv).length) =
        floatsToBytes layer.recurrent ++ bytes.drop stop := by
      rw [← List.drop_drop, hlayer, List.drop_left]
    have hconv : readFloats heap bytes offset "conv" =
        .ok (layer.conv, offset + (floatsToBytes layer.conv).length) :=
      (readFloats_eq_ok_iff hheld hoffset).mpr ⟨hconvLen, by omega, by rw [hlayer, hmiddle]⟩
    have hrecurrent : readFloats heap bytes (offset + (floatsToBytes layer.conv).length)
        "recurrent" = .ok (layer.recurrent, stop) :=
      (readFloats_eq_ok_iff hheld (by omega)).mpr ⟨hrecLen, hstop, hmiddle⟩
    rw [readLayer, hconv, RustResult.ok_bind]
    dsimp only
    rw [hrecurrent, RustResult.ok_bind]
    rfl

theorem returns_readLayers (hheld : bytes.length ≤ heap.limit) (count : ℕ)
    (hoffset : offset ≤ bytes.length) : (readLayers heap bytes count offset).Returns := by
  induction count generalizing offset with
  | zero => exact RustResult.returns_ok _
  | succ count ih =>
      refine (returns_readLayer hheld hoffset).bind fun ⟨layer, middle⟩ hlayer => ?_
      obtain ⟨-, hmiddle, -⟩ := (readLayer_eq_ok_iff hheld hoffset).mp hlayer
      exact (ih hmiddle).bind fun _ _ => RustResult.returns_ok _

/-- As many layers are read as were written. -/
theorem readLayers_eq_ok_iff (hheld : bytes.length ≤ heap.limit) {count : ℕ}
    (hoffset : offset ≤ bytes.length) {layers : List RecurrentLayerStatePayload} {stop : ℕ} :
    readLayers heap bytes count offset = .ok (layers, stop) ↔
      layers.length = count ∧ (∀ layer ∈ layers, Fits layer) ∧ stop ≤ bytes.length ∧
        bytes.drop offset = layers.flatMap layerToBytes ++ bytes.drop stop := by
  induction count generalizing offset layers with
  | zero =>
      constructor
      · intro h
        obtain ⟨rfl, rfl⟩ := Prod.mk.inj (RustResult.ok.inj h)
        exact ⟨rfl, by simp, hoffset, by simp⟩
      · rintro ⟨hlen, -, hstop, hrest⟩
        obtain rfl := List.length_eq_zero_iff.mp hlen
        have htotal := congrArg List.length hrest
        rw [List.flatMap_nil, List.nil_append, List.length_drop, List.length_drop] at htotal
        rw [readLayers, show offset = stop by omega]
        rfl
  | succ count ih =>
      constructor
      · intro h
        obtain ⟨⟨layer, middle⟩, hlayer, h⟩ := RustResult.bind_eq_ok.mp h
        obtain ⟨⟨rest, stop'⟩, hrest, h⟩ := RustResult.bind_eq_ok.mp h
        obtain ⟨rfl, rfl⟩ := Prod.mk.inj (RustResult.ok.inj h)
        obtain ⟨hfits, hmiddle, hbytesLayer⟩ := (readLayer_eq_ok_iff hheld hoffset).mp hlayer
        obtain ⟨hlen, hfitsRest, hstop, hbytesRest⟩ := (ih hmiddle).mp hrest
        refine ⟨by rw [List.length_cons, hlen], List.forall_mem_cons.mpr ⟨hfits, hfitsRest⟩, hstop,
          ?_⟩
        rw [hbytesLayer, hbytesRest, List.flatMap_cons, List.append_assoc]
      · rintro ⟨hlen, hfits, hstop, hlayers⟩
        obtain ⟨layer, rest, rfl⟩ := List.exists_cons_of_length_eq_add_one hlen
        obtain ⟨hfitsLayer, hfitsRest⟩ := List.forall_mem_cons.mp hfits
        rw [List.flatMap_cons, List.append_assoc] at hlayers
        have htotal := congrArg List.length hlayers
        rw [List.length_append, List.length_append, List.length_drop, List.length_drop] at htotal
        have hmiddle : bytes.drop (offset + (layerToBytes layer).length) =
            rest.flatMap layerToBytes ++ bytes.drop stop := by
          rw [← List.drop_drop, hlayers, List.drop_left]
        have hlayer : readLayer heap bytes offset =
            .ok (layer, offset + (layerToBytes layer).length) :=
          (readLayer_eq_ok_iff hheld hoffset).mpr ⟨hfitsLayer, by omega, by rw [hlayers, hmiddle]⟩
        have hrest : readLayers heap bytes count (offset + (layerToBytes layer).length) =
            .ok (rest, stop) :=
          (ih (by omega)).mpr ⟨Nat.succ.inj hlen, hfitsRest, hstop, hmiddle⟩
        rw [readLayers, hlayer, RustResult.ok_bind]
        dsimp only
        rw [hrest, RustResult.ok_bind]
        rfl

end Layers

/-! ### The whole state -/

/-- The position and the counts fit into their fields. -/
structure Encodable (payload : RecurrentStatePayload) : Prop where
  nextPosition_lt : payload.nextPosition < 2 ^ 64
  layerCount_lt : payload.layerStates.length < 2 ^ 32
  fits : ∀ layer ∈ payload.layerStates, Fits layer

variable {heap : Heap} {bytes : Bytes}

/-- The fields of a message that was written. -/
theorem fields_toBytes {payload : RecurrentStatePayload} (h : payload.Encodable) :
    leToNat (payload.toBytes.take 4) = magic ∧
      leToNat ((payload.toBytes.drop 4).take 8) = payload.nextPosition ∧
      leToNat ((payload.toBytes.drop 12).take 4) = payload.layerStates.length ∧
      payload.toBytes.drop 16 = payload.layerStates.flatMap layerToBytes := by
  have hparts : payload.toBytes = natToLe 4 magic ++ (natToLe 8 payload.nextPosition ++
      (natToLe 4 payload.layerStates.length ++ payload.layerStates.flatMap layerToBytes)) := by
    rw [toBytes, List.append_assoc, List.append_assoc]
  have h4 : payload.toBytes.drop 4 = natToLe 8 payload.nextPosition ++
      (natToLe 4 payload.layerStates.length ++ payload.layerStates.flatMap layerToBytes) := by
    rw [hparts, List.drop_left' (length_natToLe 4 _)]
  have h12 : payload.toBytes.drop 12 =
      natToLe 4 payload.layerStates.length ++ payload.layerStates.flatMap layerToBytes := by
    rw [show 12 = 4 + 8 from rfl, ← List.drop_drop, h4, List.drop_left' (length_natToLe 8 _)]
  refine ⟨?_, ?_, ?_, ?_⟩
  · rw [hparts, List.take_left' (length_natToLe 4 _), leToNat_natToLe]
    rfl
  · rw [h4, List.take_left' (length_natToLe 8 _), leToNat_natToLe]
    exact Nat.mod_eq_of_lt h.nextPosition_lt
  · rw [h12, List.take_left' (length_natToLe 4 _), leToNat_natToLe]
    exact Nat.mod_eq_of_lt h.layerCount_lt
  · rw [show 16 = 12 + 4 from rfl, ← List.drop_drop, h12, List.drop_left' (length_natToLe 4 _)]

/-- The bytes are their fields and what follows them. -/
theorem fields_append (h : 16 ≤ bytes.length) :
    natToLe 4 (leToNat (bytes.take 4)) ++ natToLe 8 (leToNat ((bytes.drop 4).take 8)) ++
      natToLe 4 (leToNat ((bytes.drop 12).take 4)) ++ bytes.drop 16 = bytes := by
  have h4 : (bytes.drop 4).length = bytes.length - 4 := List.length_drop
  have h12 : (bytes.drop 12).length = bytes.length - 12 := List.length_drop
  rw [natToLe_leToNat_take (by omega), natToLe_leToNat_take (by omega),
    natToLe_leToNat_take (by omega), show 16 = 12 + 4 from rfl, ← List.drop_drop, List.append_assoc,
    List.take_append_drop, show 12 = 4 + 8 from rfl, ← List.drop_drop, List.append_assoc,
    List.take_append_drop, List.take_append_drop]

/-- The number of layers that a message announces. -/
def announcedLayers (bytes : Bytes) : ℕ := leToNat ((bytes.drop 12).take 4)

/-- A message is either rejected at its magic number, or the allocator grants memory for as many
layers as it announces. -/
def LayersGranted (heap : Heap) (bytes : Bytes) : Prop :=
  bytes.length < 16 ∨ leToNat (bytes.take 4) ≠ magic ∨ announcedLayers bytes * 48 ≤ heap.limit

instance (heap : Heap) (bytes : Bytes) : Decidable (LayersGranted heap bytes) :=
  inferInstanceAs (Decidable (_ ∨ _))

/-- What is left to do after the magic number. -/
theorem fromBytes_eq (hheld : bytes.length ≤ heap.limit) (hlength : 16 ≤ bytes.length)
    (hmagic : leToNat (bytes.take 4) = magic) : fromBytes heap bytes = do
      let _ ← (heap.withCapacity (announcedLayers bytes) 48 :
        RustResult String (List RecurrentLayerStatePayload))
      let (layerStates, offset) ← readLayers heap bytes (announcedLayers bytes) 16
      if offset ≠ bytes.length then
        .err ("trailing bytes in recurrent state payload: read " ++ toString offset ++
          ", total " ++ toString bytes.length)
      else return { nextPosition := leToNat ((bytes.drop 4).take 8), layerStates } := by
  have hbytes : bytes.length < 2 ^ 63 := hheld.trans_lt heap.limit_lt
  rw [fromBytes, if_neg (by omega), readNat_ok hbytes (by omega), RustResult.ok_bind,
    List.drop_zero, if_neg (not_not.mpr hmagic), readNat_ok hbytes (by omega), RustResult.ok_bind,
    readNat_ok hbytes (by omega), RustResult.ok_bind]
  rfl

theorem le_length_of_fromBytes {payload : RecurrentStatePayload}
    (h : fromBytes heap bytes = .ok payload) : 16 ≤ bytes.length := by
  by_contra hshort
  rw [fromBytes, if_pos (by omega)] at h
  cases h

theorem magic_of_fromBytes (hheld : bytes.length ≤ heap.limit) {payload : RecurrentStatePayload}
    (h : fromBytes heap bytes = .ok payload) : leToNat (bytes.take 4) = magic := by
  have hlength := le_length_of_fromBytes h
  by_contra hmagic
  rw [fromBytes, if_neg (by omega), readNat_ok (hheld.trans_lt heap.limit_lt) (by omega),
    RustResult.ok_bind, List.drop_zero, if_pos hmagic] at h
  cases h

/-- A message is read exactly where one was written whose layers are granted memory. -/
theorem fromBytes_eq_ok_iff (hheld : bytes.length ≤ heap.limit) {payload : RecurrentStatePayload} :
    fromBytes heap bytes = .ok payload ↔
      payload.Encodable ∧ payload.toBytes = bytes ∧
        payload.layerStates.length * 48 ≤ heap.limit := by
  constructor
  · intro h
    have hlength := le_length_of_fromBytes h
    have hmagic := magic_of_fromBytes hheld h
    rw [fromBytes_eq hheld hlength hmagic, RustResult.bind_eq_ok] at h
    obtain ⟨_, hgranted, h⟩ := h
    obtain ⟨⟨layers, stop⟩, hlayers, h⟩ := RustResult.bind_eq_ok.mp h
    dsimp only at h
    split_ifs at h with hstop
    obtain rfl := RustResult.ok.inj h
    obtain ⟨hcount, hfits, -, hrest⟩ := (readLayers_eq_ok_iff hheld hlength).mp hlayers
    have hflat : bytes.drop 16 = layers.flatMap layerToBytes := by
      rw [hrest, not_not.mp hstop, List.drop_length, List.append_nil]
    unfold Heap.withCapacity at hgranted
    split_ifs at hgranted with hle
    refine ⟨⟨leToNat_take_lt _ 8, hcount ▸ leToNat_take_lt _ 4, hfits⟩, ?_, hcount ▸ hle⟩
    conv_rhs => rw [← fields_append hlength]
    rw [toBytes, ← hmagic, hcount, hflat]
    rfl
  · rintro ⟨h, rfl, hgranted⟩
    obtain ⟨hmagic, hposition, hcount, hlayers⟩ := fields_toBytes h
    have hlength : 16 ≤ payload.toBytes.length := by
      rw [toBytes, List.length_append, List.length_append, List.length_append, length_natToLe,
        length_natToLe, length_natToLe]
      omega
    have hread : readLayers heap payload.toBytes payload.layerStates.length 16 =
        .ok (payload.layerStates, payload.toBytes.length) :=
      (readLayers_eq_ok_iff hheld hlength).mpr
        ⟨rfl, h.fits, le_rfl, by rw [hlayers, List.drop_length, List.append_nil]⟩
    rw [fromBytes_eq hheld hlength hmagic, announcedLayers, hcount, hposition,
      Heap.withCapacity_ok hgranted, RustResult.ok_bind, hread, RustResult.ok_bind]
    exact if_neg (not_not.mpr rfl)

/-- **Reading returns exactly if the memory for the layers is granted.** -/
theorem returns_fromBytes_iff (hheld : bytes.length ≤ heap.limit) :
    (fromBytes heap bytes).Returns ↔ LayersGranted heap bytes := by
  by_cases hlength : bytes.length < 16
  · rw [fromBytes, if_pos hlength]
    exact iff_of_true (RustResult.returns_err _) (.inl hlength)
  by_cases hmagic : leToNat (bytes.take 4) = magic
  · rw [fromBytes_eq hheld (by omega) hmagic]
    by_cases hgranted : announcedLayers bytes * 48 ≤ heap.limit
    · rw [Heap.withCapacity_ok hgranted, RustResult.ok_bind]
      refine iff_of_true ?_ (.inr (.inr hgranted))
      refine (returns_readLayers hheld _ (by omega)).bind fun ⟨layers, stop⟩ _ => ?_
      dsimp only
      split_ifs
      · exact RustResult.returns_err _
      · exact RustResult.returns_ok _
    · rw [Heap.withCapacity, if_neg hgranted]
      refine iff_of_false (fun h => h rfl) ?_
      rintro (hshort | hother | hle)
      · exact hlength hshort
      · exact hother hmagic
      · exact hgranted hle
  · rw [fromBytes, if_neg hlength, readNat_ok (hheld.trans_lt heap.limit_lt) (by omega),
      RustResult.ok_bind, List.drop_zero, if_pos hmagic]
    exact iff_of_true (RustResult.returns_err _) (.inr (.inl hmagic))

/-- A message whose layers fit into memory announces no more of them than are granted. -/
theorem layersGranted_toBytes {payload : RecurrentStatePayload} (h : payload.Encodable) :
    LayersGranted heap payload.toBytes → payload.layerStates.length * 48 ≤ heap.limit := by
  obtain ⟨hmagic, -, hcount, -⟩ := fields_toBytes h
  rintro (hshort | hother | hle)
  · rw [toBytes, List.length_append, List.length_append, List.length_append, length_natToLe,
      length_natToLe, length_natToLe] at hshort
    omega
  · exact absurd hmagic hother
  · rwa [announcedLayers, hcount] at hle

end RecurrentStatePayload

open RecurrentStatePayload

/-- **The codec of recurrent states.** A state whose position and counts fit into their fields is
read back from what was written of it, what is accepted is what would be written of the state read,
and reading returns a state or an error, never leaves the bytes and overflows no offset: all of this
holds of a message exactly if it is rejected at its magic number or the allocator grants memory for
the layers that it announces. -/
theorem recurrent_state_codec_iff (heap : Heap) (slice : heap.Slice) :
    ((∀ payload : RecurrentStatePayload, payload.Encodable → payload.toBytes = slice.bytes →
        fromBytes heap slice.bytes = .ok payload) ∧
      (∀ payload, fromBytes heap slice.bytes = .ok payload → payload.toBytes = slice.bytes) ∧
      (fromBytes heap slice.bytes).Returns) ↔
    LayersGranted heap slice.bytes := by
  refine ⟨fun h => (returns_fromBytes_iff slice.length_le).mp h.2.2, fun hgranted => ⟨?_, ?_, ?_⟩⟩
  · intro payload h hbytes
    refine (fromBytes_eq_ok_iff slice.length_le).mpr ⟨h, hbytes, layersGranted_toBytes h ?_⟩
    rwa [hbytes]
  · exact fun payload h => ((fromBytes_eq_ok_iff slice.length_le).mp h).2.1
  · exact (returns_fromBytes_iff slice.length_le).mpr hgranted

/-- A header that announces `2 ^ 32 - 1` layers. -/
def announcingHeader : Bytes := natToLe 4 magic ++ natToLe 8 0 ++ natToLe 4 (2 ^ 32 - 1)

/-- With 64 GiB of memory these 16 bytes abort the process: nothing is returned. -/
theorem announced_layers_abort :
    announcingHeader.length = 16 ∧ fromBytes ⟨2 ^ 36, by decide⟩ announcingHeader = .panicked ∧
      ¬(fromBytes ⟨2 ^ 36, by decide⟩ announcingHeader).Returns :=
  ⟨by decide, by decide, fun h => h (by decide)⟩

/-- A state of one layer. -/
def sampleState : RecurrentStatePayload := ⟨1, [⟨[0x3F800000], [0x40000000]⟩]⟩

/-- The theorem applied to a state of one layer, through the wire and back, in a megabyte. -/
theorem recurrent_state_codec_of_layer :
    fromBytes ⟨2 ^ 20, by decide⟩ sampleState.toBytes = .ok sampleState :=
  ((recurrent_state_codec_iff ⟨2 ^ 20, by decide⟩ ⟨sampleState.toBytes, by decide⟩).mpr
    (by decide)).1 sampleState ⟨by decide, by decide, by simp [sampleState, Fits]⟩ rfl

end SglangRs
