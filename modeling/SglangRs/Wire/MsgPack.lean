import SglangRs.Wire.Slices

/-!
# MessagePack

A program that writes and reads MessagePack by hand calls a library for single values and lays out
the arrays itself. `MsgPack` is such a library: the values it writes, the readers it offers for a
value of an expected type, and the errors it makes. `MsgPack.Lawful` is what a program relies on:
every reader gives back a written value that its type can hold, and refuses every other one. The
array decoders over such a library (`deserializeSeq`, `nextElement`, `whileSome`) follow `SeqAccess`
of `serde`: an array is read through the number of elements that are left of those its head
announces.

The last part is the format itself, as a library with these laws.

## Main definitions

* `Primitive`, `MsgPack`, `MsgPack.Lawful`: the values and the library.
* `MsgPack.deserializeSeq`, `nextElement`, `whileSome`: arrays.
* `messagePack`: the format.

## Main results

* `whileSome_flatMap`: a loop over the elements of a written array is a fold over them.
* `readToken_write`, `messagePack_lawful`: the format is read back.
-/

namespace SglangRs

/-! ### The library -/

/-- A value that is written by one call: the head of an array, a text, an integer, nil or the bits
of a floating-point number. -/
inductive Primitive where
  | array (len : UInt32)
  | str (text : String)
  | sint (value : Int64)
  | uint (value : UInt64)
  | nil
  | f64 (bits : UInt64)
deriving DecidableEq, Repr

/-- What a reader finds. The format does not tell a signed writer from an unsigned one. -/
inductive Token where
  | array (len : ℕ)
  | str (text : String)
  | int (value : ℤ)
  | nil
  | f64 (bits : UInt64)
deriving DecidableEq, Repr

def Primitive.token : Primitive → Token
  | .array len => .array len.toNat
  | .str text => .str text
  | .sint value => .int value.toInt
  | .uint value => .int value.toNat
  | .nil => .nil
  | .f64 bits => .f64 bits

namespace Token

def len? : Token → Option ℕ
  | .array len => some len
  | _ => none

def str? : Token → Option String
  | .str text => some text
  | _ => none

def f64? : Token → Option UInt64
  | .f64 bits => some bits
  | _ => none

/-- The number, if a signed word of 64 bits holds it. -/
def i64? : Token → Option Int64
  | .int z => if (Int64.ofInt z).toInt = z then some (Int64.ofInt z) else none
  | _ => none

/-- The number, if an unsigned word of 32 bits holds it. -/
def u32? : Token → Option UInt32
  | .int z =>
      if (UInt32.ofNat z.toNat).toNat = z then some (UInt32.ofNat z.toNat) else none
  | _ => none

@[simp] theorem i64?_toInt (x : Int64) : (int x.toInt).i64? = some x := by
  simp [i64?]

/-- A word of half the width is small enough to be read as a signed number. -/
theorem i64?_uint32 (x : UInt32) : (int x.toNat).i64? = some (Int64.ofInt x.toNat) := by
  have hlt := x.toNat_lt
  have hvalue : (Int64.ofInt x.toNat).toInt = x.toNat := by
    rw [Int64.toInt_ofInt]
    exact Int.bmod_eq_of_le (by simp [Int64.size]) (by simp [Int64.size]; omega)
  exact if_pos hvalue

theorem u32?_natCast (n : ℕ) :
    (int n).u32? = if n < 2 ^ 32 then some (UInt32.ofNat n) else none := by
  have hvalue : ((UInt32.ofNat n).toNat : ℤ) = n ↔ n < 2 ^ 32 := by
    rw [UInt32.toNat_ofNat', Nat.cast_inj]
    exact Nat.mod_eq_iff_lt (by decide)
  simp only [u32?, Int.toNat_natCast]
  exact if_congr hvalue rfl rfl

theorem u32?_uint32 (x : UInt32) : (int x.toNat).u32? = some x := by
  rw [u32?_natCast, if_pos x.toNat_lt, UInt32.ofNat_toNat]

end Token

/-- A MessagePack library with errors `ε`: the writer (`rmp::encode`), the readers of a value of a
given type (`rmp_serde::decode`), each with the bytes that are left, and the errors of
`serde::de::Error` with their texts. -/
structure MsgPack (ε : Type) where
  write : Primitive → Bytes
  arrayLen : Bytes → Except ε (ℕ × Bytes)
  i64 : Bytes → Except ε (Int64 × Bytes)
  u32 : Bytes → Except ε (UInt32 × Bytes)
  f64 : Bytes → Except ε (UInt64 × Bytes)
  str : Bytes → Except ε (String × Bytes)
  nil? : Bytes → Option Bytes
  ignoredAny : Bytes → Except ε Bytes
  custom : String → ε
  missingField : String → ε
  unknownVariant : String → List String → ε
  toString : ε → String

/-- A reader: a value and the bytes after it. -/
abbrev Reader (ε α : Type) := Bytes → RustResult ε (α × Bytes)

/-- A reader of the library. -/
def Reader.of {ε α : Type} (read : Bytes → Except ε (α × Bytes)) : Reader ε α := fun bytes =>
  RustResult.ofExcept (read bytes)

namespace MsgPack

variable {ε α : Type} (mp : MsgPack ε)

def writeArrayLen (len : UInt32) : Bytes := mp.write (.array len)

def writeStr (text : String) : Bytes := mp.write (.str text)

def writeSint (value : Int64) : Bytes := mp.write (.sint value)

def writeUint (value : UInt64) : Bytes := mp.write (.uint value)

def writeNil : Bytes := mp.write .nil

def writeF64 (bits : UInt64) : Bytes := mp.write (.f64 bits)

/-- An optional value is nil or a value. -/
def option (read : Reader ε α) : Reader ε (Option α) := fun bytes =>
  match mp.nil? bytes with
  | some rest => .ok (none, rest)
  | none => do
      let (a, rest) ← read bytes
      return (some a, rest)

/-- What a program relies on when it uses the library: a reader gives back what was written, if its
type holds the value, and returns an error otherwise. Of the numbers that are read as floating-point
ones only those that were written as such matter here. -/
structure Lawful : Prop where
  arrayLen_write : ∀ p rest,
    (mp.arrayLen (mp.write p ++ rest)).toOption = p.token.len?.map (·, rest)
  i64_write : ∀ p rest, (mp.i64 (mp.write p ++ rest)).toOption = p.token.i64?.map (·, rest)
  u32_write : ∀ p rest, (mp.u32 (mp.write p ++ rest)).toOption = p.token.u32?.map (·, rest)
  str_write : ∀ p rest, (mp.str (mp.write p ++ rest)).toOption = p.token.str?.map (·, rest)
  f64_write : ∀ bits rest, (mp.f64 (mp.write (.f64 bits) ++ rest)).toOption = some (bits, rest)
  nil?_write : ∀ p rest, mp.nil? (mp.write p ++ rest) = if p = .nil then some rest else none
  toString_custom : ∀ text, mp.toString (mp.custom text) = text

namespace Lawful

variable {mp : MsgPack ε} (h : mp.Lawful)

include h

theorem i64_sint (x : Int64) (rest : Bytes) :
    Reader.of mp.i64 (mp.writeSint x ++ rest) = .ok (x, rest) :=
  RustResult.ofExcept_eq_ok (by simp [writeSint, h.i64_write, Primitive.token])

theorem i64_uint (x : UInt32) (rest : Bytes) :
    Reader.of mp.i64 (mp.writeUint x.toUInt64 ++ rest) = .ok (Int64.ofInt x.toNat, rest) :=
  RustResult.ofExcept_eq_ok (by
    rw [writeUint, h.i64_write, Primitive.token, UInt32.toNat_toUInt64, Token.i64?_uint32,
      Option.map_some])

theorem u32_uint (x : UInt32) (rest : Bytes) :
    Reader.of mp.u32 (mp.writeUint x.toUInt64 ++ rest) = .ok (x, rest) :=
  RustResult.ofExcept_eq_ok (by
    rw [writeUint, h.u32_write, Primitive.token, UInt32.toNat_toUInt64, Token.u32?_uint32,
      Option.map_some])

theorem u32_ofNat {n : ℕ} (hn : n < 2 ^ 32) (rest : Bytes) :
    Reader.of mp.u32 (mp.writeUint (UInt64.ofNat n) ++ rest) = .ok (UInt32.ofNat n, rest) :=
  RustResult.ofExcept_eq_ok (by
    rw [writeUint, h.u32_write, Primitive.token,
      UInt64.toNat_ofNat_of_lt' (hn.trans (by decide)), Token.u32?_natCast, if_pos hn,
      Option.map_some])

theorem u32_ofNat_err {n : ℕ} (hn : n < 2 ^ 64) (hlarge : 2 ^ 32 ≤ n) (rest : Bytes) :
    ∃ e, Reader.of mp.u32 (mp.writeUint (UInt64.ofNat n) ++ rest) = .err e :=
  RustResult.ofExcept_eq_err (by
    rw [writeUint, h.u32_write, Primitive.token, UInt64.toNat_ofNat_of_lt' hn,
      Token.u32?_natCast, if_neg hlarge.not_gt, Option.map_none])

theorem f64_f64 (bits : UInt64) (rest : Bytes) :
    Reader.of mp.f64 (mp.writeF64 bits ++ rest) = .ok (bits, rest) :=
  RustResult.ofExcept_eq_ok (h.f64_write bits rest)

theorem str_str (text : String) (rest : Bytes) :
    Reader.of mp.str (mp.writeStr text ++ rest) = .ok (text, rest) :=
  RustResult.ofExcept_eq_ok (h.str_write _ rest)

theorem str_err {p : Primitive} (hp : p.token.str? = none) (rest : Bytes) :
    ∃ e, Reader.of mp.str (mp.write p ++ rest) = .err e :=
  RustResult.ofExcept_eq_err (by rw [h.str_write, hp, Option.map_none])

theorem option_nil (read : Reader ε α) (rest : Bytes) :
    mp.option read (mp.writeNil ++ rest) = .ok (none, rest) := by
  simp [option, writeNil, h.nil?_write]

/-- A value other than nil is read as itself. -/
theorem option_write {p : Primitive} (hp : p ≠ .nil) (read : Reader ε α) (rest : Bytes) :
    mp.option read (mp.write p ++ rest) =
      read (mp.write p ++ rest) >>= fun x => .ok (some x.1, x.2) := by
  simp only [option, h.nil?_write, if_neg hp]
  rfl

theorem option_ok {p : Primitive} (hp : p ≠ .nil) {read : Reader ε α} {a : α} {rest : Bytes}
    (hread : read (mp.write p ++ rest) = .ok (a, rest)) :
    mp.option read (mp.write p ++ rest) = .ok (some a, rest) := by
  rw [h.option_write hp, hread, RustResult.ok_bind]

theorem option_isErr {p : Primitive} (hp : p ≠ .nil) {read : Reader ε α} {rest : Bytes}
    (hread : (read (mp.write p ++ rest)).IsErr) :
    (mp.option read (mp.write p ++ rest)).IsErr := by
  rw [h.option_write hp]
  exact RustResult.IsErr.bind hread _

end Lawful

end MsgPack

/-! ### Arrays -/

/-- An array that is being read: the number of elements that are left, and the bytes. -/
structure SeqAccess where
  left : ℕ
  bytes : Bytes

/-- A visitor of an array. -/
abbrev Visit (ε α : Type) := SeqAccess → RustResult ε (α × SeqAccess)

section Arrays

variable {ε α β : Type}

/-- The next element, if there is one. -/
def nextElement (read : Reader ε α) : Visit ε (Option α) := fun seq =>
  match seq.left with
  | 0 => .ok (none, seq)
  | left + 1 => do
      let (a, bytes) ← read seq.bytes
      return (some a, ⟨left, bytes⟩)

/-- The loop over the elements that are left. -/
def whileSome (read : Reader ε α) (body : β → α → RustResult ε β) (b : β) : Visit ε β := fun seq =>
  go seq.left b seq.bytes
where
  go : ℕ → β → Bytes → RustResult ε (β × SeqAccess)
  | 0, b, bytes => .ok (b, ⟨0, bytes⟩)
  | left + 1, b, bytes => do
      let (a, bytes) ← read bytes
      let b ← body b a
      go left b bytes

/-- The value of an array, from a visitor that reads it to its end. -/
def MsgPack.deserializeSeq (mp : MsgPack ε) (visit : Visit ε α) : Reader ε α := fun bytes => do
  let (left, bytes) ← RustResult.ofExcept (mp.arrayLen bytes)
  let (a, seq) ← visit ⟨left, bytes⟩
  return (a, seq.bytes)

theorem MsgPack.Lawful.deserializeSeq_write {mp : MsgPack ε} (h : mp.Lawful) (visit : Visit ε α)
    (len : UInt32) (bytes : Bytes) :
    mp.deserializeSeq visit (mp.writeArrayLen len ++ bytes) =
      visit ⟨len.toNat, bytes⟩ >>= fun x => .ok (x.1, x.2.bytes) := by
  have hlen : RustResult.ofExcept (mp.arrayLen (mp.writeArrayLen len ++ bytes)) =
      .ok (len.toNat, bytes) := RustResult.ofExcept_eq_ok (h.arrayLen_write _ bytes)
  simp only [MsgPack.deserializeSeq, hlen, RustResult.ok_bind]
  rfl

theorem MsgPack.Lawful.deserializeSeq_err {mp : MsgPack ε} (h : mp.Lawful) (visit : Visit ε α)
    {p : Primitive} (hp : p.token.len? = none) (bytes : Bytes) :
    ∃ e, mp.deserializeSeq visit (mp.write p ++ bytes) = .err e := by
  obtain ⟨e, he⟩ := RustResult.ofExcept_eq_err
    (x := mp.arrayLen (mp.write p ++ bytes)) (by rw [h.arrayLen_write, hp, Option.map_none])
  exact ⟨e, by simp [MsgPack.deserializeSeq, he]⟩

theorem nextElement_succ {read : Reader ε α} {bytes rest : Bytes} {a : α}
    (h : read bytes = .ok (a, rest)) (left : ℕ) :
    nextElement read ⟨left + 1, bytes⟩ = .ok (some a, ⟨left, rest⟩) := by
  simp [nextElement, h]

@[simp] theorem nextElement_zero (read : Reader ε α) (bytes : Bytes) :
    nextElement read ⟨0, bytes⟩ = .ok (none, ⟨0, bytes⟩) := rfl

@[simp] theorem whileSome_zero (read : Reader ε α) (body : β → α → RustResult ε β) (b : β)
    (bytes : Bytes) : whileSome read body b ⟨0, bytes⟩ = .ok (b, ⟨0, bytes⟩) := rfl

/-- A loop over the elements of a written array is a fold over them. -/
theorem whileSome_flatMap {read : Reader ε α} {encode : α → Bytes}
    (h : ∀ a rest, read (encode a ++ rest) = .ok (a, rest)) (body : β → α → RustResult ε β) (b : β)
    (as : List α) (rest : Bytes) :
    whileSome read body b ⟨as.length, as.flatMap encode ++ rest⟩ =
      as.foldlM body b >>= fun b => .ok (b, ⟨0, rest⟩) := by
  induction as generalizing b with
  | nil => rfl
  | cons a as ih =>
      have hstep : whileSome read body b
          ⟨(a :: as).length, (a :: as).flatMap encode ++ rest⟩ =
          body b a >>= fun b => whileSome read body b ⟨as.length, as.flatMap encode ++ rest⟩ := by
        rw [List.flatMap_cons, List.append_assoc]
        simp only [whileSome, List.length_cons, whileSome.go, h, RustResult.ok_bind]
      rw [hstep, List.foldlM_cons]
      cases body b a with
      | ok b' => simpa using ih b'
      | err e => rfl
      | panicked => rfl

/-! ### Readers that do not panic -/

theorem Reader.returns_of (read : Bytes → Except ε (α × Bytes)) (bytes : Bytes) :
    (Reader.of read bytes).Returns :=
  RustResult.returns_ofExcept _

theorem returns_nextElement {read : Reader ε α} (h : ∀ bytes, (read bytes).Returns)
    (seq : SeqAccess) : (nextElement read seq).Returns := by
  obtain ⟨left, bytes⟩ := seq
  cases left with
  | zero => simp
  | succ left => exact (h bytes).bind fun _ _ => RustResult.returns_ok _

theorem returns_whileSome {read : Reader ε α} {body : β → α → RustResult ε β}
    (h : ∀ bytes, (read bytes).Returns) (hbody : ∀ b a, (body b a).Returns) (b : β)
    (seq : SeqAccess) : (whileSome read body b seq).Returns := by
  obtain ⟨left, bytes⟩ := seq
  induction left generalizing b bytes with
  | zero => simp
  | succ left ih =>
      exact (h bytes).bind fun x _ => (hbody b x.1).bind fun b' _ => ih b' x.2

theorem MsgPack.returns_deserializeSeq (mp : MsgPack ε) {visit : Visit ε α}
    (h : ∀ seq, (visit seq).Returns) (bytes : Bytes) :
    (mp.deserializeSeq visit bytes).Returns :=
  (RustResult.returns_ofExcept _).bind fun _ _ => (h _).bind fun _ _ => RustResult.returns_ok _

theorem MsgPack.returns_option (mp : MsgPack ε) {read : Reader ε α}
    (h : ∀ bytes, (read bytes).Returns) (bytes : Bytes) : (mp.option read bytes).Returns := by
  unfold MsgPack.option
  split
  · exact RustResult.returns_ok _
  · exact (h bytes).bind fun _ _ => RustResult.returns_ok _

end Arrays

/-! ### The format -/

/-- The bytes of a number, most significant first. -/
def natToBe (width n : ℕ) : Bytes := (natToLe width n).reverse

def readBe (width : ℕ) (bytes : Bytes) : Option (ℕ × Bytes) :=
  if width ≤ bytes.length then some (leToNat (bytes.take width).reverse, bytes.drop width)
  else none

theorem readBe_natToBe {width n : ℕ} (h : n < 256 ^ width) (rest : Bytes) :
    readBe width (natToBe width n ++ rest) = some (n, rest) := by
  have hlen : (natToBe width n).length = width := by simp [natToBe]
  rw [readBe, if_pos (by simp [hlen]), List.take_left' hlen, List.drop_left' hlen, natToBe,
    List.reverse_reverse, leToNat_natToLe, Nat.mod_eq_of_lt h]

/-- A number as two's complement, and back. -/
def toUnsigned (width : ℕ) (z : ℤ) : ℕ := (z % (256 ^ width : ℕ)).toNat

def toSigned (width n : ℕ) : ℤ := Int.bmod n (256 ^ width)

theorem toUnsigned_lt (width : ℕ) (z : ℤ) : toUnsigned width z < 256 ^ width := by
  have hpos : 0 < 256 ^ width := Nat.pow_pos (by decide)
  have hlt := Int.emod_lt_of_pos z (Int.natCast_pos.2 hpos)
  have hnonneg := Int.emod_nonneg z (Int.natCast_ne_zero.2 hpos.ne')
  unfold toUnsigned
  omega

theorem toSigned_toUnsigned {width : ℕ} {z : ℤ} (hlo : -(256 ^ width : ℕ) ≤ 2 * z)
    (hhi : 2 * z < (256 ^ width : ℕ)) : toSigned width (toUnsigned width z) = z := by
  have hpos : 0 < 256 ^ width := Nat.pow_pos (by decide)
  have hnonneg := Int.emod_nonneg z (Int.natCast_ne_zero.2 hpos.ne')
  rw [toSigned, toUnsigned, Int.toNat_of_nonneg hnonneg, Int.emod_bmod]
  exact Int.bmod_eq_of_le_mul_two (by omega) (by omega)

/-- A length that the format does not have, in unary. -/
def writeUnary (n : ℕ) : Bytes := List.replicate n 1 ++ [0]

def readUnary : Bytes → Option (ℕ × Bytes)
  | [] => none
  | byte :: rest =>
      if byte = 1 then (readUnary rest).map fun (n, rest) => (n + 1, rest) else some (0, rest)

theorem readUnary_writeUnary (n : ℕ) (rest : Bytes) :
    readUnary (writeUnary n ++ rest) = some (n, rest) := by
  induction n with
  | zero => rfl
  | succ n ih =>
      have hcons : writeUnary (n + 1) ++ rest = 1 :: (writeUnary n ++ rest) := by
        simp [writeUnary, List.replicate_succ]
      rw [hcons, readUnary, if_pos rfl, ih]
      rfl

/-- A marker of a family with a number of `2 ^ k` bytes. -/
def writeWide (family k n : ℕ) : Bytes := UInt8.ofNat (family + k) :: natToBe (2 ^ k) n

def writeArray (len : ℕ) : Bytes :=
  if len < 16 then [UInt8.ofNat (0x90 + len)]
  else if len < 256 ^ 2 then writeWide 0xdb 1 len
  else writeWide 0xdb 2 len

/-- A text of `2 ^ 32` bytes and more, which the format does not have, takes the marker that the
format leaves unused. -/
def writeText (text : String) : Bytes :=
  let len := (utf8 text).length
  let head :=
    if len < 32 then [UInt8.ofNat (0xa0 + len)]
    else if len < 256 then writeWide 0xd9 0 len
    else if len < 256 ^ 2 then writeWide 0xd9 1 len
    else if len < 256 ^ 4 then writeWide 0xd9 2 len
    else UInt8.ofNat 0xc1 :: writeUnary len
  head ++ utf8 text

def writeNat (n : ℕ) : Bytes :=
  if n < 128 then [UInt8.ofNat n]
  else if n < 256 then writeWide 0xcc 0 n
  else if n < 256 ^ 2 then writeWide 0xcc 1 n
  else if n < 256 ^ 4 then writeWide 0xcc 2 n
  else writeWide 0xcc 3 n

def writeInt (z : ℤ) : Bytes :=
  if 0 ≤ z then writeNat z.toNat
  else if -32 ≤ z then [UInt8.ofNat (256 + z).toNat]
  else if -128 ≤ z then writeWide 0xd0 0 (toUnsigned 1 z)
  else if -2 ^ 15 ≤ z then writeWide 0xd0 1 (toUnsigned 2 z)
  else if -2 ^ 31 ≤ z then writeWide 0xd0 2 (toUnsigned 4 z)
  else writeWide 0xd0 3 (toUnsigned 8 z)

/-- The shortest form of every value. -/
def writePrimitive : Primitive → Bytes
  | .array len => writeArray len.toNat
  | .str text => writeText text
  | .sint value => writeInt value.toInt
  | .uint value => writeNat value.toNat
  | .nil => [UInt8.ofNat 0xc0]
  | .f64 bits => UInt8.ofNat 0xcb :: natToBe 8 bits.toNat

def readText (len : ℕ) (bytes : Bytes) : Option (Token × Bytes) :=
  if len ≤ bytes.length then
    (fromUtf8 (bytes.take len)).map fun text => (.str text, bytes.drop len)
  else none

/-- The value that a marker announces; maps, booleans, binary data, single-precision numbers and
extensions are not among those that are read. -/
def readMarked (m : ℕ) (rest : Bytes) : Option (Token × Bytes) :=
  if m < 0x80 then some (.int m, rest)
  else if m < 0x90 then none
  else if m < 0xa0 then some (.array (m - 0x90), rest)
  else if m < 0xc0 then readText (m - 0xa0) rest
  else if m = 0xc0 then some (.nil, rest)
  else if m = 0xc1 then (readUnary rest).bind fun x => readText x.1 x.2
  else if m = 0xcb then (readBe 8 rest).map fun x => (.f64 (UInt64.ofNat x.1), x.2)
  else if 0xcc ≤ m ∧ m ≤ 0xcf then
    (readBe (2 ^ (m - 0xcc)) rest).map fun x => (.int x.1, x.2)
  else if 0xd0 ≤ m ∧ m ≤ 0xd3 then
    (readBe (2 ^ (m - 0xd0)) rest).map fun x => (.int (toSigned (2 ^ (m - 0xd0)) x.1), x.2)
  else if 0xd9 ≤ m ∧ m ≤ 0xdb then
    (readBe (2 ^ (m - 0xd9)) rest).bind fun x => readText x.1 x.2
  else if 0xdc ≤ m ∧ m ≤ 0xdd then
    (readBe (2 ^ (m - 0xdb)) rest).map fun x => (.array x.1, x.2)
  else if 0xe0 ≤ m then some (.int (m - 256), rest)
  else none

/-- The value at the start of the bytes. -/
def readToken : Bytes → Option (Token × Bytes)
  | [] => none
  | marker :: rest => readMarked marker.toNat rest

theorem readToken_cons {m : ℕ} (h : m < 256) (rest : Bytes) :
    readToken (UInt8.ofNat m :: rest) = readMarked m rest := by
  rw [readToken, UInt8.toNat_ofNat_of_lt' h]

theorem readText_utf8 (text : String) (rest : Bytes) :
    readText (utf8 text).length (utf8 text ++ rest) = some (.str text, rest) := by
  rw [readText, if_pos (by simp), List.take_left' rfl, List.drop_left' rfl, fromUtf8_utf8]
  rfl

/-! ### Markers with a number -/

section Wide

variable {k n : ℕ} (hn : n < 256 ^ 2 ^ k) (rest : Bytes)

include hn

theorem readToken_wideNat (hk : k < 4) :
    readToken (writeWide 0xcc k n ++ rest) = some (.int n, rest) := by
  rw [writeWide, List.cons_append, readToken_cons (by omega), readMarked, if_neg (by omega),
    if_neg (by omega), if_neg (by omega), if_neg (by omega), if_neg (by omega), if_neg (by omega),
    if_neg (by omega), if_pos (by omega), Nat.add_sub_cancel_left, readBe_natToBe hn]
  rfl

theorem readToken_wideInt (hk : k < 4) :
    readToken (writeWide 0xd0 k n ++ rest) = some (.int (toSigned (2 ^ k) n), rest) := by
  rw [writeWide, List.cons_append, readToken_cons (by omega), readMarked, if_neg (by omega),
    if_neg (by omega), if_neg (by omega), if_neg (by omega), if_neg (by omega), if_neg (by omega),
    if_neg (by omega), if_neg (by omega), if_pos (by omega), Nat.add_sub_cancel_left,
    readBe_natToBe hn]
  rfl

theorem readToken_wideText (hk : k < 3) :
    readToken (writeWide 0xd9 k n ++ rest) = readText n rest := by
  rw [writeWide, List.cons_append, readToken_cons (by omega), readMarked, if_neg (by omega),
    if_neg (by omega), if_neg (by omega), if_neg (by omega), if_neg (by omega), if_neg (by omega),
    if_neg (by omega), if_neg (by omega), if_neg (by omega), if_pos (by omega),
    Nat.add_sub_cancel_left, readBe_natToBe hn]
  rfl

theorem readToken_wideArray (hpos : 0 < k) (hk : k < 3) :
    readToken (writeWide 0xdb k n ++ rest) = some (.array n, rest) := by
  rw [writeWide, List.cons_append, readToken_cons (by omega), readMarked, if_neg (by omega),
    if_neg (by omega), if_neg (by omega), if_neg (by omega), if_neg (by omega), if_neg (by omega),
    if_neg (by omega), if_neg (by omega), if_neg (by omega), if_neg (by omega), if_pos (by omega),
    Nat.add_sub_cancel_left, readBe_natToBe hn]
  rfl

end Wide

/-! ### Values -/

theorem readToken_writeArray {len : ℕ} (h : len < 2 ^ 32) (rest : Bytes) :
    readToken (writeArray len ++ rest) = some (.array len, rest) := by
  unfold writeArray
  split_ifs with h₁ h₂
  · rw [List.singleton_append, readToken_cons (by omega), readMarked, if_neg (by omega),
      if_neg (by omega), if_pos (by omega), Nat.add_sub_cancel_left]
  · exact readToken_wideArray (by omega) rest (by decide) (by decide)
  · exact readToken_wideArray (by omega) rest (by decide) (by decide)

theorem readToken_writeText (text : String) (rest : Bytes) :
    readToken (writeText text ++ rest) = some (.str text, rest) := by
  have htext := readText_utf8 text rest
  simp only [writeText, List.append_assoc]
  split_ifs with h₁ h₂ h₃ h₄
  · rw [List.singleton_append, readToken_cons (by omega), readMarked, if_neg (by omega),
      if_neg (by omega), if_neg (by omega), if_pos (by omega), Nat.add_sub_cancel_left, htext]
  · rw [readToken_wideText (by omega) _ (by decide), htext]
  · rw [readToken_wideText (by omega) _ (by decide), htext]
  · rw [readToken_wideText (by omega) _ (by decide), htext]
  · rw [List.cons_append, readToken_cons (by decide), readMarked, if_neg (by decide),
      if_neg (by decide), if_neg (by decide), if_neg (by decide), if_neg (by decide),
      if_pos rfl, readUnary_writeUnary]
    exact htext

theorem readToken_writeNat {n : ℕ} (h : n < 2 ^ 64) (rest : Bytes) :
    readToken (writeNat n ++ rest) = some (.int n, rest) := by
  unfold writeNat
  split_ifs with h₁ h₂ h₃ h₄
  · rw [List.singleton_append, readToken_cons (by omega), readMarked, if_pos (by omega)]
  · exact readToken_wideNat (by omega) rest (by decide)
  · exact readToken_wideNat (by omega) rest (by decide)
  · exact readToken_wideNat (by omega) rest (by decide)
  · exact readToken_wideNat (by omega) rest (by decide)

theorem readToken_writeWideInt {k : ℕ} (hk : k < 4) {z : ℤ}
    (hlo : -(256 ^ 2 ^ k : ℕ) ≤ 2 * z) (hhi : 2 * z < (256 ^ 2 ^ k : ℕ)) (rest : Bytes) :
    readToken (writeWide 0xd0 k (toUnsigned (2 ^ k) z) ++ rest) = some (.int z, rest) := by
  rw [readToken_wideInt (toUnsigned_lt _ z) rest hk, toSigned_toUnsigned hlo hhi]

theorem readToken_writeInt {z : ℤ} (hlo : -2 ^ 63 ≤ z) (hhi : z < 2 ^ 63) (rest : Bytes) :
    readToken (writeInt z ++ rest) = some (.int z, rest) := by
  unfold writeInt
  split_ifs with h₁ h₂ h₃ h₄ h₅
  · rw [readToken_writeNat (by omega), Int.toNat_of_nonneg h₁]
  · have hvalue : (((256 + z).toNat : ℤ) - 256) = z := by omega
    rw [List.singleton_append, readToken_cons (by omega), readMarked, if_neg (by omega),
      if_neg (by omega), if_neg (by omega), if_neg (by omega), if_neg (by omega),
      if_neg (by omega), if_neg (by omega), if_neg (by omega), if_neg (by omega),
      if_neg (by omega), if_neg (by omega), if_pos (by omega), hvalue]
  · exact readToken_writeWideInt (by decide) (by omega) (by omega) rest
  · exact readToken_writeWideInt (by decide) (by omega) (by omega) rest
  · exact readToken_writeWideInt (by decide) (by omega) (by omega) rest
  · exact readToken_writeWideInt (by decide) (by omega) (by omega) rest

/-- Every value is read back. -/
theorem readToken_write (p : Primitive) (rest : Bytes) :
    readToken (writePrimitive p ++ rest) = some (p.token, rest) := by
  cases p with
  | array len => exact readToken_writeArray len.toNat_lt rest
  | str text => exact readToken_writeText text rest
  | sint value => exact readToken_writeInt value.le_toInt value.toInt_lt rest
  | uint value => exact readToken_writeNat value.toNat_lt rest
  | nil =>
      show readToken (UInt8.ofNat 0xc0 :: rest) = _
      rw [readToken_cons (by decide), readMarked, if_neg (by decide), if_neg (by decide),
        if_neg (by decide), if_neg (by decide), if_pos rfl]
      rfl
  | f64 bits =>
      show readToken (UInt8.ofNat 0xcb :: (natToBe 8 bits.toNat ++ rest)) = _
      rw [readToken_cons (by decide), readMarked, if_neg (by decide), if_neg (by decide),
        if_neg (by decide), if_neg (by decide), if_neg (by decide), if_neg (by decide),
        if_pos rfl, readBe_natToBe (bits.toNat_lt.trans_le (by decide)), Option.map_some,
        UInt64.ofNat_toNat]
      rfl

/-! ### The format as a library -/

def readAs {α : Type} (select : Token → Option α) (bytes : Bytes) : Except String (α × Bytes) :=
  match (readToken bytes).bind fun x => (select x.1).map (·, x.2) with
  | some x => .ok x
  | none => .error "unexpected value"

theorem toOption_readAs {α : Type} (select : Token → Option α) (p : Primitive) (rest : Bytes) :
    (readAs select (writePrimitive p ++ rest)).toOption = (select p.token).map (·, rest) := by
  rw [readAs, readToken_write, Option.bind_some]
  cases select p.token <;> rfl

/-- Skip a number of values, the elements of arrays included. -/
def skipValues : ℕ → ℕ → Bytes → Option Bytes
  | _, 0, bytes => some bytes
  | 0, _ + 1, _ => none
  | fuel + 1, count + 1, bytes =>
      match readToken bytes with
      | some (.array len, rest) => skipValues fuel (count + len) rest
      | some (_, rest) => skipValues fuel count rest
      | none => none

def messagePack : MsgPack String where
  write := writePrimitive
  arrayLen := readAs Token.len?
  i64 := readAs Token.i64?
  u32 := readAs Token.u32?
  f64 := readAs Token.f64?
  str := readAs Token.str?
  nil? bytes := match readToken bytes with
    | some (.nil, rest) => some rest
    | _ => none
  ignoredAny bytes := match skipValues bytes.length 1 bytes with
    | some rest => .ok rest
    | none => .error "unexpected value"
  custom := id
  missingField field := "missing field " ++ field
  unknownVariant tag _ := "unknown variant " ++ tag
  toString := id

theorem messagePack_lawful : messagePack.Lawful where
  arrayLen_write p rest := toOption_readAs _ p rest
  i64_write p rest := toOption_readAs _ p rest
  u32_write p rest := toOption_readAs _ p rest
  str_write p rest := toOption_readAs _ p rest
  f64_write bits rest := toOption_readAs Token.f64? (.f64 bits) rest
  nil?_write p rest := by
    simp only [messagePack, readToken_write]
    cases p <;> rfl
  toString_custom text := rfl

end SglangRs
