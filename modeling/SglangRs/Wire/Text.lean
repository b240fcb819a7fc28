import Mathlib.Data.Int.Basic
import Mathlib.Data.List.Basic
import Mathlib.Tactic.Ring

/-!
# Text and machine integers as bytes

The two halves of a hand-written wire format: numbers written in decimal as UTF-8 text, and numbers
written as a fixed number of bytes, least significant first. Nothing here depends on a particular
protocol.

Decimal text is read as the standard library of Rust reads it (`FromStr` for integers): one leading
`+` is allowed, one leading `-` for signed types only, then at least one ASCII digit, and a value
out of range is refused.

## Main definitions

* `utf8`, `fromUtf8`: a text as bytes, and back.
* `FromStr`, `LawfulFromStr`: types whose values are read from decimal text.
* `natToLe`, `leToNat`: fixed-width little-endian numbers.

## Main results

* `fromUtf8_utf8`, `LawfulFromStr.parse_toString`, `leToNat_natToLe`, `natToLe_leToNat`: the round trips.
-/

namespace SglangRs

abbrev Bytes := List UInt8

/-! ### Text -/

/-- The bytes of a text. -/
def utf8 (s : String) : Bytes := s.toUTF8.data.toList

/-- The text that the bytes encode, if they are valid UTF-8. -/
def fromUtf8 (bytes : Bytes) : Option String := String.fromUTF8? ⟨bytes.toArray⟩

@[simp]
theorem fromUtf8_utf8 (s : String) : fromUtf8 (utf8 s) = some s := by
  have hbytes : (⟨(utf8 s).toArray⟩ : ByteArray) = s.toUTF8 := by simp [utf8]
  have hvalid : s.toUTF8.IsValidUTF8 := s.isValidUTF8
  rw [fromUtf8, hbytes, String.fromUTF8?, dif_pos hvalid]
  rfl

theorem utf8_injective : Function.Injective utf8 := by
  intro s t h
  have h' := congrArg fromUtf8 h
  simpa using h'

@[simp]
theorem utf8_inj {s t : String} : utf8 s = utf8 t ↔ s = t := utf8_injective.eq_iff

/-! ### Bytes that are not text

What the standard library of Rust says of bytes that are not valid UTF-8 (`core::str::validations`):
the place of the first error with the number of bytes it covers, or that the text is cut short, and
the text in which every such sequence is replaced by U+FFFD. -/

def isContinuation (byte : UInt8) : Bool := 0x80 ≤ byte && byte ≤ 0xBF

/-- The range of the second byte of a sequence that starts with the given byte. -/
def isSecond (first byte : UInt8) : Bool :=
  if first = 0xE0 then 0xA0 ≤ byte && byte ≤ 0xBF
  else if first = 0xED then 0x80 ≤ byte && byte ≤ 0x9F
  else if first = 0xF0 then 0x90 ≤ byte && byte ≤ 0xBF
  else if first = 0xF4 then 0x80 ≤ byte && byte ≤ 0x8F
  else isContinuation byte

/-- Check the bytes after the first, `seen` of the sequence being fine; `none` is a text cut short.
-/
def utf8Tail (first : UInt8) : ℕ → ℕ → Bytes → Except (Option ℕ) ℕ
  | 0, seen, _ => .ok seen
  | _ + 1, _, [] => .error none
  | left + 1, seen, byte :: bytes =>
      if (if seen = 1 then isSecond first byte else isContinuation byte) then
        utf8Tail first left (seen + 1) bytes
      else .error (some seen)

/-- The width of the first character, or the length of the sequence that is not one. -/
def utf8Width : Bytes → Except (Option ℕ) ℕ
  | [] => .ok 0
  | first :: bytes =>
      if first < 0x80 then .ok 1
      else if 0xC2 ≤ first && first ≤ 0xDF then utf8Tail first 1 1 bytes
      else if 0xE0 ≤ first && first ≤ 0xEF then utf8Tail first 2 1 bytes
      else if 0xF0 ≤ first && first ≤ 0xF4 then utf8Tail first 3 1 bytes
      else .error (some 1)

/-- The text of the error that `from_utf8` returns. -/
def utf8ErrorText (bytes : Bytes) : String :=
  go bytes.length 0 bytes
where
  go : ℕ → ℕ → Bytes → String
  | 0, _, _ => ""
  | fuel + 1, index, rest =>
      match utf8Width rest with
      | .ok width => go fuel (index + width) (rest.drop width)
      | .error (some length) =>
          "invalid utf-8 sequence of " ++ toString length ++ " bytes from index " ++ toString index
      | .error none => "incomplete utf-8 byte sequence from index " ++ toString index

/-- The text with every invalid sequence replaced. -/
def fromUtf8Lossy (bytes : Bytes) : String :=
  go bytes.length bytes
where
  go : ℕ → Bytes → String
  | 0, _ => ""
  | fuel + 1, rest =>
      match rest, utf8Width rest with
      | [], _ => ""
      | rest, .ok width => (fromUtf8 (rest.take width)).getD "" ++ go fuel (rest.drop width)
      | rest, .error (some length) => "\uFFFD" ++ go fuel (rest.drop length)
      | _, .error none => "\uFFFD"

/-! ### Decimal numbers -/

/-- The value of a nonempty sequence of decimal digits. -/
def parseDigits (digits : List Char) : Option ℕ :=
  if digits ≠ [] ∧ digits.all Char.isDigit then some (Nat.ofDigitChars 10 digits 0) else none

theorem parseDigits_toDigits (n : ℕ) : parseDigits (Nat.toDigits 10 n) = some n := by
  have hdigits : (Nat.toDigits 10 n).all Char.isDigit := by
    rw [List.all_eq_true]
    intro c hc
    exact Nat.isDigit_of_mem_toDigits (by decide) (by decide) hc
  rw [parseDigits, if_pos ⟨Nat.toDigits_ne_nil, hdigits⟩, Nat.ofDigitChars_ten_toDigits]

/-- An unsigned number below `bound`. -/
def parseUnsigned (bound : ℕ) (s : String) : Option ℕ :=
  let value := match s.toList with
    | '+' :: digits => parseDigits digits
    | digits => parseDigits digits
  value.filter (· < bound)

/-- A signed number in `[-bound, bound)`. -/
def parseSigned (bound : ℕ) (s : String) : Option ℤ :=
  let value : Option ℤ := match s.toList with
    | '+' :: digits => (parseDigits digits).map fun n => (n : ℤ)
    | '-' :: digits => (parseDigits digits).map fun n => -(n : ℤ)
    | digits => (parseDigits digits).map fun n => (n : ℤ)
  value.filter fun n => -(bound : ℤ) ≤ n ∧ n < bound

theorem toDigits_ne_cons_of_not_isDigit {c : Char} (hc : c.isDigit = false) (n : ℕ)
    (rest : List Char) : Nat.toDigits 10 n ≠ c :: rest := by
  intro h
  have hmem : c ∈ Nat.toDigits 10 n := by simp [h]
  have := Nat.isDigit_of_mem_toDigits (by decide) (by decide) hmem
  simp [hc] at this

theorem toList_toString_nat (n : ℕ) : (toString n).toList = Nat.toDigits 10 n := Nat.toList_repr

/-- The text of an integer is its digits, after a minus sign if it is negative. -/
theorem toList_toString_int (z : ℤ) : (toString z).toList =
    if z < 0 then '-' :: Nat.toDigits 10 z.natAbs else Nat.toDigits 10 z.natAbs := by
  cases z with
  | ofNat n => simp [toString, Int.repr, Nat.toList_repr]
  | negSucc n =>
      rw [if_pos (Int.negSucc_lt_zero n)]
      simp [toString, Int.repr, Nat.toList_repr, String.toList_append]

theorem parseSigned_toString {bound : ℕ} {z : ℤ} (hlo : -(bound : ℤ) ≤ z) (hhi : z < bound) :
    parseSigned bound (toString z) = some z := by
  rw [parseSigned, toList_toString_int]
  by_cases hz : z < 0
  · obtain ⟨n, rfl⟩ : ∃ n : ℕ, z = -(n : ℤ) := ⟨z.natAbs, by omega⟩
    rw [if_pos hz]
    simp [parseDigits_toDigits, hlo, hhi]
  · have habs : (z.natAbs : ℤ) = z := by omega
    rw [if_neg hz]
    split
    · rename_i digits hdigits
      exact absurd hdigits (toDigits_ne_cons_of_not_isDigit (by decide) _ digits)
    · rename_i digits hdigits
      exact absurd hdigits (toDigits_ne_cons_of_not_isDigit (by decide) _ digits)
    · simp [parseDigits_toDigits, habs, hlo, hhi]

/-- The text of an integer is read as an unsigned number unless the integer is negative. -/
theorem parseUnsigned_toString_int {bound : ℕ} (z : ℤ) :
    parseUnsigned bound (toString z) =
      if 0 ≤ z ∧ z.toNat < bound then some z.toNat else none := by
  by_cases hz : 0 ≤ z
  · obtain ⟨n, rfl⟩ := Int.eq_ofNat_of_zero_le hz
    have htext : toString (n : ℤ) = toString n := rfl
    rw [htext, parseUnsigned, toList_toString_nat]
    split
    · rename_i digits hdigits
      exact absurd hdigits (toDigits_ne_cons_of_not_isDigit (by decide) n digits)
    · simp [parseDigits_toDigits, Option.filter]
  · have hneg : z < 0 := by omega
    rw [parseUnsigned, toList_toString_int, if_pos hneg, if_neg fun h => hz h.1]
    simp [parseDigits, show Char.isDigit '-' = false from rfl]

theorem parseUnsigned_toString {bound n : ℕ} (h : n < bound) :
    parseUnsigned bound (toString n) = some n := by
  have htext : toString n = toString (n : ℤ) := rfl
  rw [htext, parseUnsigned_toString_int, if_pos ⟨by omega, by simpa using h⟩, Int.toNat_natCast]

/-- A type whose values are read from text. -/
class FromStr (α : Type) where
  parse : String → Option α

instance : FromStr UInt8 := ⟨fun s => (parseUnsigned (2 ^ 8) s).map UInt8.ofNat⟩

instance : FromStr UInt16 := ⟨fun s => (parseUnsigned (2 ^ 16) s).map UInt16.ofNat⟩

instance : FromStr UInt32 := ⟨fun s => (parseUnsigned (2 ^ 32) s).map UInt32.ofNat⟩

instance : FromStr UInt64 := ⟨fun s => (parseUnsigned (2 ^ 64) s).map UInt64.ofNat⟩

instance : FromStr Int32 := ⟨fun s => (parseSigned (2 ^ 31) s).map Int32.ofInt⟩

/-- A type whose values are read back from their own text. -/
class LawfulFromStr (α : Type) [FromStr α] [ToString α] : Prop where
  parse_toString : ∀ x : α, FromStr.parse (toString x) = some x

attribute [simp] LawfulFromStr.parse_toString

section LawfulFromStr

variable {α : Type} [FromStr α] [ToString α] [LawfulFromStr α]

theorem toString_injective : Function.Injective (toString : α → String) := by
  intro x y h
  have hparse := LawfulFromStr.parse_toString x
  rw [h, LawfulFromStr.parse_toString] at hparse
  exact (Option.some.inj hparse).symm

/-- A value is not written as a text that cannot be read. -/
theorem toString_ne {text : String} (htext : (FromStr.parse text : Option α) = none) (x : α) :
    toString x ≠ text := by
  rintro rfl
  simp at htext

end LawfulFromStr

theorem map_parseUnsigned_toString {α : Type} (ofNat : ℕ → α) {bound n : ℕ} (h : n < bound) :
    (parseUnsigned bound (toString n)).map ofNat = some (ofNat n) := by
  rw [parseUnsigned_toString h, Option.map_some]

instance : LawfulFromStr UInt8 where
  parse_toString x := (map_parseUnsigned_toString UInt8.ofNat x.toNat_lt).trans (by simp)

instance : LawfulFromStr UInt16 where
  parse_toString x := (map_parseUnsigned_toString UInt16.ofNat x.toNat_lt).trans (by simp)

instance : LawfulFromStr UInt32 where
  parse_toString x := (map_parseUnsigned_toString UInt32.ofNat x.toNat_lt).trans (by simp)

instance : LawfulFromStr UInt64 where
  parse_toString x := (map_parseUnsigned_toString UInt64.ofNat x.toNat_lt).trans (by simp)

instance : LawfulFromStr Int32 where
  parse_toString x := by
    have htext : toString x = toString x.toInt := rfl
    simp only [FromStr.parse]
    rw [htext, parseSigned_toString x.le_toInt x.toInt_lt]
    simp

/-- A signed number is read as an unsigned one of larger width if it is not negative. -/
theorem parse_toString_int32 (x : Int32) : (FromStr.parse (toString x) : Option UInt64) =
    if 0 ≤ x.toInt then some (UInt64.ofNat x.toInt.toNat) else none := by
  have htext : toString x = toString x.toInt := rfl
  have hlt := x.toInt_lt
  simp only [FromStr.parse]
  rw [htext, parseUnsigned_toString_int]
  by_cases hx : 0 ≤ x.toInt
  · rw [if_pos ⟨hx, by omega⟩, if_pos hx, Option.map_some]
  · rw [if_neg fun h => hx h.1, if_neg hx, Option.map_none]

/-! ### Fixed-width numbers -/

/-- The low bytes of a number, least significant first. -/
def natToLe : ℕ → ℕ → Bytes
  | 0, _ => []
  | width + 1, n => UInt8.ofNat n :: natToLe width (n / 256)

/-- The number that the bytes stand for, least significant first. -/
def leToNat : Bytes → ℕ
  | [] => 0
  | byte :: bytes => byte.toNat + 256 * leToNat bytes

@[simp]
theorem length_natToLe (width n : ℕ) : (natToLe width n).length = width := by
  induction width generalizing n with
  | zero => rfl
  | succ width ih => simp [natToLe, ih]

@[simp]
theorem leToNat_natToLe (width n : ℕ) : leToNat (natToLe width n) = n % 256 ^ width := by
  induction width generalizing n with
  | zero => simp [natToLe, leToNat, Nat.mod_one]
  | succ width ih =>
      have hbyte : (UInt8.ofNat n).toNat = n % 256 := UInt8.toNat_ofNat'
      rw [natToLe, leToNat, ih, hbyte, pow_succ', Nat.mod_mul]

theorem natToLe_leToNat (bytes : Bytes) : natToLe bytes.length (leToNat bytes) = bytes := by
  induction bytes with
  | nil => rfl
  | cons byte bytes ih =>
      have hbyte := byte.toNat_lt
      have hdiv : (byte.toNat + 256 * leToNat bytes) / 256 = leToNat bytes := by omega
      have hmod : UInt8.ofNat (byte.toNat + 256 * leToNat bytes) = byte := by
        rw [← UInt8.toNat_inj, UInt8.toNat_ofNat']
        omega
      rw [leToNat, List.length_cons, natToLe, hdiv, hmod, ih]

theorem leToNat_lt (bytes : Bytes) : leToNat bytes < 256 ^ bytes.length := by
  induction bytes with
  | nil => simp [leToNat]
  | cons byte bytes ih =>
      have hbyte := byte.toNat_lt
      rw [leToNat, List.length_cons, pow_succ']
      omega

end SglangRs
