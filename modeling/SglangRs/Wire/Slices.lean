import Mathlib.Data.List.Forall2
import SglangRs.Collections.Rows
import SglangRs.Wire.Text

/-!
# Checked access to bytes

A decoder of bytes from a peer returns a value or an error, or it panics: a slice out of range, or a
conversion to an array of the wrong length. `RustResult` has all three, so that the absence of a
panic is something to prove. Nothing here depends on a particular format.

## Main definitions

* `RustResult`, `RustResult.Returns`: results of a function that may panic, and that it does not.
* `RustResult.collect`: run a fallible function over a list, up to the first error.
* `slice`, `toArray`: the two operations on bytes that panic.
* `elementAt`, `elementsAt`, `setElement`: the same for the elements of a list.
* `withCapacity`, `usizeAdd`, `usizeMul`, `usizeDiv`: the sizes a machine can handle.
* `Heap`, `Heap.withCapacity`, `Heap.Slice`: the sizes an allocator grants.
* `LeWord`, `packWords`, `chunksExact`: machine words in a row.

## Main results

* `RustResult.Returns.bind`, `RustResult.returns_collect`: no panic, step by step.
* `chunksExact_packWords`: words written in a row are cut where they were written.
-/

namespace SglangRs

/-! ### Results that may be a panic -/

/-- The result of a function that returns a value, returns an error or panics. -/
inductive RustResult (ε α : Type) where
  | ok (value : α)
  | err (error : ε)
  | panicked
deriving DecidableEq

namespace RustResult

variable {ε α β : Type}

protected def bind (x : RustResult ε α) (f : α → RustResult ε β) : RustResult ε β :=
  match x with
  | ok a => f a
  | err e => err e
  | panicked => panicked

instance : Monad (RustResult ε) where
  pure := ok
  bind := RustResult.bind

@[simp] theorem pure_eq (a : α) : (pure a : RustResult ε α) = ok a := rfl

@[simp] theorem ok_bind (a : α) (f : α → RustResult ε β) : ok a >>= f = f a := rfl

@[simp] theorem err_bind (e : ε) (f : α → RustResult ε β) : err e >>= f = err e := rfl

@[simp] theorem panicked_bind (f : α → RustResult ε β) :
    (panicked : RustResult ε α) >>= f = panicked := rfl

theorem bind_eq_ok {x : RustResult ε α} {f : α → RustResult ε β} {b : β} :
    x >>= f = ok b ↔ ∃ a, x = ok a ∧ f a = ok b := by
  cases x <;> simp

/-- A result that is not a panic. -/
def ofExcept : Except ε α → RustResult ε α
  | .ok a => ok a
  | .error e => err e

@[simp] theorem ofExcept_ok (a : α) : (ofExcept (.ok a) : RustResult ε α) = ok a := rfl

/-- The function returns a value or an error. -/
def Returns (x : RustResult ε α) : Prop := x ≠ panicked

theorem Returns.bind {x : RustResult ε α} {f : α → RustResult ε β} (hx : x.Returns)
    (hf : ∀ a, x = ok a → (f a).Returns) : (x >>= f).Returns := by
  cases x with
  | ok a => exact hf a rfl
  | err e => simp [Returns]
  | panicked => exact absurd rfl hx

@[simp] theorem returns_ok (a : α) : (ok a : RustResult ε α).Returns := by simp [Returns]

@[simp] theorem returns_err (e : ε) : (err e : RustResult ε α).Returns := by simp [Returns]

theorem returns_ofExcept (x : Except ε α) :
    (ofExcept x).Returns := by
  cases x <;> simp [ofExcept]

theorem ofExcept_eq_ok {x : Except ε α} {a : α} (h : x.toOption = some a) :
    ofExcept x = .ok a := by
  cases x with
  | ok b =>
      obtain rfl : b = a := by simpa [Except.toOption] using h
      rfl
  | error e => simp [Except.toOption] at h

theorem ofExcept_eq_err {x : Except ε α} (h : x.toOption = none) :
    ∃ e, ofExcept x = .err e := by
  cases x with
  | ok b => simp [Except.toOption] at h
  | error e => exact ⟨e, rfl⟩

/-- The function returns an error. -/
def IsErr (x : RustResult ε α) : Prop := ∃ e, x = err e

theorem IsErr.bind {x : RustResult ε α} (h : x.IsErr) (f : α → RustResult ε β) :
    (x >>= f).IsErr := by
  obtain ⟨e, rfl⟩ := h
  exact ⟨e, rfl⟩

/-- The results of a fallible function on the elements of a list, up to the first failure. -/
def collect (f : α → RustResult ε β) : List α → RustResult ε (List β)
  | [] => ok []
  | a :: as => do
      let b ← f a
      let bs ← collect f as
      return b :: bs

theorem returns_collect {f : α → RustResult ε β} {as : List α} (h : ∀ a ∈ as, (f a).Returns) :
    (collect f as).Returns := by
  induction as with
  | nil => simp [collect]
  | cons a as ih =>
      refine (h a (by simp)).bind fun b _ => ?_
      exact (ih fun a ha => h a (by simp [ha])).bind fun bs _ => returns_ok _

theorem collect_eq_map {f : α → RustResult ε β} {g : α → β} {as : List α}
    (h : ∀ a ∈ as, f a = ok (g a)) : collect f as = ok (as.map g) := by
  induction as with
  | nil => rfl
  | cons a as ih =>
      rw [collect, h a (by simp), ih fun a ha => h a (by simp [ha])]
      rfl

theorem collect_map_ok {f : β → RustResult ε α} {g : α → β} {as : List α}
    (h : ∀ a ∈ as, f (g a) = ok a) : collect f (as.map g) = ok as := by
  induction as with
  | nil => rfl
  | cons a as ih =>
      rw [List.map_cons, collect, h a (by simp), ih fun a ha => h a (by simp [ha])]
      rfl

/-- The elements of a list that satisfy a test that may fail. -/
def filter (test : α → RustResult ε Bool) : List α → RustResult ε (List α)
  | [] => ok []
  | a :: as => do
      let keep ← test a
      let rest ← filter test as
      return if keep then a :: rest else rest

theorem filter_eq {test : α → RustResult ε Bool} {p : α → Bool} {as : List α}
    (h : ∀ a ∈ as, test a = ok (p a)) : filter test as = ok (as.filter p) := by
  induction as with
  | nil => rfl
  | cons a as ih =>
      rw [filter, h a (by simp), ih fun a ha => h a (by simp [ha]), List.filter_cons]
      rfl

theorem collect_eq_ok {f : α → RustResult ε β} {as : List α} {bs : List β}
    (h : collect f as = ok bs) : List.Forall₂ (fun a b => f a = ok b) as bs := by
  induction as generalizing bs with
  | nil =>
      obtain rfl : [] = bs := by simpa [collect] using h
      exact .nil
  | cons a as ih =>
      simp only [collect, bind_eq_ok, pure_eq] at h
      obtain ⟨b, hb, bs', hbs, hcons⟩ := h
      obtain rfl : b :: bs' = bs := by simpa using hcons
      exact .cons hb (ih hbs)

end RustResult

/-! ### Slices -/

variable {ε : Type}

/-- The bytes from one offset to another. -/
def slice (bytes : Bytes) (start stop : ℕ) : RustResult ε Bytes :=
  if start ≤ stop ∧ stop ≤ bytes.length then .ok ((bytes.drop start).take (stop - start))
  else .panicked

/-- The bytes as an array of a fixed length. -/
def toArray (width : ℕ) (bytes : Bytes) : RustResult ε Bytes :=
  if bytes.length = width then .ok bytes else .panicked

theorem slice_ok {bytes : Bytes} {start stop : ℕ} (h₁ : start ≤ stop) (h₂ : stop ≤ bytes.length) :
    (slice bytes start stop : RustResult ε Bytes) = .ok ((bytes.drop start).take (stop - start)) :=
  if_pos ⟨h₁, h₂⟩

theorem length_slice {bytes : Bytes} {start stop : ℕ} (h₁ : start ≤ stop)
    (h₂ : stop ≤ bytes.length) :
    ((bytes.drop start).take (stop - start)).length = stop - start := by
  rw [List.length_take, List.length_drop]
  omega

/-- The middle of three parts. -/
theorem slice_append (before middle after : Bytes) :
    (slice (before ++ middle ++ after) before.length (before.length + middle.length) :
      RustResult ε Bytes) = .ok middle := by
  rw [slice_ok (by omega) (by simp)]
  simp

theorem toArray_ok {width : ℕ} {bytes : Bytes} (h : bytes.length = width) :
    (toArray width bytes : RustResult ε Bytes) = .ok bytes :=
  if_pos h

/-! ### Elements of a list -/

/-- `values[index]`, which panics out of range. -/
def elementAt {α : Type} (values : List α) (index : ℕ) : RustResult ε α :=
  match values[index]? with
  | some value => .ok value
  | none => .panicked

/-- `values[start..stop]`, which panics out of range. -/
def elementsAt {α : Type} (values : List α) (start stop : ℕ) : RustResult ε (List α) :=
  if start ≤ stop ∧ stop ≤ values.length then .ok ((values.drop start).take (stop - start))
  else .panicked

/-- `values[index] = value`, which panics out of range. -/
def setElement {α : Type} (values : List α) (index : ℕ) (value : α) : RustResult ε (List α) :=
  if index < values.length then .ok (values.set index value) else .panicked

theorem elementAt_ok {α : Type} {values : List α} {index : ℕ} {value : α}
    (h : values[index]? = some value) : (elementAt values index : RustResult ε α) = .ok value := by
  rw [elementAt, h]

theorem elementsAt_ok {α : Type} {values : List α} {start stop : ℕ} (h₁ : start ≤ stop)
    (h₂ : stop ≤ values.length) : (elementsAt values start stop : RustResult ε (List α)) =
      .ok ((values.drop start).take (stop - start)) :=
  if_pos ⟨h₁, h₂⟩

theorem setElement_ok {α : Type} {values : List α} {index : ℕ} {value : α}
    (h : index < values.length) :
    (setElement values index value : RustResult ε (List α)) = .ok (values.set index value) :=
  if_pos h

/-! ### Sizes -/

/-- `Vec::with_capacity`, which panics if the elements take more than `isize::MAX` bytes. -/
def withCapacity {α : Type} (capacity elementSize : ℕ) : RustResult ε (List α) :=
  if capacity * elementSize < 2 ^ 63 then .ok [] else .panicked

/-- A sum of two machine words, where an overflow is a panic. -/
def usizeAdd (a b : ℕ) : RustResult ε ℕ := if a + b < 2 ^ 64 then .ok (a + b) else .panicked

/-- A product of two machine words, where an overflow is a panic. -/
def usizeMul (a b : ℕ) : RustResult ε ℕ := if a * b < 2 ^ 64 then .ok (a * b) else .panicked

/-- A quotient, where the divisor zero is a panic. -/
def usizeDiv (a b : ℕ) : RustResult ε ℕ := if b = 0 then .panicked else .ok (a / b)

theorem usizeDiv_ok {a b : ℕ} (h : 0 < b) : (usizeDiv a b : RustResult ε ℕ) = .ok (a / b) :=
  if_neg h.ne'

theorem withCapacity_ok {α : Type} {capacity elementSize : ℕ}
    (h : capacity * elementSize < 2 ^ 63) :
    (withCapacity capacity elementSize : RustResult ε (List α)) = .ok [] :=
  if_pos h

/-- The memory of a machine whose allocator grants the requests up to a limit. -/
structure Heap where
  limit : ℕ
  limit_lt : limit < 2 ^ 63

namespace Heap

variable (heap : Heap)

/-- `Vec::with_capacity`. If the allocator refuses the request the process is aborted, so that
nothing is returned, as after a panic. -/
def withCapacity {α : Type} (capacity elementSize : ℕ) : RustResult ε (List α) :=
  if capacity * elementSize ≤ heap.limit then .ok [] else .panicked

variable {heap} in
theorem withCapacity_ok {α : Type} {capacity elementSize : ℕ}
    (h : capacity * elementSize ≤ heap.limit) :
    (heap.withCapacity capacity elementSize : RustResult ε (List α)) = .ok [] :=
  if_pos h

/-- Bytes in one piece of memory. -/
structure Slice where
  bytes : Bytes
  length_le : bytes.length ≤ heap.limit

end Heap

theorem usizeAdd_ok {a b : ℕ} (h : a + b < 2 ^ 64) :
    (usizeAdd a b : RustResult ε ℕ) = .ok (a + b) :=
  if_pos h

theorem usizeMul_ok {a b : ℕ} (h : a * b < 2 ^ 64) :
    (usizeMul a b : RustResult ε ℕ) = .ok (a * b) :=
  if_pos h

/-! ### Words in a row -/

/-- A machine word, with the number of bytes it takes. -/
class LeWord (α : Type) where
  width : ℕ
  toNat : α → ℕ
  ofNat : ℕ → α
  width_pos : 0 < width
  ofNat_toNat : ∀ x, ofNat (toNat x % 256 ^ width) = x

instance : LeWord UInt32 where
  width := 4
  toNat := UInt32.toNat
  ofNat := UInt32.ofNat
  width_pos := by decide
  ofNat_toNat x := by simp [Nat.mod_eq_of_lt x.toNat_lt]

instance : LeWord UInt64 where
  width := 8
  toNat := UInt64.toNat
  ofNat := UInt64.ofNat
  width_pos := by decide
  ofNat_toNat x := by simp [Nat.mod_eq_of_lt x.toNat_lt]

instance : LeWord Int32 where
  width := 4
  toNat x := x.toUInt32.toNat
  ofNat n := (UInt32.ofNat n).toInt32
  width_pos := by decide
  ofNat_toNat x := by simp [Nat.mod_eq_of_lt x.toUInt32.toNat_lt]

instance : LeWord UInt16 where
  width := 2
  toNat := UInt16.toNat
  ofNat := UInt16.ofNat
  width_pos := by decide
  ofNat_toNat x := by simp [Nat.mod_eq_of_lt x.toNat_lt]

instance : LeWord Int64 where
  width := 8
  toNat x := x.toUInt64.toNat
  ofNat n := (UInt64.ofNat n).toInt64
  width_pos := by decide
  ofNat_toNat x := by simp [Nat.mod_eq_of_lt x.toUInt64.toNat_lt]

variable {α : Type} [LeWord α]

def packWord (x : α) : Bytes := natToLe (LeWord.width α) (LeWord.toNat x)

def unpackWord (bytes : Bytes) : α := LeWord.ofNat (leToNat bytes)

def packWords (xs : List α) : Bytes := xs.flatMap packWord

@[simp] theorem length_packWord (x : α) : (packWord x).length = LeWord.width α := by simp [packWord]

@[simp] theorem unpackWord_packWord (x : α) : unpackWord (packWord x) = x := by
  simp [unpackWord, packWord, LeWord.ofNat_toNat]

@[simp] theorem length_packWords (xs : List α) :
    (packWords xs).length = xs.length * LeWord.width α :=
  Rows.length_flatMap_const fun x _ => length_packWord x

/-- The first chunks of the bytes. -/
def takeChunks (width : ℕ) : ℕ → Bytes → List Bytes
  | 0, _ => []
  | n + 1, bytes => bytes.take width :: takeChunks width n (bytes.drop width)

/-- The chunks of the bytes, without a shorter rest. -/
def chunksExact (width : ℕ) (bytes : Bytes) : List Bytes :=
  takeChunks width (bytes.length / width) bytes

@[simp] theorem length_takeChunks (width n : ℕ) (bytes : Bytes) :
    (takeChunks width n bytes).length = n := by
  induction n generalizing bytes with
  | zero => rfl
  | succ n ih => simp [takeChunks, ih]

theorem length_of_mem_takeChunks {width n : ℕ} {bytes chunk : Bytes}
    (h : chunk ∈ takeChunks width n bytes) (hn : n * width ≤ bytes.length) :
    chunk.length = width := by
  induction n generalizing bytes with
  | zero => simp [takeChunks] at h
  | succ n ih =>
      have hsucc : (n + 1) * width = n * width + width := by ring
      obtain rfl | h := List.mem_cons.1 h
      · rw [List.length_take]
        omega
      · refine ih h ?_
        rw [List.length_drop]
        omega

theorem length_of_mem_chunksExact {width : ℕ} {bytes chunk : Bytes}
    (h : chunk ∈ chunksExact width bytes) : chunk.length = width :=
  length_of_mem_takeChunks h (Nat.div_mul_le_self _ _)

/-- Words written in a row are cut where they were written. -/
theorem chunksExact_packWords (xs : List α) :
    chunksExact (LeWord.width α) (packWords xs) = xs.map packWord := by
  have hdiv : (packWords xs).length / LeWord.width α = xs.length := by
    rw [length_packWords, Nat.mul_div_cancel _ LeWord.width_pos]
  rw [chunksExact, hdiv]
  clear hdiv
  induction xs with
  | nil => rfl
  | cons x xs ih =>
      have hcons : packWords (x :: xs) = packWord x ++ packWords xs := rfl
      rw [hcons, List.length_cons, takeChunks, List.take_left' (length_packWord x),
        List.drop_left' (length_packWord x), ih, List.map_cons]

theorem map_unpackWord_packWords (xs : List α) :
    (chunksExact (LeWord.width α) (packWords xs)).map unpackWord = xs := by
  rw [chunksExact_packWords, List.map_map]
  exact List.map_id'' unpackWord_packWord xs

end SglangRs
