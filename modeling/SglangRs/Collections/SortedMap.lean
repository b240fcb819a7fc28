import Mathlib.Data.List.Basic
import Mathlib.Data.Finset.Card
import Mathlib.Data.List.Pairwise
import Mathlib.Order.Defs.LinearOrder

/-!
# Finite maps ordered by their keys

A map is a list of entries with strictly increasing keys, so that walking through it visits the keys
in order. Nothing here depends on what is stored.

## Main definitions

* `SortedMap`, `SortedMap.insert`, `SortedMap.erase`, `SortedMap.get`, `SortedMap.keys`,
  `SortedMap.values`.

## Main results

* `SortedMap.get_insert`: lookups after an insertion.
* `SortedMap.mem_entries_iff`: the entries are what lookups find.
-/

/-- Entries with strictly increasing keys. -/
structure SortedMap (κ β : Type) [LinearOrder κ] where
  entries : List (κ × β)
  sorted : entries.Pairwise (·.1 < ·.1)

namespace SortedMap

variable {κ β : Type} [LinearOrder κ]

/-- Insert into or replace in a list of entries with increasing keys. -/
def insertEntry (key : κ) (value : β) : List (κ × β) → List (κ × β)
  | [] => [(key, value)]
  | entry :: rest =>
      if key = entry.1 then (key, value) :: rest
      else if key < entry.1 then (key, value) :: entry :: rest
      else entry :: insertEntry key value rest

theorem mem_insertEntry {key : κ} {value : β} {entries : List (κ × β)} {entry : κ × β}
    (h : entry ∈ insertEntry key value entries) : entry = (key, value) ∨ entry ∈ entries := by
  induction entries with
  | nil => exact .inl (by simpa [insertEntry] using h)
  | cons other rest ih =>
      rw [insertEntry] at h
      split_ifs at h
      · obtain h | h := List.mem_cons.1 h
        · exact .inl h
        · exact .inr (List.mem_cons_of_mem _ h)
      · obtain h | h := List.mem_cons.1 h
        · exact .inl h
        · exact .inr h
      · obtain rfl | h := List.mem_cons.1 h
        · exact .inr List.mem_cons_self
        · obtain h | h := ih h
          · exact .inl h
          · exact .inr (List.mem_cons_of_mem _ h)

theorem sorted_insertEntry {key : κ} {value : β} {entries : List (κ × β)}
    (h : entries.Pairwise (·.1 < ·.1)) : (insertEntry key value entries).Pairwise (·.1 < ·.1) := by
  induction entries with
  | nil => simp [insertEntry]
  | cons other rest ih =>
      obtain ⟨hother, hrest⟩ := List.pairwise_cons.1 h
      rw [insertEntry]
      split_ifs with heq hlt
      · exact List.pairwise_cons.2 ⟨fun entry hentry => heq ▸ hother entry hentry, hrest⟩
      · refine List.pairwise_cons.2 ⟨fun entry hentry => ?_, h⟩
        obtain rfl | hentry := List.mem_cons.1 hentry
        · exact hlt
        · exact hlt.trans (hother entry hentry)
      · refine List.pairwise_cons.2 ⟨fun entry hentry => ?_, ih hrest⟩
        obtain rfl | hentry := mem_insertEntry hentry
        · exact lt_of_le_of_ne (not_lt.1 hlt) (Ne.symm heq)
        · exact hother entry hentry

def empty : SortedMap κ β := ⟨[], .nil⟩

def insert (map : SortedMap κ β) (key : κ) (value : β) : SortedMap κ β :=
  ⟨insertEntry key value map.entries, sorted_insertEntry map.sorted⟩

def erase (map : SortedMap κ β) (key : κ) : SortedMap κ β :=
  ⟨map.entries.filter (·.1 ≠ key), map.sorted.filter _⟩

def get (map : SortedMap κ β) (key : κ) : Option β :=
  (map.entries.find? (·.1 = key)).map (·.2)

def keys (map : SortedMap κ β) : List κ := map.entries.map (·.1)

def values (map : SortedMap κ β) : List β := map.entries.map (·.2)

def length (map : SortedMap κ β) : ℕ := map.entries.length

@[simp] theorem get_empty (key : κ) : (empty : SortedMap κ β).get key = none := rfl

theorem find?_insertEntry (key : κ) (value : β) (entries : List (κ × β)) (key' : κ) :
    ((insertEntry key value entries).find? (·.1 = key')).map (·.2) =
      if key' = key then some value else (entries.find? (·.1 = key')).map (·.2) := by
  induction entries with
  | nil =>
      by_cases h : key' = key
      · simp [insertEntry, h]
      · simp [insertEntry, h, Ne.symm h]
  | cons other rest ih =>
      by_cases h : key' = key
      · subst h
        rw [insertEntry, if_pos rfl]
        split_ifs with heq
        · simp
        · simp
        · rw [List.find?_cons_of_neg (by simpa using Ne.symm heq), ih, if_pos rfl]
      · rw [insertEntry, if_neg h]
        split_ifs with heq
        · simp [← heq, Ne.symm h]
        · simp [Ne.symm h]
        · by_cases hother : other.1 = key'
          · simp [hother]
          · rw [List.find?_cons_of_neg (by simpa using hother),
              List.find?_cons_of_neg (by simpa using hother), ih, if_neg h]

theorem get_insert (map : SortedMap κ β) (key : κ) (value : β) (key' : κ) :
    (map.insert key value).get key' = if key' = key then some value else map.get key' :=
  find?_insertEntry key value map.entries key'

/-- The entries are what lookups find. -/
theorem mem_entries_iff (map : SortedMap κ β) {key : κ} {value : β} :
    (key, value) ∈ map.entries ↔ map.get key = some value := by
  obtain ⟨entries, hsorted⟩ := map
  simp only [get]
  induction entries with
  | nil => simp
  | cons other rest ih =>
      obtain ⟨hother, hrest⟩ := List.pairwise_cons.1 hsorted
      by_cases h : other.1 = key
      · have hnot : (key, value) ∉ rest := fun hmem => absurd (hother _ hmem) (by simp [h])
        simp only [List.mem_cons, hnot, or_false, List.find?_cons_of_pos, h, decide_true,
          Option.map_some, Option.some.injEq]
        rw [← h, Prod.ext_iff]
        simp [eq_comm]
      · rw [List.find?_cons_of_neg (by simpa using h), ← ih hrest, List.mem_cons]
        constructor
        · rintro (rfl | hmem)
          · exact absurd rfl h
          · exact hmem
        · exact .inr

end SortedMap

/-- Machine words in their natural order, as keys. -/
instance SortedMap.linearOrderUInt64 : LinearOrder UInt64 where
  le_refl _ := UInt64.le_refl _
  le_trans _ _ _ := UInt64.le_trans
  lt_iff_le_not_ge a b := by
    rw [UInt64.lt_iff_toNat_lt, UInt64.le_iff_toNat_le, UInt64.le_iff_toNat_le]
    omega
  le_antisymm _ _ := UInt64.le_antisymm
  le_total := UInt64.le_total
  toDecidableLE := inferInstance
