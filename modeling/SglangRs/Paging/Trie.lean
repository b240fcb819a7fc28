import Mathlib.Data.List.Basic

/-!
# Tries with a value at every node

A trie is a rooted tree whose edges are labelled by symbols, each node carrying an optional
value. This file develops the two walks a prefix cache makes on such a tree: writing one value
at each node of a path, creating the missing nodes (`Trie.writePath`), and reading the values
along a word as long as they are present (`Trie.readPath`).

Nodes are addressed by the word that leads to them, so a trie is read as the partial function
`Trie.get` from words to values; `Trie.get_writePath` says that writing a path changes this
function at the prefixes of the path only.

## Main definitions

* `Trie`, `Trie.get`: tries and the value at the end of a word.
* `Trie.writePath`: write one value at every node of a path.
* `Trie.readPath`: the values along the longest valued prefix of a word.

## Main results

* `Trie.get_writePath`: the value at a word after a path has been written.
* `Trie.getElem?_readPath`: the values read are the values at the prefixes of the word.
* `Trie.get_length_readPath`: reading stops at the first prefix without a value.
-/

namespace Paging

/-- A trie over the symbols `α` with an optional value of type `β` at every node. -/
structure Trie (α β : Type) where
  /-- The value of the node, if one has been written. -/
  value : Option β := none
  /-- The child along each symbol. -/
  children : α → Option (Trie α β) := fun _ => none

namespace Trie

variable {α β : Type} [DecidableEq α]

/-- The value at the end of the word `w`, if its node exists and has a value. -/
def get : Trie α β → List α → Option β
  | t, [] => t.value
  | t, a :: w => (t.children a).bind fun c => c.get w

/-- The trie with the child along `a` replaced by `c`. -/
def setChild (t : Trie α β) (a : α) (c : Trie α β) : Trie α β :=
  { t with children := fun b => if b = a then some c else t.children b }

/-- Walk along the symbols of a path, creating missing nodes, and write one value at every node
reached. The value of the starting node is untouched. -/
def writePath : Trie α β → List (α × β) → Trie α β
  | t, [] => t
  | t, (a, b) :: path =>
      t.setChild a (writePath { (t.children a).getD {} with value := some b } path)

/-- The values along the longest prefix of a word all of whose nodes exist and have a value. -/
def readPath : Trie α β → List α → List β
  | _, [] => []
  | t, a :: w =>
      match t.children a with
      | none => []
      | some c =>
          match c.value with
          | none => []
          | some b => b :: c.readPath w

omit [DecidableEq α] in
@[simp] theorem get_nil (t : Trie α β) : t.get [] = t.value := rfl

omit [DecidableEq α] in
@[simp] theorem get_empty (w : List α) : ({} : Trie α β).get w = none := by
  cases w <;> rfl

omit [DecidableEq α] in
theorem get_cons (t : Trie α β) (a : α) (w : List α) :
    t.get (a :: w) = (t.children a).bind fun c => c.get w := rfl

@[simp] theorem value_writePath (t : Trie α β) (path : List (α × β)) :
    (t.writePath path).value = t.value := by
  cases path <;> rfl

omit [DecidableEq α] in
/-- The value at a proper extension of the empty word does not see the value of the root. -/
private theorem get_cons_setValue (t : Trie α β) (v : Option β) (a : α) (w : List α) :
    ({ t with value := v } : Trie α β).get (a :: w) = t.get (a :: w) := rfl

/-- **Writing a path.** After `path` has been written, the value at a word is the value the path
carries there if the word is a non-empty prefix of the symbols of the path, and the old value
otherwise. -/
theorem get_writePath (t : Trie α β) (path : List (α × β)) (w : List α) :
    (t.writePath path).get w =
      if w ≠ [] ∧ w <+: path.map Prod.fst then (path.map Prod.snd)[w.length - 1]?
      else t.get w := by
  induction path generalizing t w with
  | nil =>
    have hw : ¬(w ≠ [] ∧ w <+: ([] : List (α × β)).map Prod.fst) := by
      rintro ⟨hne, hp⟩
      exact hne (List.prefix_nil.mp hp)
    rw [if_neg hw, writePath]
  | cons head path ih =>
    obtain ⟨a, b⟩ := head
    cases w with
    | nil => simp
    | cons x w =>
      by_cases hx : x = a
      · subst hx
        have hstep : (t.writePath ((x, b) :: path)).get (x :: w) =
            (writePath { (t.children x).getD {} with value := some b } path).get w := by
          simp [writePath, setChild, get_cons]
        rw [hstep, ih]
        -- the remaining word is empty (the node just written) or lies strictly below it
        cases w with
        | nil => simp
        | cons y w =>
          have hold : (t.get (x :: y :: w)) = ((t.children x).getD {}).get (y :: w) := by
            cases hc : t.children x <;> simp [get_cons, hc]
          simp only [get_cons_setValue, hold, ne_eq, reduceCtorEq, not_false_eq_true, true_and,
            List.map_cons, List.cons_prefix_cons, List.length_cons, Nat.add_sub_cancel,
            List.getElem?_cons_succ]
      · have hne : ¬(x :: w <+: ((a, b) :: path).map Prod.fst) := by
          simp [List.cons_prefix_cons, hx]
        rw [if_neg fun h => hne h.2]
        simp [writePath, setChild, get_cons, hx]

omit [DecidableEq α] in
theorem length_readPath_le (t : Trie α β) (w : List α) : (t.readPath w).length ≤ w.length := by
  induction w generalizing t with
  | nil => simp [readPath]
  | cons a w ih =>
    unfold readPath
    split
    · simp
    · split
      · simp
      · simpa using ih _

omit [DecidableEq α] in
/-- **Reading a path.** The `i`-th value read is the value at the prefix of length `i + 1`. -/
theorem getElem?_readPath (t : Trie α β) (w : List α) {i : ℕ}
    (hi : i < (t.readPath w).length) : (t.readPath w)[i]? = t.get (w.take (i + 1)) := by
  induction w generalizing t i with
  | nil => simp [readPath] at hi
  | cons a w ih =>
    unfold readPath at hi ⊢
    split at hi
    · simp at hi
    · rename_i c hc
      split at hi
      · simp at hi
      · rename_i b hb
        cases i with
        | zero => simp [get_cons, hc, hb]
        | succ i =>
          have hi' : i < (c.readPath w).length := by simpa using hi
          simpa [get_cons, hc, hb] using ih c hi'

omit [DecidableEq α] in
/-- Reading stops at the first prefix of the word without a value. -/
theorem get_length_readPath (t : Trie α β) (w : List α) (h : (t.readPath w).length < w.length) :
    t.get (w.take ((t.readPath w).length + 1)) = none := by
  induction w generalizing t with
  | nil => simp at h
  | cons a w ih =>
    unfold readPath at h ⊢
    split
    · rename_i hc
      simp [get_cons, hc]
    · rename_i c hc
      split
      · rename_i hb
        simp [get_cons, hc, hb]
      · rename_i b hb
        have h' : (c.readPath w).length < w.length := by simpa [hc, hb] using h
        simpa [get_cons, hc] using ih c h'

omit [DecidableEq α] in
/-- How far reading goes depends only on which words have a value. -/
theorem length_readPath_congr {γ : Type} (t : Trie α β) (u : Trie α γ) (w : List α)
    (h : ∀ v, (t.get v).isSome = (u.get v).isSome) :
    (t.readPath w).length = (u.readPath w).length := by
  have hle {β γ : Type} (t : Trie α β) (u : Trie α γ)
      (h : ∀ v, (t.get v).isSome = (u.get v).isSome) :
      (u.readPath w).length ≤ (t.readPath w).length := by
    by_contra hlt
    have hlt' : (t.readPath w).length < (u.readPath w).length := Nat.lt_of_not_le hlt
    have hnone := t.get_length_readPath w (Nat.lt_of_lt_of_le hlt' (u.length_readPath_le w))
    have hsome := h (w.take ((t.readPath w).length + 1))
    rw [hnone, ← u.getElem?_readPath w hlt', List.getElem?_eq_getElem hlt'] at hsome
    simp at hsome
  exact Nat.le_antisymm (hle u t fun v => (h v).symm) (hle t u h)

end Trie

end Paging
