import Mathlib.Data.Finset.Max
import Mathlib.Logic.Function.Basic
import Mathlib.Logic.Relation
import Mathlib.Order.WellFounded

/-!
# Trees in an arena

A tree whose nodes live in an arena is given by the links between their keys: each live node carries
a label, points to its parent, and lists its children by their labels. This file states when such
links describe a tree and how they change when a leaf is added or removed. Keys are ordered and a
node comes after its parent, as it does when keys are handed out in increasing order; that makes the
links free of cycles.

## Main definitions

* `Links`: the labels, parents and children of the keys.
* `Links.Tree`: the links describe a tree with a given root.
* `Links.addLeaf`, `Links.removeLeaf`: a leaf more or less.
* `Links.Reachable`: the keys found by going down from the root.
* `Links.walk`: the key reached by going down along labels.
* `Links.Follows`: the label of a node determines the label of its parent.
* `Links.Below`: the nodes below a key.
* `Links.Restricts`: some of the nodes of a tree.

## Main results

* `Links.Tree.addLeaf`, `Links.Tree.removeLeaf`: the result is a tree again.
* `Links.Tree.reachable`: every live key is reachable.
* `Links.Tree.exists_leaf`: a finite tree with more than a root has another leaf.
* `Links.Restricts.below`, `Links.Restricts.walk_iff`: a part of a tree is closed upwards, and has
  the paths of the tree.
* `Links.Follows.eq_of_label`: a label that determines the label above it occurs once.
* `Links.Follows.exists_label_iff`: which labels occur.
-/

namespace Arena

variable {ι κ : Type*}

/-- The links of the keys `ι` with labels in `κ`. A key is live if it carries a label. -/
@[ext]
structure Links (ι κ : Type*) where
  label : ι → Option κ
  parent : ι → Option ι
  child : ι → κ → Option ι

namespace Links

/-- The links describe a tree: parents and children agree, and a node comes after its parent. -/
structure Tree [LT ι] (L : Links ι κ) (root : ι) : Prop where
  root_live : L.label root ≠ none
  root_parent : L.parent root = none
  parent_spec : ∀ i, i ≠ root → L.label i ≠ none → ∃ p k, L.parent i = some p ∧ p < i ∧
    L.label p ≠ none ∧ L.label i = some k ∧ L.child p k = some i
  child_spec : ∀ p k i, L.child p k = some i → L.parent i = some p ∧ L.label i = some k

/-- The keys found by going down from the root. -/
inductive Reachable (L : Links ι κ) (root : ι) : ι → Prop
  | root : Reachable L root root
  | child {p i : ι} {k : κ} : Reachable L root p → L.child p k = some i → Reachable L root i

/-- The key reached by going down along labels. -/
def walk (L : Links ι κ) : ι → List κ → Option ι
  | i, [] => some i
  | i, k :: ks => (L.child i k).bind fun j => L.walk j ks

section Operations

variable [DecidableEq ι] [DecidableEq κ]

/-- A new leaf `i` labelled `k` below `p`. -/
def addLeaf (L : Links ι κ) (i p : ι) (k : κ) : Links ι κ where
  label := Function.update L.label i (some k)
  parent := Function.update L.parent i (some p)
  child q l := if q = p ∧ l = k then some i else L.child q l

/-- The leaf `i` labelled `k` below `p` taken away. -/
def removeLeaf (L : Links ι κ) (i p : ι) (k : κ) : Links ι κ where
  label := Function.update L.label i none
  parent := Function.update L.parent i none
  child q l := if q = p ∧ l = k then none else L.child q l

end Operations

namespace Tree

variable {L : Links ι κ} {root i p : ι} {k : κ}

section Order

variable [Preorder ι]

theorem ne_root_of_child (h : L.Tree root) (hc : L.child p k = some i) : i ≠ root := by
  rintro rfl
  have hp := (h.child_spec p k i hc).1
  rw [h.root_parent] at hp
  cases hp

theorem live_of_child (h : L.Tree root) (hc : L.child p k = some i) : L.label i ≠ none := by
  rw [(h.child_spec p k i hc).2]
  simp

theorem lt_of_child (h : L.Tree root) (hc : L.child p k = some i) : p < i := by
  obtain ⟨q, l, hq, hlt, -⟩ := h.parent_spec i (h.ne_root_of_child hc) (h.live_of_child hc)
  rw [(h.child_spec p k i hc).1] at hq
  rwa [Option.some.inj hq]

theorem live_of_child_left (h : L.Tree root) (hc : L.child p k = some i) : L.label p ≠ none := by
  obtain ⟨q, l, hq, -, hlive, -⟩ := h.parent_spec i (h.ne_root_of_child hc) (h.live_of_child hc)
  rw [(h.child_spec p k i hc).1] at hq
  rwa [Option.some.inj hq]

/-- A node is listed by its parent under its label. -/
theorem child_parent (h : L.Tree root) (hne : i ≠ root) (hp : L.parent i = some p)
    (hk : L.label i = some k) : L.child p k = some i ∧ p < i ∧ L.label p ≠ none := by
  obtain ⟨q, l, hq, hlt, hlive, hl, hc⟩ := h.parent_spec i hne (by simp [hk])
  obtain rfl : p = q := Option.some.inj (hp.symm.trans hq)
  obtain rfl : k = l := Option.some.inj (hk.symm.trans hl)
  exact ⟨hc, hlt, hlive⟩

variable [DecidableEq ι] [DecidableEq κ]

/-- A leaf under a key that was not live. -/
theorem addLeaf (h : L.Tree root) (hi : L.label i = none) (hp : L.label p ≠ none) (hlt : p < i)
    (hk : L.child p k = none) : (L.addLeaf i p k).Tree root := by
  have hlive {j : ι} (hj : L.label j ≠ none) : j ≠ i := by
    rintro rfl
    exact hj hi
  refine ⟨?_, ?_, ?_, ?_⟩
  · simpa [Links.addLeaf, hlive h.root_live] using h.root_live
  · simpa [Links.addLeaf, hlive h.root_live] using h.root_parent
  · intro j hne hj
    by_cases hji : j = i
    · subst hji
      exact ⟨p, k, by simp [Links.addLeaf], hlt, by simpa [Links.addLeaf, hlive hp] using hp,
        by simp [Links.addLeaf], by simp [Links.addLeaf]⟩
    · have hj' : L.label j ≠ none := by simpa [Links.addLeaf, hji] using hj
      obtain ⟨q, l, hq, hqj, hqlive, hl, hc⟩ := h.parent_spec j hne hj'
      refine ⟨q, l, by simpa [Links.addLeaf, hji] using hq, hqj,
        by simpa [Links.addLeaf, hlive hqlive] using hqlive,
        by simpa [Links.addLeaf, hji] using hl, ?_⟩
      have hql : ¬(q = p ∧ l = k) := by
        rintro ⟨rfl, rfl⟩
        rw [hk] at hc
        cases hc
      simpa [Links.addLeaf, hql] using hc
  · intro q l j hc
    by_cases hql : q = p ∧ l = k
    · obtain ⟨rfl, rfl⟩ := hql
      obtain rfl : i = j := by simpa [Links.addLeaf] using hc
      simp [Links.addLeaf]
    · have hc' : L.child q l = some j := by simpa [Links.addLeaf, hql] using hc
      have hji : j ≠ i := hlive (h.live_of_child hc')
      simpa [Links.addLeaf, hji] using h.child_spec q l j hc'

/-- A leaf other than the root taken away. -/
theorem removeLeaf (h : L.Tree root) (hne : i ≠ root) (hp : L.parent i = some p)
    (hk : L.label i = some k) (hleaf : ∀ l, L.child i l = none) :
    (L.removeLeaf i p k).Tree root := by
  have hroot : root ≠ i := hne.symm
  refine ⟨?_, ?_, ?_, ?_⟩
  · simpa [Links.removeLeaf, hroot] using h.root_live
  · simpa [Links.removeLeaf, hroot] using h.root_parent
  · intro j hj hlive
    have hji : j ≠ i := by
      rintro rfl
      simp [Links.removeLeaf] at hlive
    obtain ⟨q, l, hq, hqj, hqlive, hl, hc⟩ :=
      h.parent_spec j hj (by simpa [Links.removeLeaf, hji] using hlive)
    have hqi : q ≠ i := by
      rintro rfl
      rw [hleaf l] at hc
      cases hc
    refine ⟨q, l, by simpa [Links.removeLeaf, hji] using hq, hqj,
      by simpa [Links.removeLeaf, hqi] using hqlive, by simpa [Links.removeLeaf, hji] using hl, ?_⟩
    -- no other node is listed under the label of the leaf
    have hql : ¬(q = p ∧ l = k) := by
      rintro ⟨rfl, rfl⟩
      rw [(h.child_parent hne hp hk).1] at hc
      exact hji (Option.some.inj hc).symm
    simpa [Links.removeLeaf, hql] using hc
  · intro q l j hc
    have hql : ¬(q = p ∧ l = k) := by
      rintro ⟨rfl, rfl⟩
      simp [Links.removeLeaf] at hc
    have hc' : L.child q l = some j := by simpa [Links.removeLeaf, hql] using hc
    have hji : j ≠ i := by
      rintro rfl
      obtain ⟨hq, hl⟩ := h.child_spec q l j hc'
      exact hql ⟨Option.some.inj (hq.symm.trans hp), Option.some.inj (hl.symm.trans hk)⟩
    simpa [Links.removeLeaf, hji] using h.child_spec q l j hc'

end Order

/-- **Every live key is reachable**, since going up ends at the root. -/
theorem reachable [Preorder ι] [WellFoundedLT ι] (h : L.Tree root) (hi : L.label i ≠ none) :
    L.Reachable root i := by
  induction i using WellFoundedLT.induction with
  | ind i ih =>
    by_cases hne : i = root
    · rw [hne]
      exact .root
    · obtain ⟨p, k, -, hlt, hlive, -, hc⟩ := h.parent_spec i hne hi
      exact .child (ih p hlt hlive) hc

/-- The root comes before every other live key. -/
theorem root_le [Preorder ι] [WellFoundedLT ι] (h : L.Tree root) (hi : L.label i ≠ none) :
    root ≤ i := by
  induction h.reachable hi with
  | root => exact le_rfl
  | child hp hc ih => exact (ih (h.live_of_child_left hc)).trans (h.lt_of_child hc).le

/-- **A finite tree has a leaf besides its root** unless the root is all there is: the greatest
key has no children. -/
theorem exists_leaf [LinearOrder ι] [WellFoundedLT ι] (h : L.Tree root) {live : Finset ι}
    (hlive : ∀ i, i ∈ live ↔ L.label i ≠ none) (hi : i ∈ live) (hne : i ≠ root) :
    ∃ j ∈ live, j ≠ root ∧ ∀ l, L.child j l = none := by
  have hmax := live.max'_mem ⟨i, hi⟩
  refine ⟨live.max' ⟨i, hi⟩, hmax, ?_, fun l => ?_⟩
  · intro hroot
    have hle := live.le_max' i hi
    rw [hroot] at hle
    exact hne (le_antisymm hle (h.root_le ((hlive i).mp hi)))
  · by_contra hchild
    obtain ⟨j, hj⟩ := Option.ne_none_iff_exists'.mp hchild
    exact absurd (live.le_max' j ((hlive j).mpr (h.live_of_child hj)))
      (not_le_of_gt (h.lt_of_child hj))

end Tree

/-! ### Parts of a tree -/

/-- The nodes below a key. -/
def Below (L : Links ι κ) : ι → ι → Prop :=
  Relation.ReflTransGen fun p i => ∃ k, L.child p k = some i

/-- The nodes of the first tree are nodes of the second one, under the same parents. -/
def Restricts (L' L : Links ι κ) : Prop :=
  ∀ i, L'.label i ≠ none → L'.label i = L.label i ∧ L'.parent i = L.parent i

theorem Restricts.refl (L : Links ι κ) : L.Restricts L := fun _ _ => ⟨rfl, rfl⟩

theorem Restricts.trans {L₁ L₂ L₃ : Links ι κ} (h : L₁.Restricts L₂) (h' : L₂.Restricts L₃) :
    L₁.Restricts L₃ := by
  intro i hi
  obtain ⟨hl, hp⟩ := h i hi
  obtain ⟨hl', hp'⟩ := h' i (hl ▸ hi)
  exact ⟨hl.trans hl', hp.trans hp'⟩

section Restricts

variable {L L' : Links ι κ} {root i j : ι}

/-- Nothing is below a leaf but the leaf. -/
theorem Below.eq_of_leaf (h : L.Below i j) (hleaf : ∀ k, L.child i k = none) : j = i := by
  cases h.cases_head with
  | inl heq => exact heq.symm
  | inr hstep =>
      obtain ⟨c, ⟨k, hc⟩, -⟩ := hstep
      rw [hleaf k] at hc
      cases hc

theorem below_of_walk {ks : List κ} (h : L.walk i ks = some j) : L.Below i j := by
  induction ks generalizing i with
  | nil =>
      obtain rfl : i = j := by simpa [walk] using h
      exact .refl
  | cons k ks ih =>
      obtain ⟨c, hc, hw⟩ := Option.bind_eq_some_iff.mp h
      exact (ih hw).head ⟨k, hc⟩

variable [Preorder ι]

theorem Tree.live_of_below (h : L.Tree root) (hb : L.Below i j) (hj : L.label j ≠ none) :
    L.label i ≠ none := by
  induction hb with
  | refl => exact hj
  | tail _ hc ih =>
      obtain ⟨k, hc⟩ := hc
      exact ih (h.live_of_child_left hc)

/-- A child of the whole tree that is in the part is a child in the part. -/
theorem Restricts.child_eq {p : ι} {k : κ} (hr : L'.Restricts L) (h : L.Tree root)
    (h' : L'.Tree root) (hc : L.child p k = some i) (hi : L'.label i ≠ none) :
    L'.child p k = some i := by
  obtain ⟨hparent, hlabel⟩ := h.child_spec p k i hc
  obtain ⟨hl, hp⟩ := hr i hi
  exact (h'.child_parent (h.ne_root_of_child hc) (hp.trans hparent) (hl.trans hlabel)).1

theorem Restricts.child_of {p : ι} {k : κ} (hr : L'.Restricts L) (h : L.Tree root)
    (h' : L'.Tree root) (hc : L'.child p k = some i) : L.child p k = some i := by
  obtain ⟨hparent, hlabel⟩ := h'.child_spec p k i hc
  obtain ⟨hl, hp⟩ := hr i (h'.live_of_child hc)
  exact (h.child_parent (h'.ne_root_of_child hc) (hp.symm.trans hparent) (hl.symm.trans hlabel)).1

/-- **A part of a tree is closed upwards**: what is above a node of the part is in the part. -/
theorem Restricts.below (hr : L'.Restricts L) (h : L.Tree root) (h' : L'.Tree root)
    (hb : L.Below i j) (hj : L'.label j ≠ none) : L'.Below i j := by
  induction hb with
  | refl => exact .refl
  | tail _ hc ih =>
      obtain ⟨k, hc⟩ := hc
      have hc' := hr.child_eq h h' hc hj
      exact (ih (h'.live_of_child_left hc')).tail ⟨k, hc'⟩

/-- **The paths of a part of a tree** are those of the tree that end in it. -/
theorem Restricts.walk_iff (hr : L'.Restricts L) (h : L.Tree root) (h' : L'.Tree root)
    (hj : L'.label j ≠ none) {ks : List κ} : L'.walk i ks = some j ↔ L.walk i ks = some j := by
  induction ks generalizing i with
  | nil => rfl
  | cons k ks ih =>
      simp only [walk, Option.bind_eq_some_iff, ih]
      refine exists_congr fun c => and_congr_left fun hw => ⟨hr.child_of h h', fun hc => ?_⟩
      exact hr.child_eq h h' hc (h'.live_of_below (hr.below h h' (below_of_walk hw) hj) hj)

end Restricts

/-! ### Labels that determine the label above them -/

section Follows

variable {par : κ → Option κ}

/-- The label of a key as its children see it: the root shows none. -/
def tag [DecidableEq ι] (L : Links ι κ) (root p : ι) : Option κ :=
  if p = root then none else L.label p

/-- The label of a node determines the label of its parent, as `par` says. -/
def Follows [DecidableEq ι] (L : Links ι κ) (root : ι) (par : κ → Option κ) : Prop :=
  ∀ i k, i ≠ root → L.label i = some k → ∃ p, L.parent i = some p ∧ L.tag root p = par k

variable [DecidableEq ι] {L : Links ι κ} {root i j p : ι} {k : κ}

theorem Follows.restrict [Preorder ι] {L' : Links ι κ} (h : L.Follows root par)
    (hr : L'.Restricts L) (ht : L'.Tree root) : L'.Follows root par := by
  intro i k hne hk
  obtain ⟨hl, hp⟩ := hr i (by simp [hk])
  obtain ⟨p, hpar, htag⟩ := h i k hne (hl ▸ hk)
  rw [← hp] at hpar
  obtain ⟨-, -, hlive⟩ := ht.child_parent hne hpar hk
  refine ⟨p, hpar, ?_⟩
  rw [← htag, tag, tag, (hr p hlive).1]

theorem Follows.tag_of_child [Preorder ι] (h : L.Follows root par) (ht : L.Tree root)
    (hc : L.child p k = some i) : L.tag root p = par k := by
  obtain ⟨hp, hk⟩ := ht.child_spec p k i hc
  obtain ⟨q, hq, htag⟩ := h i k (ht.ne_root_of_child hc) hk
  obtain rfl : p = q := Option.some.inj (hp.symm.trans hq)
  exact htag

theorem Follows.addLeaf [Preorder ι] [DecidableEq κ] (h : L.Follows root par) (ht : L.Tree root)
    (hi : L.label i = none) (hp : L.label p ≠ none) (htag : L.tag root p = par k) :
    (L.addLeaf i p k).Follows root par := by
  have htag' {q : ι} (hq : L.label q ≠ none) : (L.addLeaf i p k).tag root q = L.tag root q := by
    have hqi : q ≠ i := by
      rintro rfl
      exact hq hi
    simp [tag, Links.addLeaf, hqi]
  intro j l hne hl
  by_cases hji : j = i
  · subst hji
    obtain rfl : k = l := by simpa [Links.addLeaf] using hl
    exact ⟨p, by simp [Links.addLeaf], (htag' hp).trans htag⟩
  · have hl' : L.label j = some l := by simpa [Links.addLeaf, hji] using hl
    obtain ⟨q, hq, hqtag⟩ := h j l hne hl'
    obtain ⟨-, -, hlive⟩ := ht.child_parent hne hq hl'
    exact ⟨q, by simpa [Links.addLeaf, hji] using hq, (htag' hlive).trans hqtag⟩

/-- Of the live keys only the root shows no label. -/
theorem eq_root_of_tag (hp : L.label p ≠ none) (htag : L.tag root p = none) : p = root := by
  by_contra hne
  exact hp (by simpa [tag, hne] using htag)

/-- **A label occurs once** when labels determine the labels above them: two nodes with one label
hang below nodes with one label, and so on up to the root. -/
theorem Follows.eq_of_label [Preorder ι] [WellFoundedLT ι] (h : L.Follows root par)
    (ht : L.Tree root) (hi : i ≠ root) (hj : j ≠ root) (hik : L.label i = some k)
    (hjk : L.label j = some k) : i = j := by
  induction i using WellFoundedLT.induction generalizing j k with
  | ind i ih =>
    obtain ⟨p, hp, hptag⟩ := h i k hi hik
    obtain ⟨q, hq, hqtag⟩ := h j k hj hjk
    obtain ⟨hpc, hlt, hplive⟩ := ht.child_parent hi hp hik
    obtain ⟨hqc, -, hqlive⟩ := ht.child_parent hj hq hjk
    have hpq : p = q := by
      by_cases hpr : p = root
      · have hnone : L.tag root q = none := by rw [hqtag, ← hptag, tag, if_pos hpr]
        exact hpr.trans (eq_root_of_tag hqlive hnone).symm
      · obtain ⟨l, hl⟩ := Option.ne_none_iff_exists'.mp hplive
        have hql : L.tag root q = some l := by rw [hqtag, ← hptag, tag, if_neg hpr, hl]
        have hqr : q ≠ root := by
          rintro rfl
          simp [tag] at hql
        exact ih p hlt hpr hqr hl (by simpa [tag, hqr] using hql)
    subst hpq
    exact Option.some.inj (hpc.symm.trans hqc)

/-- Live keys that show the same label are equal. -/
theorem Follows.eq_of_tag [Preorder ι] [WellFoundedLT ι] (h : L.Follows root par)
    (ht : L.Tree root) (hi : L.label i ≠ none) (hj : L.label j ≠ none)
    (htag : L.tag root i = L.tag root j) : i = j := by
  by_cases hir : i = root
  · have hnone : L.tag root j = none := by rw [← htag, tag, if_pos hir]
    exact hir.trans (eq_root_of_tag hj hnone).symm
  · obtain ⟨k, hk⟩ := Option.ne_none_iff_exists'.mp hi
    have hjk : L.tag root j = some k := by rw [← htag, tag, if_neg hir, hk]
    have hjr : j ≠ root := by
      rintro rfl
      simp [tag] at hjk
    exact h.eq_of_label ht hir hjr hk (by simpa [tag, hjr] using hjk)

omit [DecidableEq ι] in
/-- Going down along labels ends at a key that carries the last of them. -/
theorem Tree.label_of_walk [Preorder ι] (ht : L.Tree root) {ks : List κ}
    (hw : L.walk i ks = some j) (hk : ks.getLast? = some k) : j ≠ root ∧ L.label j = some k := by
  induction ks generalizing i with
  | nil => simp at hk
  | cons l ks ih =>
    obtain ⟨c, hc, hw⟩ := Option.bind_eq_some_iff.mp hw
    cases ks with
    | nil =>
      obtain rfl : l = k := by simpa using hk
      obtain rfl : c = j := by simpa [walk] using hw
      exact ⟨ht.ne_root_of_child hc, (ht.child_spec _ _ _ hc).2⟩
    | cons m ks => exact ih hw (by simpa using hk)

/-- The labels on the way down follow each other. -/
theorem Follows.exists_label_of_below [Preorder ι] [WellFoundedLT ι] (h : L.Follows root par)
    (ht : L.Tree root) (hb : L.Below i j) (hi : i ≠ root) (hik : L.label i = some k) :
    j ≠ root ∧ ∃ l, L.label j = some l ∧
      Relation.ReflTransGen (fun a b => par b = some a) k l := by
  induction hb with
  | refl => exact ⟨hi, k, hik, .refl⟩
  | tail _ hc ih =>
    obtain ⟨m, hm⟩ := hc
    obtain ⟨hne, l, hl, hpath⟩ := ih
    have htag := h.tag_of_child ht hm
    rw [tag, if_neg hne, hl] at htag
    exact ⟨ht.ne_root_of_child hm, m, (ht.child_spec _ _ _ hm).2, hpath.tail htag.symm⟩

/-- The labels above the label of a node are labels of nodes. -/
theorem Follows.exists_of_path [Preorder ι] (h : L.Follows root par) (ht : L.Tree root) {l : κ}
    (hpath : Relation.ReflTransGen (fun a b => par b = some a) k l)
    (hl : ∃ j, j ≠ root ∧ L.label j = some l) : ∃ i, i ≠ root ∧ L.label i = some k := by
  induction hpath using Relation.ReflTransGen.head_induction_on with
  | refl => exact hl
  | head hab _ ih =>
    obtain ⟨j, hj, hjl⟩ := ih
    obtain ⟨p, hp, htag⟩ := h j _ hj hjl
    rw [hab] at htag
    have hpr : p ≠ root := by
      rintro rfl
      simp [tag] at htag
    exact ⟨p, hpr, by simpa [tag, hpr] using htag⟩

/-- **Which labels occur** in a finite tree whose leaves are all kept: those above the label of a
kept node. -/
theorem Follows.exists_label_iff [LinearOrder ι] [WellFoundedLT ι] (h : L.Follows root par)
    (ht : L.Tree root) {live : Finset ι} (hlive : ∀ i, i ∈ live ↔ L.label i ≠ none)
    {kept : ι → Prop}
    (hkept : ∀ i, i ≠ root → L.label i ≠ none → (∀ l, L.child i l = none) → kept i) :
    (∃ i, i ≠ root ∧ L.label i = some k) ↔ ∃ j l, j ≠ root ∧ L.label j = some l ∧ kept j ∧
      Relation.ReflTransGen (fun a b => par b = some a) k l := by
  classical
  constructor
  · rintro ⟨i, hi, hik⟩
    have hmem : i ∈ live.filter (L.Below i) :=
      Finset.mem_filter.mpr ⟨(hlive i).mpr (by simp [hik]), .refl⟩
    have hmax := (live.filter (L.Below i)).max'_mem ⟨i, hmem⟩
    obtain ⟨hj, hb⟩ := Finset.mem_filter.mp hmax
    obtain ⟨hne, l, hl, hpath⟩ := h.exists_label_of_below ht hb hi hik
    refine ⟨_, l, hne, hl, hkept _ hne (by simp [hl]) fun m => ?_, hpath⟩
    by_contra hchild
    obtain ⟨c, hc⟩ := Option.ne_none_iff_exists'.mp hchild
    have hcmem : c ∈ live.filter (L.Below i) :=
      Finset.mem_filter.mpr ⟨(hlive c).mpr (ht.live_of_child hc), hb.tail ⟨m, hc⟩⟩
    exact absurd (Finset.le_max' _ c hcmem) (not_le_of_gt (ht.lt_of_child hc))
  · rintro ⟨j, l, hj, hjl, -, hpath⟩
    exact h.exists_of_path ht hpath ⟨j, hj, hjl⟩

end Follows

end Links

end Arena
