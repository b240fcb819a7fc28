import Mathlib.Data.Finset.Basic
import Mathlib.Data.Set.Basic
import SglangRs.Paging.Layout

/-!
# Exclusive pages and shared slots

Several owners hold slots laid out on pages. The pages an owner starts are its own: no other owner
starts them. An owner publishes an initial part of its slots, which may then be shared; the rest of
its last published page stays private, so that the owner can go on filling it.

`Exclusive p allocated owners shared` states this discipline for the set `shared` of shared slots.
The lemmas of this file say how it survives the growth of an owner, the publication of slots, and
the release of pages. Pages have no reference counts: a page may be released once no owner starts
it and no shared slot lies on it.

## Main definitions

* `Paging.Owner`: the slots of an owner and how many of them it has published.
* `Paging.Exclusive`: the discipline.

## Main results

* `Paging.Exclusive.grow`: an owner may continue on its last page and on fresh pages.
* `Paging.Exclusive.truncate`: an owner may give up slots it has not published.
* `Paging.Exclusive.retire`: an owner may leave, releasing the pages past its published slots.
* `Paging.Exclusive.depart`: an owner may leave, releasing its pages if they are not shared.
* `Paging.Exclusive.notMem_of_unpublished`: an unpublished slot is used by nobody else.
-/

namespace Paging

variable {p : ℕ}

/-- The slots of an owner, an initial part of which is published. -/
structure Owner where
  slots : List ℕ
  published : ℕ

/-- Owners start disjoint sets of allocated pages, and a shared slot on such a page is one its owner
has published. -/
structure Exclusive (p : ℕ) (allocated : Finset ℕ) (owners : List Owner) (shared : Set ℕ) :
    Prop where
  paged : ∀ o ∈ owners, Paged p o.slots
  nodup : (owners.flatMap fun o => firstPages p o.slots).Nodup
  owned_allocated : ∀ o ∈ owners, ∀ g ∈ firstPages p o.slots, g ∈ allocated
  shared_allocated : ∀ x ∈ shared, x / p ∈ allocated
  shared_published : ∀ x ∈ shared, ∀ o ∈ owners, x / p ∈ firstPages p o.slots →
    x ∈ o.slots.take o.published

namespace Exclusive

variable {allocated : Finset ℕ} {owners : List Owner} {shared : Set ℕ} {o : Owner}

theorem nil_empty (p : ℕ) (allocated : Finset ℕ) : Exclusive p allocated [] ∅ :=
  ⟨by simp, by simp, by simp, by simp, by simp⟩

theorem perm (h : Exclusive p allocated owners shared) {owners' : List Owner}
    (hperm : owners.Perm owners') : Exclusive p allocated owners' shared where
  paged := fun o ho => h.paged o (hperm.mem_iff.mpr ho)
  nodup := (hperm.flatMap_right _).nodup_iff.mp h.nodup
  owned_allocated := fun o ho => h.owned_allocated o (hperm.mem_iff.mpr ho)
  shared_allocated := h.shared_allocated
  shared_published := fun x hx o ho => h.shared_published x hx o (hperm.mem_iff.mpr ho)

/-- Fewer slots may be shared. -/
theorem mono (h : Exclusive p allocated owners shared) {shared' : Set ℕ}
    (hsub : shared' ⊆ shared) : Exclusive p allocated owners shared' :=
  ⟨h.paged, h.nodup, h.owned_allocated, fun x hx => h.shared_allocated x (hsub hx),
    fun x hx => h.shared_published x (hsub hx)⟩

/-- The first owner's pages are its own. -/
theorem notMem_of_cons (h : Exclusive p allocated (o :: owners) shared) {g : ℕ}
    (hg : g ∈ firstPages p o.slots) : ∀ o' ∈ owners, g ∉ firstPages p o'.slots := by
  intro o' ho' hg'
  have hnodup := h.nodup
  rw [List.flatMap_cons] at hnodup
  exact (List.disjoint_of_nodup_append hnodup) hg (List.mem_flatMap.mpr ⟨o', ho', hg'⟩)

theorem nodup_of_mem (h : Exclusive p allocated owners shared) (ho : o ∈ owners) :
    (firstPages p o.slots).Nodup :=
  (List.nodup_flatMap.mp h.nodup).1 o ho

/-- An owner may leave its pages behind. -/
theorem tail (h : Exclusive p allocated (o :: owners) shared) :
    Exclusive p allocated owners shared where
  paged := fun o' ho' => h.paged o' (List.mem_cons_of_mem _ ho')
  nodup := by
    have hnodup := h.nodup
    rw [List.flatMap_cons] at hnodup
    exact (List.nodup_append.mp hnodup).2.1
  owned_allocated := fun o' ho' => h.owned_allocated o' (List.mem_cons_of_mem _ ho')
  shared_allocated := h.shared_allocated
  shared_published := fun x hx o' ho' => h.shared_published x hx o' (List.mem_cons_of_mem _ ho')

/-- An owner without slots may join. -/
theorem cons_of_nil (hp : 0 < p) (h : Exclusive p allocated owners shared)
    (ho : o.slots = []) : Exclusive p allocated (o :: owners) shared where
  paged := by
    rintro o' (_ | ⟨_, ho'⟩)
    · rw [ho]
      exact Paged.nil hp
    · exact h.paged o' ho'
  nodup := by
    rw [List.flatMap_cons, ho]
    exact h.nodup
  owned_allocated := by
    rintro o' (_ | ⟨_, ho'⟩) g hg
    · simp [ho] at hg
    · exact h.owned_allocated o' ho' g hg
  shared_allocated := h.shared_allocated
  shared_published := by
    rintro x hx o' (_ | ⟨_, ho'⟩) hg
    · simp [ho] at hg
    · exact h.shared_published x hx o' ho' hg

/-- **Publication.** An owner may publish more of its slots and share them. -/
theorem publish (hp : 0 < p) (h : Exclusive p allocated (o :: owners) shared) {k : ℕ}
    (hk : o.published ≤ k) :
    Exclusive p allocated ({ o with published := k } :: owners)
      (shared ∪ { x | x ∈ o.slots.take k }) where
  paged := by
    rintro o' (_ | ⟨_, ho'⟩)
    · exact h.paged o List.mem_cons_self
    · exact h.paged o' (List.mem_cons_of_mem _ ho')
  nodup := h.nodup
  owned_allocated := by
    rintro o' (_ | ⟨_, ho'⟩)
    · exact h.owned_allocated o List.mem_cons_self
    · exact h.owned_allocated o' (List.mem_cons_of_mem _ ho')
  shared_allocated := by
    rintro x (hx | hx)
    · exact h.shared_allocated x hx
    · exact h.owned_allocated o List.mem_cons_self _
        ((h.paged o List.mem_cons_self).page_mem_firstPages hp (List.mem_of_mem_take hx))
  shared_published := by
    rintro x (hx | hx) o' (_ | ⟨_, ho'⟩) hg
    · exact (List.take_subset_take_left _ hk)
        (h.shared_published x hx o List.mem_cons_self hg)
    · exact h.shared_published x hx o' (List.mem_cons_of_mem _ ho') hg
    · exact hx
    · -- the page of a slot of `o` is not started by another owner
      have hown := (h.paged o List.mem_cons_self).page_mem_firstPages hp (List.mem_of_mem_take hx)
      exact absurd hg (h.notMem_of_cons hown o' ho')

/-- **Growth.** An owner may continue on its last page and on fresh pages. -/
theorem grow (h : Exclusive p allocated (o :: owners) shared) {new fresh : List ℕ}
    (hpaged : Paged p (o.slots ++ new)) (hfirst : firstPages p new = fresh)
    (hnodup : fresh.Nodup) (hfresh : ∀ g ∈ fresh, g ∉ allocated) :
    Exclusive p (allocated ∪ fresh.toFinset) ({ o with slots := o.slots ++ new } :: owners)
      shared where
  paged := by
    rintro o' (_ | ⟨_, ho'⟩)
    · exact hpaged
    · exact h.paged o' (List.mem_cons_of_mem _ ho')
  nodup := by
    have hold := h.nodup
    rw [List.flatMap_cons] at hold ⊢
    simp only [firstPages_append, hfirst]
    obtain ⟨ho, hrest, hdisj⟩ := List.nodup_append.mp hold
    refine List.nodup_append.mpr ⟨List.nodup_append.mpr ⟨ho, hnodup, ?_⟩, hrest, ?_⟩
    · rintro g hg _ hg' rfl
      exact hfresh g hg' (h.owned_allocated o List.mem_cons_self g hg)
    · rintro g hg _ hg' rfl
      rcases List.mem_append.mp hg with hg | hg
      · exact hdisj g hg g hg' rfl
      · obtain ⟨o', ho', hmem⟩ := List.mem_flatMap.mp hg'
        exact hfresh g hg (h.owned_allocated o' (List.mem_cons_of_mem _ ho') g hmem)
  owned_allocated := by
    rintro o' (_ | ⟨_, ho'⟩) g hg
    · rw [firstPages_append, hfirst] at hg
      rcases List.mem_append.mp hg with hg | hg
      · exact Finset.mem_union_left _ (h.owned_allocated o List.mem_cons_self g hg)
      · exact Finset.mem_union_right _ (List.mem_toFinset.mpr hg)
    · exact Finset.mem_union_left _ (h.owned_allocated o' (List.mem_cons_of_mem _ ho') g hg)
  shared_allocated := fun x hx => Finset.mem_union_left _ (h.shared_allocated x hx)
  shared_published := by
    rintro x hx o' (_ | ⟨_, ho'⟩) hg
    · rw [firstPages_append, hfirst] at hg
      rcases List.mem_append.mp hg with hg | hg
      · have hold := h.shared_published x hx o List.mem_cons_self hg
        rw [List.take_append]
        exact List.mem_append_left _ hold
      · exact absurd (h.shared_allocated x hx) (hfresh _ hg)
    · exact h.shared_published x hx o' (List.mem_cons_of_mem _ ho') hg

/-- **Release.** Pages that no owner starts and on which no shared slot lies may be released. -/
theorem release (h : Exclusive p allocated owners shared) {pages : List ℕ}
    (howned : ∀ o ∈ owners, ∀ g ∈ firstPages p o.slots, g ∉ pages)
    (hshared : ∀ x ∈ shared, x / p ∉ pages) :
    Exclusive p (allocated \ pages.toFinset) owners shared where
  paged := h.paged
  nodup := h.nodup
  owned_allocated := fun o ho g hg => Finset.mem_sdiff.mpr
    ⟨h.owned_allocated o ho g hg, fun hmem => howned o ho g hg (List.mem_toFinset.mp hmem)⟩
  shared_allocated := fun x hx => Finset.mem_sdiff.mpr
    ⟨h.shared_allocated x hx, fun hmem => hshared x hx (List.mem_toFinset.mp hmem)⟩
  shared_published := h.shared_published

/-- The pages an owner starts after its published slots carry no shared slot. -/
theorem page_notMem_of_shared (hp : 0 < p) (h : Exclusive p allocated (o :: owners) shared)
    {base new : List ℕ} (hslots : o.slots = base ++ new) (hk : o.published ≤ base.length) {x : ℕ}
    (hx : x ∈ shared) : x / p ∉ firstPages p new := by
  intro hg
  have hpaged := h.paged o List.mem_cons_self
  have hnodup := h.nodup_of_mem (List.mem_cons_self (a := o) (l := owners))
  have hpub := h.shared_published x hx o List.mem_cons_self
    (by rw [hslots, firstPages_append]; exact List.mem_append_right _ hg)
  rw [hslots, List.take_append_of_le_length hk] at hpub
  have hbase : o.slots.take base.length = base := by rw [hslots, List.take_left]
  have hmem := ((hbase ▸ hpaged.take hp base.length)).page_mem_firstPages hp
    (List.mem_of_mem_take hpub)
  rw [hslots, firstPages_append] at hnodup
  exact (List.disjoint_of_nodup_append hnodup) hmem hg

/-- **Truncation.** An owner may give up slots it has not published, with the pages they start. -/
theorem truncate (hp : 0 < p) (h : Exclusive p allocated (o :: owners) shared)
    {base new : List ℕ} (hslots : o.slots = base ++ new) (hk : o.published ≤ base.length) :
    Exclusive p (allocated \ (firstPages p new).toFinset) ({ o with slots := base } :: owners)
      shared := by
  have hpaged := h.paged o List.mem_cons_self
  have hnodup := h.nodup_of_mem (List.mem_cons_self (a := o) (l := owners))
  have hold := h.nodup
  rw [hslots, firstPages_append] at hnodup
  rw [List.flatMap_cons, hslots, firstPages_append] at hold
  have hbase : Paged p base := by
    have htake := hpaged.take hp base.length
    rwa [hslots, List.take_left] at htake
  have hsub : ∀ g ∈ firstPages p base, g ∈ firstPages p o.slots := by
    intro g hg
    rw [hslots, firstPages_append]
    exact List.mem_append_left _ hg
  have hshort : Exclusive p allocated ({ o with slots := base } :: owners) shared := by
    refine ⟨?_, ?_, ?_, h.shared_allocated, ?_⟩
    · rintro o' (_ | ⟨_, ho'⟩)
      · exact hbase
      · exact h.paged o' (List.mem_cons_of_mem _ ho')
    · rw [List.flatMap_cons]
      exact hold.sublist ((List.sublist_append_left _ _).append_right _)
    · rintro o' (_ | ⟨_, ho'⟩) g hg
      · exact h.owned_allocated o List.mem_cons_self g (hsub g hg)
      · exact h.owned_allocated o' (List.mem_cons_of_mem _ ho') g hg
    · rintro x hx o' (_ | ⟨_, ho'⟩) hg
      · have hpub := h.shared_published x hx o List.mem_cons_self (hsub _ hg)
        rwa [hslots, List.take_append_of_le_length hk] at hpub
      · exact h.shared_published x hx o' (List.mem_cons_of_mem _ ho') hg
  refine hshort.release ?_ fun x hx => h.page_notMem_of_shared hp hslots hk hx
  rintro o' (_ | ⟨_, ho'⟩) g hg hnew
  · exact (List.disjoint_of_nodup_append hnodup) hg hnew
  · refine h.notMem_of_cons ?_ o' ho' hg
    rw [hslots, firstPages_append]
    exact List.mem_append_right _ hnew

/-- **Retirement.** An owner may leave and release the pages it starts from position `k` on, if it
has published at most `k` slots. -/
theorem retire (hp : 0 < p) (h : Exclusive p allocated (o :: owners) shared) {k : ℕ}
    (hk : o.published ≤ k) :
    Exclusive p (allocated \ (firstPages p (o.slots.drop k)).toFinset) owners shared := by
  rcases Nat.lt_or_ge o.slots.length k with hlen | hlen
  · rw [List.drop_of_length_le hlen.le]
    simpa using h.tail
  · refine (h.truncate hp (List.take_append_drop k o.slots).symm ?_).tail
    rwa [List.length_take, Nat.min_eq_left hlen]

/-- **Departure.** An owner may leave and release all its pages, if no slot that stays shared lies
on them. -/
theorem depart (h : Exclusive p allocated (o :: owners) shared) {shared' : Set ℕ}
    (hsub : shared' ⊆ shared) (hfree : ∀ x ∈ shared', x / p ∉ firstPages p o.slots) :
    Exclusive p (allocated \ (firstPages p o.slots).toFinset) owners shared' :=
  (h.tail.mono hsub).release (fun o' ho' _ hg' hg => h.notMem_of_cons hg o' ho' hg') hfree

/-- **Unpublished slots are private.** A slot an owner has not published is neither shared nor a
slot of another owner. -/
theorem notMem_of_unpublished (hp : 0 < p) (h : Exclusive p allocated (o :: owners) shared)
    {base new : List ℕ} (hslots : o.slots = base ++ new) (hk : o.published ≤ base.length) {x : ℕ}
    (hx : x ∈ new) : x ∉ shared ∧ ∀ o' ∈ owners, x ∉ o'.slots := by
  have hpaged := h.paged o List.mem_cons_self
  have hmem : x ∈ o.slots := by
    rw [hslots]
    exact List.mem_append_right _ hx
  have hpage := hpaged.page_mem_firstPages hp hmem
  refine ⟨fun hsh => ?_, fun o' ho' hx' => ?_⟩
  · have hpub := h.shared_published x hsh o List.mem_cons_self hpage
    rw [hslots, List.take_append_of_le_length hk] at hpub
    have hnodup := hpaged.nodup hp (h.nodup_of_mem List.mem_cons_self)
    rw [hslots] at hnodup
    exact (List.disjoint_of_nodup_append hnodup) (List.mem_of_mem_take hpub) hx
  · exact h.notMem_of_cons hpage o' ho'
      ((h.paged o' (List.mem_cons_of_mem _ ho')).page_mem_firstPages hp hx')

end Exclusive

end Paging
