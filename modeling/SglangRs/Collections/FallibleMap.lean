import Mathlib.Data.List.Forall2

/-!
# Maps that may fail

A function that may fail, mapped over a list, fails where the function first fails; otherwise it
gives the list of all results.

## Main results

* `mapM_eq_ok_iff`: the results of a map that does not fail.
* `exists_mapM_eq_ok_iff`: the map does not fail if the function fails nowhere.
* `exists_mapM_forall₂_iff`: the same with a relation between the entries and the results.
* `mapM_eq_ok_iff_map`: a function that is total up to a condition.
-/

namespace SglangRs

variable {ε α β : Type} {f : α → Except ε β}

theorem mapM_cons_eq_ok {a : α} {as : List α} {bs : List β} :
    (a :: as).mapM f = .ok bs ↔
      ∃ b bs', f a = .ok b ∧ as.mapM f = .ok bs' ∧ bs = b :: bs' := by
  rw [List.mapM_cons]
  cases hfa : f a with
  | error e => simp [bind, Except.bind]
  | ok b =>
      cases hfas : as.mapM f with
      | error e => simp [bind, Except.bind]
      | ok bs' => simp [bind, Except.bind, pure, Except.pure, eq_comm]

theorem mapM_eq_ok_iff {as : List α} {bs : List β} :
    as.mapM f = .ok bs ↔ List.Forall₂ (fun a b => f a = .ok b) as bs := by
  induction as generalizing bs with
  | nil =>
      rw [List.mapM_nil, List.forall₂_nil_left_iff]
      exact ⟨fun h => (Except.ok.inj h).symm, fun h => h ▸ rfl⟩
  | cons a as ih =>
      rw [mapM_cons_eq_ok, List.forall₂_cons_left_iff]
      simp only [ih]

/-- A function that has a fixed result under a condition. -/
theorem mapM_eq_ok_iff_map {P : α → Prop} {g : α → β} (h : ∀ a b, f a = .ok b ↔ P a ∧ b = g a)
    {as : List α} {bs : List β} : as.mapM f = .ok bs ↔ (∀ a ∈ as, P a) ∧ bs = as.map g := by
  induction as generalizing bs with
  | nil => simp [pure, Except.pure, eq_comm]
  | cons a as ih =>
      simp only [mapM_cons_eq_ok, ih, h, List.forall_mem_cons, List.map_cons]
      constructor
      · rintro ⟨_, _, ⟨ha, rfl⟩, ⟨has, rfl⟩, rfl⟩
        exact ⟨⟨ha, has⟩, rfl⟩
      · rintro ⟨⟨ha, has⟩, rfl⟩
        exact ⟨_, _, ⟨ha, rfl⟩, ⟨has, rfl⟩, rfl⟩

/-- The map succeeds if the function succeeds everywhere. -/
theorem exists_mapM_eq_ok_iff {as : List α} :
    (∃ bs, as.mapM f = .ok bs) ↔ ∀ a ∈ as, ∃ b, f a = .ok b := by
  induction as with
  | nil => simp [pure, Except.pure]
  | cons a as ih =>
      simp only [mapM_cons_eq_ok, List.forall_mem_cons, ← ih]
      constructor
      · rintro ⟨bs, b, bs', hb, hbs, -⟩
        exact ⟨⟨b, hb⟩, ⟨bs', hbs⟩⟩
      · rintro ⟨⟨b, hb⟩, ⟨bs', hbs⟩⟩
        exact ⟨b :: bs', b, bs', hb, hbs, rfl⟩

/-- The map succeeds with results that are related to the entries if the function does. -/
theorem exists_mapM_forall₂_iff {R : α → β → Prop} {as : List α} :
    (∃ bs, as.mapM f = .ok bs ∧ List.Forall₂ R as bs) ↔
      ∀ a ∈ as, ∃ b, f a = .ok b ∧ R a b := by
  induction as with
  | nil => exact iff_of_true ⟨[], rfl, .nil⟩ (List.forall_mem_nil _)
  | cons a as ih =>
      simp only [mapM_cons_eq_ok, List.forall_mem_cons, ← ih]
      constructor
      · rintro ⟨_, ⟨b, bs, hb, hbs, rfl⟩, hall⟩
        obtain ⟨hab, hrest⟩ := List.forall₂_cons.mp hall
        exact ⟨⟨b, hb, hab⟩, bs, hbs, hrest⟩
      · rintro ⟨⟨b, hb, hab⟩, bs, hbs, hrest⟩
        exact ⟨b :: bs, ⟨b, bs, hb, hbs, rfl⟩, .cons hab hrest⟩

theorem mapM_append_eq_ok_iff {as as' : List α} {bs : List β} :
    (as ++ as').mapM f = .ok bs ↔
      ∃ bs₁ bs₂, as.mapM f = .ok bs₁ ∧ as'.mapM f = .ok bs₂ ∧ bs = bs₁ ++ bs₂ := by
  induction as generalizing bs with
  | nil => simp [pure, Except.pure]
  | cons a as ih =>
      simp only [List.cons_append, mapM_cons_eq_ok, ih]
      constructor
      · rintro ⟨b, _, hb, ⟨bs₁, bs₂, h₁, h₂, rfl⟩, rfl⟩
        exact ⟨b :: bs₁, bs₂, ⟨b, bs₁, hb, h₁, rfl⟩, h₂, rfl⟩
      · rintro ⟨_, bs₂, ⟨b, bs₁, hb, h₁, rfl⟩, h₂, rfl⟩
        exact ⟨b, bs₁ ++ bs₂, hb, ⟨bs₁, bs₂, h₁, h₂, rfl⟩, rfl⟩

/-- The map depends on the values at the entries only. -/
theorem mapM_congr {g : α → Except ε β} {as : List α} (h : ∀ a ∈ as, f a = g a) :
    as.mapM f = as.mapM g := by
  induction as with
  | nil => rfl
  | cons a as ih =>
      obtain ⟨ha, has⟩ := List.forall_mem_cons.mp h
      rw [List.mapM_cons, List.mapM_cons, ha, ih has]

/-- A map over the entries, by their indices. -/
theorem mapM_range_length {as : List α} {g : ℕ → Except ε β}
    (h : ∀ i a, as[i]? = some a → g i = f a) : (List.range as.length).mapM g = as.mapM f := by
  induction as generalizing g with
  | nil => rfl
  | cons a as ih =>
      have hrest : (List.range as.length).mapM (g ∘ Nat.succ) = as.mapM f :=
        ih fun i a' hi => h (i + 1) a' hi
      rw [List.length_cons, List.range_succ_eq_map, List.mapM_cons, List.mapM_cons, h 0 a rfl,
        List.mapM_map, hrest]

end SglangRs
