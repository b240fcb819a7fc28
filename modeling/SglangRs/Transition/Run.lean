import Mathlib.Data.List.Basic

/-!
# Runs of a step function

A deterministic system is a step function `step : σ → α → σ`, an input of type `α` being consumed
at every step, and its runs are the left folds of `step` over lists of inputs. Loops over a list
are runs of their body in the same sense. This file provides the induction principles for such
runs: `Along step P s as` says that every step of the run over `as` from `s` starts in a state
that satisfies `P` together with its input, and `foldl_invariant` carries an invariant along such a
run.

## Main definitions

* `Transition.Along`: a condition on the state and the input before every step of a run.
* `Transition.emitted`: what the steps of a run emit, in order.

## Main results

* `Transition.foldl_invariant`: a property kept by every step that meets the condition holds at
  the end of the run.
* `Transition.along_append`: a run in two parts.
* `Transition.along_of_forall`: a condition met in every state is met along every run.
* `Transition.exists_first`: a run that does not meet a condition throughout has a first step that
  does not meet it.
* `Transition.emitted_append`, `Transition.exists_emitting`: what a run in two parts emits, and the
  step that emits a given entry.
* `Transition.view_foldl`: a part of the state that only some inputs touch is the run of those.
-/

namespace Transition

variable {σ α : Type} {step : σ → α → σ} {P Q : σ → α → Prop} {I : σ → Prop}

/-- Every step of the run over `as` from `s` meets the condition `P` on the state before the step
and its input. -/
def Along (step : σ → α → σ) (P : σ → α → Prop) : σ → List α → Prop
  | _, [] => True
  | s, a :: as => P s a ∧ Along step P (step s a) as

instance decidableAlong [∀ s a, Decidable (P s a)] : (s : σ) → (as : List α) →
    Decidable (Along step P s as)
  | _, [] => isTrue trivial
  | s, a :: as =>
      have := decidableAlong (step s a) as
      inferInstanceAs (Decidable (P s a ∧ Along step P (step s a) as))

/-- What the steps of the run over `as` from `s` emit, in order. -/
def emitted {β : Type} (step : σ → α → σ) (f : σ → α → List β) : σ → List α → List β
  | _, [] => []
  | s, a :: as => f s a ++ emitted step f (step s a) as

@[simp] theorem along_nil (s : σ) : Along step P s [] := trivial

@[simp] theorem along_cons (s : σ) (a : α) (as : List α) :
    Along step P s (a :: as) ↔ P s a ∧ Along step P (step s a) as :=
  Iff.rfl

theorem along_append (s : σ) (as bs : List α) :
    Along step P s (as ++ bs) ↔ Along step P s as ∧ Along step P (as.foldl step s) bs := by
  induction as generalizing s with
  | nil => simp
  | cons a as ih => simp [ih, and_assoc]

theorem along_of_forall_mem {as : List α} (h : ∀ a ∈ as, ∀ s, P s a) (s : σ) :
    Along step P s as := by
  induction as generalizing s with
  | nil => trivial
  | cons a as ih =>
    exact ⟨h a List.mem_cons_self s, ih (fun b hb => h b (List.mem_cons_of_mem _ hb)) _⟩

theorem along_of_forall (h : ∀ s a, P s a) (s : σ) (as : List α) : Along step P s as :=
  along_of_forall_mem (fun a _ s => h s a) s

theorem Along.imp (h : ∀ s a, P s a → Q s a) {s : σ} {as : List α} (hP : Along step P s as) :
    Along step Q s as := by
  induction as generalizing s with
  | nil => trivial
  | cons a as ih => exact ⟨h s a hP.1, ih hP.2⟩

/-- Two conditions met along the same run. -/
theorem Along.and {s : σ} {as : List α} (hP : Along step P s as) (hQ : Along step Q s as) :
    Along step (fun s a => P s a ∧ Q s a) s as := by
  induction as generalizing s with
  | nil => trivial
  | cons a as ih => exact ⟨⟨hP.1, hQ.1⟩, ih hP.2 hQ.2⟩

/-- **Invariants of runs.** A property kept by every step that meets the condition `P` holds after
a run all of whose steps meet it. -/
theorem foldl_invariant (hstep : ∀ s a, P s a → I s → I (step s a)) {s : σ} {as : List α}
    (hP : Along step P s as) (hs : I s) : I (as.foldl step s) := by
  induction as generalizing s with
  | nil => exact hs
  | cons a as ih => exact ih hP.2 (hstep s a hP.1 hs)

/-- The invariant also holds before every step of the run. -/
theorem Along.and_invariant (hstep : ∀ s a, P s a → I s → I (step s a)) {s : σ} {as : List α}
    (hP : Along step P s as) (hs : I s) : Along step (fun s a => P s a ∧ I s) s as := by
  induction as generalizing s with
  | nil => trivial
  | cons a as ih => exact ⟨⟨hP.1, hs⟩, ih hP.2 (hstep s a hP.1 hs)⟩

/-- A run that does not meet a condition throughout has a first step that does not meet it. -/
theorem exists_first {s : σ} {as : List α} (h : ¬ Along step P s as) :
    ∃ before a after, as = before ++ a :: after ∧ Along step P s before ∧
      ¬ P (before.foldl step s) a := by
  induction as generalizing s with
  | nil => exact absurd trivial h
  | cons a as ih =>
      by_cases ha : P s a
      · obtain ⟨before, b, after, rfl, hbefore, hb⟩ := ih fun hrest => h ⟨ha, hrest⟩
        exact ⟨a :: before, b, after, rfl, ⟨ha, hbefore⟩, hb⟩
      · exact ⟨[], a, as, rfl, trivial, ha⟩

/-- What a run in two parts emits. -/
theorem emitted_append {β : Type} (f : σ → α → List β) (s : σ) (as bs : List α) :
    emitted step f s (as ++ bs) = emitted step f s as ++ emitted step f (as.foldl step s) bs := by
  induction as generalizing s with
  | nil => rfl
  | cons a as ih => rw [List.cons_append, emitted, ih, emitted, List.foldl_cons, List.append_assoc]

/-- The step of a run that emits a given entry. -/
theorem exists_emitting {β : Type} {f : σ → α → List β} {s : σ} {as : List α}
    {before after : List β}
    {b : β} (h : emitted step f s as = before ++ b :: after) :
    ∃ as₁ a as₂ here rest, as = as₁ ++ a :: as₂ ∧ f (as₁.foldl step s) a = here ++ b :: rest ∧
      emitted step f s as₁ ++ here = before := by
  induction as generalizing s before with
  | nil => simp [emitted] at h
  | cons a as ih =>
      obtain ⟨more, rfl, hlater⟩ | ⟨more, hnow, hrest⟩ := List.append_eq_append_iff.1 h
      · obtain ⟨as₁, a', as₂, here, rest, rfl, hemits, rfl⟩ := ih hlater
        exact ⟨a :: as₁, a', as₂, here, rest, rfl, hemits, by simp [emitted]⟩
      · cases more with
        | nil =>
            obtain ⟨as₁, a', as₂, here, rest, rfl, hemits, hnil⟩ :=
              ih (show emitted step f (step s a) as = [] ++ b :: after from hrest.symm)
            exact ⟨a :: as₁, a', as₂, here, rest, rfl, hemits, by simp [emitted, hnil, hnow]⟩
        | cons b' more =>
            obtain ⟨rfl, -⟩ := List.cons.inj hrest
            exact ⟨[], a, as, before, more, rfl, hnow, rfl⟩

/-- A part of the state that the inputs outside `p` leave alone, and that the others change in a way
that depends on that part only, is given by the run over the inputs in `p`. -/
theorem view_foldl {τ : Type} (view : σ → τ) {g : τ → α → τ} {p : α → Bool}
    (hskip : ∀ s a, p a = false → view (step s a) = view s)
    (hstep : ∀ s a, p a = true → view (step s a) = g (view s) a) (s : σ) (as : List α) :
    view (as.foldl step s) = (as.filter p).foldl g (view s) := by
  induction as generalizing s with
  | nil => rfl
  | cons a as ih =>
      rw [List.foldl_cons, ih]
      by_cases ha : p a = true
      · rw [List.filter_cons_of_pos ha, List.foldl_cons, hstep s a ha]
      · rw [List.filter_cons_of_neg ha, hskip s a (Bool.eq_false_iff.2 ha)]

end Transition
