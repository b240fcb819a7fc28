import Mathlib.Data.Multiset.Bind

/-!
# Ledgers of outputs

A service takes submissions and returns a stream of outputs, each on behalf of one submission. A
ledger divides the stream into one history for each submission, so that every output of the stream
stands in exactly one history and the order of a history is that of the stream. Submissions need not
be distinct, hence the multisets.

## Main definitions

* `Ledger.History`: a submission with the outputs returned on its behalf.
* `Ledger.Divides`: histories that divide a stream of outputs among the submissions.

## Main results

* `Ledger.Divides.submit`, `Ledger.Divides.output`: the two ways a ledger grows.
-/

namespace Ledger

variable {K O : Type}

/-- A submission with the outputs returned on its behalf. -/
structure History (K O : Type) where
  key : K
  outputs : List O

/-- The histories divide the stream `returned` among the submissions `submitted`. -/
structure Divides (histories : Multiset (History K O)) (submitted : Multiset K)
    (returned : List O) : Prop where
  submitted_eq : histories.map History.key = submitted
  returned_eq : histories.bind (fun h => (h.outputs : Multiset O)) = returned
  ordered : ∀ h ∈ histories, h.outputs.Sublist returned

/-- If the images of a multiset contain `b`, it contains a preimage. -/
theorem exists_cons_of_map_eq {α β : Type} {f : α → β} {s : Multiset α} {t : Multiset β} {b : β}
    (h : s.map f = b ::ₘ t) : ∃ a s', s = a ::ₘ s' ∧ f a = b ∧ s'.map f = t := by
  classical
  obtain ⟨a, ha, hb, ht⟩ := (Multiset.map_eq_cons f s t b).mpr h
  exact ⟨a, s.erase a, (Multiset.cons_erase ha).symm, hb, ht⟩

namespace Divides

variable {histories : Multiset (History K O)} {submitted : Multiset K} {returned : List O}

theorem empty : Divides (0 : Multiset (History K O)) 0 [] := ⟨rfl, rfl, by simp⟩

/-- A submission starts with an empty history. -/
theorem submit (h : Divides histories submitted returned) (key : K) :
    Divides (⟨key, []⟩ ::ₘ histories) (key ::ₘ submitted) returned where
  submitted_eq := by simp [h.submitted_eq]
  returned_eq := by simp [h.returned_eq]
  ordered := by
    rw [Multiset.forall_mem_cons]
    exact ⟨List.nil_sublist _, h.ordered⟩

/-- An output ends the history of its submission and the stream. -/
theorem output {key : K} {outputs : List O}
    (h : Divides (⟨key, outputs⟩ ::ₘ histories) submitted returned) (o : O) :
    Divides (⟨key, outputs ++ [o]⟩ ::ₘ histories) submitted (returned ++ [o]) where
  submitted_eq := by
    rw [← h.submitted_eq]
    simp
  returned_eq := by
    have heq := h.returned_eq
    rw [Multiset.cons_bind] at heq ⊢
    rw [← Multiset.coe_add, ← Multiset.coe_add, ← heq]
    exact add_right_comm _ _ _
  ordered := by
    obtain ⟨hfirst, hrest⟩ := Multiset.forall_mem_cons.mp h.ordered
    refine Multiset.forall_mem_cons.mpr ⟨hfirst.append_right [o], fun x hx => ?_⟩
    exact (hrest x hx).trans (List.sublist_append_left _ _)

end Divides

end Ledger
