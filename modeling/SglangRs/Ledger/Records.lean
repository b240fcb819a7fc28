import SglangRs.Ledger.Histories

/-!
# Ledgers of tokens

The outputs of a stream carry tokens, and the tokens of a history are those of its outputs, one
after the other. The submissions in progress are known with the tokens so far. A record is a ledger
in which these are the open histories, and in which every history, open or closed, is valid. A
record grows by submissions and outputs, and submissions in progress may be dropped.

## Main definitions

* `Ledger.History.content`: the tokens of a history.
* `Ledger.Recorded`: there is a ledger of valid histories.

## Main results

* `Ledger.Recorded.submit`, `Ledger.Recorded.output`, `Ledger.Recorded.drop`: how a record goes on.
-/

namespace Ledger

variable {K O T : Type} {tokens : O → List T} {Valid : History K O → Prop}
  {live live' : Multiset (K × List T)} {submitted : Multiset K} {returned : List O} {key : K}
  {before : List T} {o : O}

/-- The tokens of the outputs of a history. -/
def History.content (tokens : O → List T) (h : History K O) : List T := h.outputs.flatMap tokens

@[simp] theorem History.content_nil : (⟨key, []⟩ : History K O).content tokens = [] := rfl

theorem History.content_append (outputs : List O) :
    (⟨key, outputs ++ [o]⟩ : History K O).content tokens =
      (⟨key, outputs⟩ : History K O).content tokens ++ tokens o := by
  simp [History.content]

/-- There is a ledger of valid histories, in which the open histories are those of the submissions
in progress, with the tokens so far. -/
def Recorded (tokens : O → List T) (Valid : History K O → Prop) (live : Multiset (K × List T))
    (submitted : Multiset K) (returned : List O) : Prop :=
  ∃ opened closed, Divides (opened + closed) submitted returned ∧
    opened.map (fun h => (h.key, h.content tokens)) = live ∧ ∀ h ∈ opened + closed, Valid h

namespace Recorded

theorem empty : Recorded tokens Valid 0 0 [] :=
  ⟨0, 0, by simpa using Divides.empty, rfl, by simp⟩

/-- A submission in progress has a valid history. -/
theorem exists_history (h : Recorded tokens Valid live submitted returned)
    (hlive : (key, before) ∈ live) : ∃ h : History K O, h.key = key ∧ h.content tokens = before ∧
      Valid h := by
  obtain ⟨opened, closed, -, rfl, hvalid⟩ := h
  obtain ⟨x, hx, heq⟩ := Multiset.mem_map.mp hlive
  obtain ⟨rfl, rfl⟩ := Prod.mk.inj heq
  exact ⟨x, rfl, rfl, hvalid x (Multiset.mem_add.mpr (.inl hx))⟩

/-- Every history is valid. -/
theorem divides (h : Recorded tokens Valid live submitted returned) :
    ∃ histories, Divides histories submitted returned ∧ ∀ h ∈ histories, Valid h := by
  obtain ⟨opened, closed, hdivides, -, hvalid⟩ := h
  exact ⟨_, hdivides, hvalid⟩

/-- **A submission.** -/
theorem submit (h : Recorded tokens Valid live submitted returned) (hvalid : Valid ⟨key, []⟩) :
    Recorded tokens Valid ((key, []) ::ₘ live) (key ::ₘ submitted) returned := by
  obtain ⟨opened, closed, hdivides, rfl, hall⟩ := h
  refine ⟨⟨key, []⟩ ::ₘ opened, closed, ?_, by simp, ?_⟩
  · rw [Multiset.cons_add]
    exact hdivides.submit key
  · rw [Multiset.cons_add]
    exact Multiset.forall_mem_cons.mpr ⟨hvalid, hall⟩

theorem drop_one (h : Recorded tokens Valid ((key, before) ::ₘ live) submitted returned) :
    Recorded tokens Valid live submitted returned := by
  obtain ⟨opened, closed, hdivides, hlive, hall⟩ := h
  obtain ⟨x, opened, rfl, -, rfl⟩ := exists_cons_of_map_eq hlive
  rw [Multiset.cons_add, ← Multiset.add_cons] at hdivides hall
  exact ⟨opened, x ::ₘ closed, hdivides, rfl, hall⟩

/-- **Submissions in progress are dropped.** -/
theorem drop (h : Recorded tokens Valid live submitted returned) (hle : live' ≤ live) :
    Recorded tokens Valid live' submitted returned := by
  obtain ⟨dropped, rfl⟩ := Multiset.le_iff_exists_add.mp hle
  induction dropped using Multiset.induction with
  | empty => rwa [add_zero] at h
  | cons account dropped ih =>
      rw [Multiset.add_cons] at h
      exact ih (drop_one h) (Multiset.le_add_right _ _)

/-- **An output.** -/
theorem output (h : Recorded tokens Valid ((key, before) ::ₘ live) submitted returned)
    (hvalid : ∀ outputs, (⟨key, outputs⟩ : History K O).content tokens = before →
      Valid ⟨key, outputs⟩ → Valid ⟨key, outputs ++ [o]⟩) :
    Recorded tokens Valid ((key, before ++ tokens o) ::ₘ live) submitted (returned ++ [o]) := by
  obtain ⟨opened, closed, hdivides, hlive, hall⟩ := h
  obtain ⟨⟨key', outputs⟩, opened, rfl, heq, rfl⟩ := exists_cons_of_map_eq hlive
  obtain ⟨rfl : key' = key, rfl⟩ := Prod.mk.inj heq
  rw [Multiset.cons_add] at hdivides hall
  obtain ⟨hfirst, hrest⟩ := Multiset.forall_mem_cons.mp hall
  refine ⟨⟨key', outputs ++ [o]⟩ ::ₘ opened, closed, ?_, ?_, ?_⟩
  · rw [Multiset.cons_add]
    exact hdivides.output o
  · rw [Multiset.map_cons, History.content_append]
  · rw [Multiset.cons_add]
    exact Multiset.forall_mem_cons.mpr ⟨hvalid outputs rfl hfirst, hrest⟩

end Recorded

end Ledger
