import SglangRs.Model.DenseDecoder
import SglangRs.Runner.Padding

/-!
# Forwarding a batch token by token

The CPU reference forwards the requests of a batch one after the other, and the tokens of a request
in their order, each with a position and a slot (`cpu_reference.rs`, lines 192–242). The logits of a
request are those of its last token. A failure ends the whole batch, and what was written until then
stays written.

If the tokens are the steps of a causal network, the logits of a request are what the network outputs
for the last position of its sequence, as long as the slots of the earlier positions hold their
entries. The slots written are those of the request alone.

## Main definitions

* `forwardTokens`, `forwardRequests`, `forwardBatch`: the loops.
* `CausalModel`: a model whose tokens are the steps of a causal network.
* `CausalModel.Holds`: the slots of a sequence hold the entries of its first positions.

## Main results

* `CausalModel.token_spec`: what forwarding one token of a sequence does.
* `CausalModel.forwardTokens_spec`: what forwarding some tokens does.
-/

namespace SglangRs

/-- Source: `cpu_reference.rs`, lines 967–969. -/
def modelForwardError (error : CpuReferenceDenseDecoderError) : ModelForwardError :=
  .runtime error.display

section Loops

variable {M L : Type}
  (token : M → UInt32 → ℕ → ℕ → List ℕ → M × Except CpuReferenceDenseDecoderError (List L))

/-- The loop over the tokens of a request, each with its position and its slot. -/
def forwardTokens (sequenceSlots : List ℕ) : List (UInt32 × ℕ × ℕ) → Option (List L) → M →
    M × Except CpuReferenceDenseDecoderError (Option (List L))
  | [], logits, m => (m, .ok logits)
  | (tokenId, position, outputSlot) :: inputs, _, m =>
      match token m tokenId position outputSlot sequenceSlots with
      | (m, .error error) => (m, .error error)
      | (m, .ok logits) => forwardTokens sequenceSlots inputs (some logits) m

/-- The body of the loop over the requests. -/
def forwardRequest (requestIndex : ℕ) (row : WorkerRow) (m : M) :
    M × Except ModelForwardError (List L) :=
  match forwardTokens token row.sequenceCachePages
    (row.inputIds.zip (row.positions.zip row.outCachePages)) none m with
  | (m, .error error) => (m, .error (modelForwardError error))
  | (m, .ok none) =>
      (m, .error (.runtime s!"dense decoder request {requestIndex} has no input tokens"))
  | (m, .ok (some logits)) => (m, .ok logits)

/-- The loop over the requests, from the number `requestIndex` on. -/
def forwardRequests : ℕ → List WorkerRow → M → M × Except ModelForwardError (List (List L))
  | _, [], m => (m, .ok [])
  | requestIndex, row :: rows, m =>
      match forwardRequest token requestIndex row m with
      | (m, .error error) => (m, .error error)
      | (m, .ok logits) =>
          match forwardRequests (requestIndex + 1) rows m with
          | (m, .error error) => (m, .error error)
          | (m, .ok rest) => (m, .ok (logits :: rest))

/-- Source: `cpu_reference.rs`, lines 200–235. -/
def forwardBatch (batch : ModelWorkerBatch) (m : M) :
    M × Except ModelForwardError (ModelForwardOutput L) :=
  match validateModelWorkerBatch batch with
  | .error error => (m, .error (modelForwardError (.execution error.display)))
  | .ok () =>
      match forwardRequests token 0 batch.rows m with
      | (m, .error error) => (m, .error error)
      | (m, .ok logits) => (m, ModelForwardOutput.new logits)

end Loops

/-! ### Models that are causal networks -/

/-- A model whose tokens are the steps of a causal network. The memory has a cell for every layer
below `depth` and every slot below `slotCount`. -/
structure CausalModel (M X Q E L : Type) where
  token : M → UInt32 → ℕ → ℕ → List ℕ → M × Except CpuReferenceDenseDecoderError (List L)
  network : Causal.Network CpuReferenceDenseDecoderError UInt32 X Q E (List L)
  memory : Causal.Memory CpuReferenceDenseDecoderError M ℕ E
  Valid : M → Prop
  Fits : E → Prop
  depth : ℕ
  slotCount : ℕ
  lawful : memory.Lawful Valid depth (· < slotCount) Fits
  length_layers_le : network.layers.length ≤ depth
  fits : ∀ layer ∈ network.layers, ∀ position x query entry,
    layer.prepare position x = .ok (query, entry) → Fits entry
  token_eq_step : ∀ m tokenId position slot (slots : List ℕ), Valid m →
    (∀ s ∈ slots, s < slotCount) → slots[position]? = some slot →
      token m tokenId position slot slots =
        network.step memory position tokenId slot (slots.take (position + 1)) m
  token_of_mismatch : ∀ m tokenId position slot (slots : List ℕ), slots[position]? ≠ some slot →
    ∃ error, token m tokenId position slot slots = (m, .error error)

namespace CausalModel

variable {M X Q E L : Type} (C : CausalModel M X Q E L)

/-- The slot `s` holds the entries of the position `i`. -/
def Holds (m : M) (tokens : ℕ → UInt32) (i s : ℕ) : Prop :=
  C.network.Holds C.memory m tokens i s

/-- The slots of a sequence hold the entries of its first `n` positions. -/
def HoldsFirst (m : M) (tokens : ℕ → UInt32) (n : ℕ) (slots : List ℕ) : Prop :=
  ∀ i < n, ∃ s, slots[i]? = some s ∧ C.Holds m tokens i s

/-- The cells of a slot are the same. -/
def Agrees (m m' : M) (s : ℕ) : Prop :=
  ∀ layer < C.depth, C.memory.read m' layer s = C.memory.read m layer s

/-- The tokens from the position `a` on, each with its position and a slot. -/
def inputsFrom (tokens : ℕ → UInt32) : ℕ → List ℕ → List (UInt32 × ℕ × ℕ)
  | _, [] => []
  | a, s :: slots => (tokens a, a, s) :: inputsFrom tokens (a + 1) slots

/-- The slots `out` to be written are those that a sequence has from the position `a` on. -/
def Aligned (a : ℕ) (out sequenceSlots : List ℕ) : Prop :=
  ∀ (j s : ℕ), out[j]? = some s → sequenceSlots[a + j]? = some s

/-- What forwarding the tokens from the position `a` on does. -/
structure Forwards (tokens : ℕ → UInt32) (sequenceSlots : List ℕ) (a : ℕ) (out : List ℕ) (m : M)
    (after : M × Except CpuReferenceDenseDecoderError (Option (List L))) : Prop where
  valid : C.Valid after.1
  agrees : ∀ s < C.slotCount, s ∉ out → C.Agrees m after.1 s
  replay : ∀ x, out = [x] → C.Holds m tokens a x → ∀ s < C.slotCount, C.Agrees m after.1 s
  ok_iff : (∃ logits, after.2 = .ok logits) ↔ Aligned a out sequenceSlots ∧
    ∀ j < out.length, ∃ logits, C.network.output tokens (a + j) = .ok logits
  held : ∀ logits, after.2 = .ok logits →
    C.HoldsFirst after.1 tokens (a + out.length) sequenceSlots
  last : ∀ logits, after.2 = .ok logits → out ≠ [] →
    ∃ row, logits = some row ∧ C.network.output tokens (a + out.length - 1) = .ok row

variable {C} {m m' : M} {tokens tokens' : ℕ → UInt32} {slots out : List ℕ} {n a s : ℕ}

theorem Agrees.refl (m : M) (s : ℕ) : C.Agrees m m s := fun _ _ => rfl

theorem Agrees.trans {m'' : M} (h : C.Agrees m m' s) (h' : C.Agrees m' m'' s) :
    C.Agrees m m'' s :=
  fun layer hlayer => (h' layer hlayer).trans (h layer hlayer)

theorem Holds.of_agrees {i : ℕ} (h : C.Holds m tokens i s) (hagrees : C.Agrees m m' s) :
    C.Holds m' tokens i s :=
  Causal.Network.Holds.of_read C.length_layers_le hagrees h

theorem holds_congr {i : ℕ} (h : ∀ j ≤ i, tokens j = tokens' j) :
    C.Holds m tokens i s ↔ C.Holds m tokens' i s :=
  Causal.Network.holds_congr h

theorem HoldsFirst.of_agrees (h : C.HoldsFirst m tokens n slots)
    (hagrees : ∀ s ∈ slots.take n, C.Agrees m m' s) : C.HoldsFirst m' tokens n slots := by
  intro i hi
  obtain ⟨s, hs, hholds⟩ := h i hi
  refine ⟨s, hs, hholds.of_agrees (hagrees s ?_)⟩
  exact List.mem_of_getElem? ((List.getElem?_take_of_lt hi).trans hs)

theorem aligned_cons {x : ℕ} :
    Aligned a (x :: out) slots ↔ slots[a]? = some x ∧ Aligned (a + 1) out slots := by
  constructor
  · intro h
    refine ⟨h 0 x rfl, fun j s hj => ?_⟩
    rw [Nat.add_right_comm, Nat.add_assoc]
    exact h (j + 1) s hj
  · rintro ⟨hhead, htail⟩ (_ | j) s hj
    · exact Option.some.inj hj ▸ hhead
    · have hs := htail j s hj
      rwa [Nat.add_right_comm, Nat.add_assoc] at hs

/-- **What forwarding one token of a sequence does**, if the slots of the earlier positions hold
their entries. -/
theorem token_spec {x : ℕ} (hvalid : C.Valid m) (hslots : ∀ s ∈ slots, s < C.slotCount)
    (hslot : slots[a]? = some x) (hheld : C.HoldsFirst m tokens a slots)
    (hfresh : x ∉ slots.take a ∨ C.Holds m tokens a x) :
    ∃ m', C.token m (tokens a) a x slots = (m', C.network.output tokens a) ∧ C.Valid m' ∧
      (∀ s < C.slotCount, s ≠ x → C.Agrees m m' s) ∧
      (C.Holds m tokens a x → ∀ s < C.slotCount, C.Agrees m m' s) ∧
      ∀ row, C.network.output tokens a = .ok row → C.HoldsFirst m' tokens (a + 1) slots := by
  obtain ⟨ha, -⟩ := List.getElem?_eq_some_iff.mp hslot
  have hearlier (s : ℕ) (hs : s ∈ slots.take a) : s < C.slotCount :=
    hslots s (List.mem_of_mem_take hs)
  have hlen : (slots.take a).length = a := List.length_take_of_le ha.le
  have hread (i s : ℕ) (hi : (slots.take a)[i]? = some s) : C.Holds m tokens i s := by
    have hia := hlen ▸ (List.getElem?_eq_some_iff.mp hi).1
    obtain ⟨s', hs', hholds⟩ := hheld i hia
    rw [List.getElem?_take_of_lt hia, hs'] at hi
    exact Option.some.inj hi ▸ hholds
  have hfresh' : x ∉ slots.take a ∨ C.Holds m tokens (slots.take a).length x := by
    rwa [hlen]
  have hstep := C.network.step_spec C.lawful C.length_layers_le hvalid
    (hslots x (List.mem_of_getElem? hslot)) hearlier
    (fun layer hlayer y query entry => C.fits layer hlayer _ y query entry) hread hfresh'
  have htake : slots.take (a + 1) = slots.take a ++ [x] := by
    rw [List.take_add_one, hslot]
    rfl
  rw [C.token_eq_step m (tokens a) a x slots hvalid hslots hslot, htake]
  rw [hlen] at hstep
  have hagrees (s : ℕ) (hs : s < C.slotCount) (hne : s ≠ x) := fun layer hlayer =>
    hstep.read (ℓ := layer) hlayer hs hne
  have hsame (h : C.Holds m tokens a x) (s : ℕ) (hs : s < C.slotCount) := fun layer hlayer =>
    hstep.replay (ℓ := layer) h hlayer hs
  refine ⟨_, Prod.ext rfl hstep.result, hstep.valid, hagrees, hsame, fun row hrow i hi => ?_⟩
  obtain hi | rfl := Nat.lt_succ_iff_lt_or_eq.mp hi
  · -- what the earlier positions have is not written over, unless by itself
    refine hheld.of_agrees (fun s hs => ?_) i hi
    by_cases hne : s = x
    · exact hsame (hfresh.resolve_left (not_not.mpr (hne ▸ hs))) s (hearlier s hs)
    · exact hagrees s (hearlier s hs) hne
  · exact ⟨x, hslot, hstep.holds (hstep.result.trans hrow)⟩

/-- **What forwarding some tokens of a sequence does**, if the slots of the earlier positions hold
their entries. No slot is written twice, and no slot of an earlier position is written, unless a
single token is replayed. -/
theorem forwardTokens_spec (hvalid : C.Valid m) (hslots : ∀ s ∈ slots, s < C.slotCount)
    (hheld : C.HoldsFirst m tokens a slots)
    (hfresh : (out.Nodup ∧ ∀ x ∈ out, x ∉ slots.take a) ∨
      ∃ x, out = [x] ∧ C.Holds m tokens a x) (start : Option (List L)) :
    C.Forwards tokens slots a out m
      (forwardTokens C.token slots (inputsFrom tokens a out) start m) := by
  induction out generalizing a m start with
  | nil =>
      refine ⟨hvalid, fun s _ _ => .refl m s, nofun, ?_, fun _ _ => hheld,
        fun _ _ h => absurd rfl h⟩
      exact ⟨fun _ => ⟨fun j s h => absurd h (by simp), fun j h => absurd h j.not_lt_zero⟩,
        fun _ => ⟨start, rfl⟩⟩
  | cons x out ih =>
      rw [inputsFrom, forwardTokens]
      by_cases hslot : slots[a]? = some x
      case neg =>
        obtain ⟨error, htoken⟩ := C.token_of_mismatch m (tokens a) a x slots hslot
        rw [htoken]
        refine ⟨hvalid, fun s _ _ => .refl m s, fun _ _ _ s _ => .refl m s, ?_, nofun, nofun⟩
        rw [aligned_cons]
        exact ⟨nofun, fun h => absurd h.1.1 hslot⟩
      have hfresh' : x ∉ slots.take a ∨ C.Holds m tokens a x := by
        obtain ⟨-, h⟩ | ⟨y, hy, h⟩ := hfresh
        · exact .inl (h x List.mem_cons_self)
        · exact .inr ((List.cons.inj hy).1 ▸ h)
      obtain ⟨m', htoken, hvalid', hagrees, hsame, hheld'⟩ :=
        token_spec hvalid hslots hslot hheld hfresh'
      rw [htoken]
      cases hrow : C.network.output tokens a with
      | error error =>
          refine ⟨hvalid', fun s hs hne => hagrees s hs fun h => hne (h ▸ List.mem_cons_self),
            fun y hy h => hsame ((List.cons.inj hy).1 ▸ h), ⟨nofun, fun h => ?_⟩, nofun, nofun⟩
          obtain ⟨logits, hlogits⟩ := h.2 0 (Nat.succ_pos _)
          exact nomatch hlogits.symm.trans hrow
      | ok row =>
          have hnodup : out.Nodup ∧ ∀ y ∈ out, y ∉ slots.take (a + 1) := by
            obtain ⟨hnodup, h⟩ | ⟨y, hy, -⟩ := hfresh
            · obtain ⟨hx, hnodup⟩ := List.nodup_cons.mp hnodup
              refine ⟨hnodup, fun y hy => ?_⟩
              rw [List.take_add_one, hslot, Option.toList_some, List.mem_append,
                List.mem_singleton, not_or]
              exact ⟨h y (List.mem_cons_of_mem _ hy), fun heq => hx (heq ▸ hy)⟩
            · rw [(List.cons.inj hy).2]
              exact ⟨List.nodup_nil, nofun⟩
          have hrest := ih hvalid' (hheld' row hrow) (.inl hnodup) (some row)
          have hlen : a + (x :: out).length = a + 1 + out.length := by
            rw [List.length_cons, Nat.add_right_comm, Nat.add_assoc]
          refine ⟨hrest.valid, fun s hs hne => ?_, fun y hy h s hs => ?_, ?_,
            fun logits h => hlen ▸ hrest.held logits h, fun logits h _ => ?_⟩
          · rw [List.mem_cons, not_or] at hne
            exact (hagrees s hs hne.1).trans (hrest.agrees s hs hne.2)
          · obtain ⟨rfl, rfl⟩ := List.cons.inj hy
            exact hsame h s hs
          · rw [hrest.ok_iff, aligned_cons, List.length_cons, Nat.forall_lt_succ_left]
            simp only [hslot, true_and, Nat.add_zero, hrow, Nat.add_assoc, Nat.add_comm 1,
              Except.ok.injEq, exists_eq']
          · cases out with
            | nil => exact ⟨row, (Except.ok.inj h).symm, hrow⟩
            | cons y out =>
                rw [hlen]
                exact hrest.last logits h (List.cons_ne_nil y out)

end CausalModel

end SglangRs
