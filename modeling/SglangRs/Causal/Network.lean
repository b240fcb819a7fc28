import Mathlib.Algebra.Order.Ring.Nat
import Mathlib.Data.List.Basic
import SglangRs.Arithmetic.Checked
import SglangRs.Collections.FallibleMap

/-!
# Causal networks and their memories

A causal network computes, layer after layer, a state for every position of a sequence. A layer
derives from the state at a position a query and an entry; the state that it passes on depends on the
query and on the entries of all positions up to it.

The entries of earlier positions need not be computed again if they are kept in a memory, which has a
cell for every layer and slot. Then a network computes one position at a time, from the cells of the
slots that the earlier positions were given. `Network.step_spec` says that this is the same as
computing the position from scratch, as long as these cells hold the entries of the sequence; where
they do is the predicate `Network.Holds`. Which slots are used is of no importance, and the slots of
a common beginning may be shared between sequences.

Everything may fail, and a step that fails may have written some cells before.

## Main definitions

* `Causal.Layer`, `Causal.Network`: the layers, and what is in front of and behind them.
* `Causal.Layer.run`, `Causal.Network.output`: computing from scratch.
* `Causal.Memory`, `Causal.Memory.Lawful`: a memory that returns what was written last.
* `Causal.Network.step`: computing one position.
* `Causal.Network.Holds`: a slot holds the entries of a position in all layers.

## Main results

* `Causal.Network.output_congr`, `Causal.Network.holds_congr`: later tokens are of no importance.
* `Causal.Network.step_spec`: a step computes the output of the position and leaves its entries in
  the slot.
* `Causal.Network.Holds.of_read`: a slot holds what its cells say.
-/

namespace Causal

open SglangRs

universe u v w

/-- A layer of a causal network: what a position contributes, and the state it passes on. -/
structure Layer (ε X Q E : Type*) where
  prepare : ℕ → X → Except ε (Q × E)
  combine : ℕ → X → Q → List E → Except ε X

/-- A causal network: the states of the tokens, the layers, and the output for a state. -/
structure Network (ε T X Q E Y : Type*) where
  embed : ℕ → T → Except ε X
  layers : List (Layer ε X Q E)
  head : X → Except ε Y

/-- A memory with a cell for every layer and slot. -/
structure Memory (ε M S E : Type*) where
  write : M → ℕ → S → E → Except ε M
  read : M → ℕ → S → Except ε E

variable {ε T X Q E Y M S : Type}

/-! ### Computing from scratch -/

namespace Layer

variable (L : Layer ε X Q E) (input : ℕ → Except ε X) (p : ℕ)

/-- The query and the entry of a position. -/
def contribution : Except ε (Q × E) := do
  let x ← input p
  L.prepare p x

/-- The state that a layer passes on, from the states of all positions. -/
def run : Except ε X := do
  let x ← input p
  let (query, entry) ← L.prepare p x
  let earlier ← (List.range p).mapM fun i => Prod.snd <$> L.contribution input i
  L.combine p x query (earlier ++ [entry])

end Layer

/-- The states behind some layers. -/
def runLayers : List (Layer ε X Q E) → (ℕ → Except ε X) → ℕ → Except ε X
  | [], input => input
  | L :: layers, input => runLayers layers (L.run input)

namespace Network

variable (N : Network ε T X Q E Y) (tokens : ℕ → T) (p : ℕ)

/-- The states in front of the layers. -/
def input : Except ε X := N.embed p (tokens p)

/-- The output for a position, from scratch. -/
def output : Except ε Y := do
  let y ← runLayers N.layers (N.input tokens) p
  N.head y

end Network

/-! ### Computing one position -/

/-- A memory returns what was written last. The laws are those of layers below `depth`, of some
slots and of some entries. -/
structure Memory.Lawful (mem : Memory ε M S E) (Valid : M → Prop) (depth : ℕ) (Slot : S → Prop)
    (Fits : E → Prop) : Prop where
  write {m ℓ s e} : Valid m → ℓ < depth → Slot s → Fits e → ∃ m', mem.write m ℓ s e = .ok m' ∧
    Valid m' ∧ mem.read m' ℓ s = .ok e ∧
      ∀ ℓ' s', ℓ' < depth → Slot s' → (ℓ', s') ≠ (ℓ, s) → mem.read m' ℓ' s' = mem.read m ℓ' s'

/-- One layer at one position: its entry is written, and the entries of all positions are read. -/
def Layer.step (mem : Memory ε M S E) (L : Layer ε X Q E) (ℓ p : ℕ) (slot : S) (slots : List S)
    (x : X) (m : M) : M × Except ε X :=
  match L.prepare p x with
  | .error e => (m, .error e)
  | .ok (query, entry) =>
      match mem.write m ℓ slot entry with
      | .error e => (m, .error e)
      | .ok m =>
          (m, do
            let entries ← slots.mapM (mem.read m ℓ)
            L.combine p x query entries)

/-- The layers from the number `ℓ` on, at one position. -/
def stepLayers (mem : Memory ε M S E) (p : ℕ) (slot : S) (slots : List S) :
    ℕ → List (Layer ε X Q E) → X → M → M × Except ε X
  | _, [], x, m => (m, .ok x)
  | ℓ, L :: layers, x, m =>
      match L.step mem ℓ p slot slots x m with
      | (m, .error e) => (m, .error e)
      | (m, .ok y) => stepLayers mem p slot slots (ℓ + 1) layers y m

/-- The token at one position, whose entries go to `slot`. The slots up to the position are
`slots`. -/
def Network.step (N : Network ε T X Q E Y) (mem : Memory ε M S E) (p : ℕ) (token : T) (slot : S)
    (slots : List S) (m : M) : M × Except ε Y :=
  match N.embed p token with
  | .error e => (m, .error e)
  | .ok x =>
      match stepLayers mem p slot slots 0 N.layers x m with
      | (m, .error e) => (m, .error e)
      | (m, .ok y) => (m, N.head y)

/-! ### What a memory holds -/

/-- The slot `s` holds the entries of the position `i` in the layers from the number `ℓ` on. -/
def HoldsLayers (mem : Memory ε M S E) (m : M) (i : ℕ) (s : S) :
    ℕ → List (Layer ε X Q E) → (ℕ → Except ε X) → Prop
  | _, [], _ => True
  | ℓ, L :: layers, input =>
      (∃ query entry, L.contribution input i = .ok (query, entry) ∧ mem.read m ℓ s = .ok entry) ∧
        HoldsLayers mem m i s (ℓ + 1) layers (L.run input)

/-- The slot `s` holds the entries of the position `i` in all layers. -/
def Network.Holds (N : Network ε T X Q E Y) (mem : Memory ε M S E) (m : M) (tokens : ℕ → T) (i : ℕ)
    (s : S) : Prop :=
  HoldsLayers mem m i s 0 N.layers (N.input tokens)

/-! ### Causality -/

section Congr

variable {L : Layer ε X Q E} {input input' : ℕ → Except ε X} {p : ℕ}

theorem Layer.run_congr (h : ∀ i ≤ p, input i = input' i) : L.run input p = L.run input' p := by
  have hmap : (List.range p).mapM (fun i => Prod.snd <$> L.contribution input i) =
      (List.range p).mapM fun i => Prod.snd <$> L.contribution input' i :=
    mapM_congr fun i hi => by
      rw [contribution, contribution, h i (List.mem_range.mp hi).le]
  rw [run, run, hmap, h p le_rfl]

theorem runLayers_congr {layers : List (Layer ε X Q E)} (h : ∀ i ≤ p, input i = input' i) :
    runLayers layers input p = runLayers layers input' p := by
  induction layers generalizing input input' with
  | nil => exact h p le_rfl
  | cons L layers ih =>
      exact ih fun i hi => L.run_congr fun j hj => h j (hj.trans hi)

theorem holdsLayers_congr {mem : Memory ε M S E} {m : M} {s : S} {ℓ : ℕ}
    {layers : List (Layer ε X Q E)} (h : ∀ i ≤ p, input i = input' i) :
    HoldsLayers mem m p s ℓ layers input ↔ HoldsLayers mem m p s ℓ layers input' := by
  induction layers generalizing input input' ℓ with
  | nil => rfl
  | cons L layers ih =>
      have hcontribution : L.contribution input p = L.contribution input' p := by
        rw [Layer.contribution, Layer.contribution, h p le_rfl]
      rw [HoldsLayers, HoldsLayers, hcontribution]
      exact and_congr_right fun _ => ih fun i hi => L.run_congr fun j hj => h j (hj.trans hi)

end Congr

namespace Network

variable {N : Network ε T X Q E Y} {tokens tokens' : ℕ → T} {p : ℕ}

theorem input_congr (h : ∀ i ≤ p, tokens i = tokens' i) :
    ∀ i ≤ p, N.input tokens i = N.input tokens' i :=
  fun i hi => by rw [input, input, h i hi]

/-- **The output for a position does not depend on later tokens.** -/
theorem output_congr (h : ∀ i ≤ p, tokens i = tokens' i) :
    N.output tokens p = N.output tokens' p := by
  rw [output, output, runLayers_congr (input_congr h)]

/-- What a slot holds does not depend on later tokens. -/
theorem holds_congr {mem : Memory ε M S E} {m : M} {s : S} (h : ∀ i ≤ p, tokens i = tokens' i) :
    N.Holds mem m tokens p s ↔ N.Holds mem m tokens' p s :=
  holdsLayers_congr (input_congr h)

end Network

/-! ### What a step does -/

/-- What the layers from the number `ℓ` on do at the position `p`, with the memory `m`. -/
structure Stepped (mem : Memory ε M S E) (Valid : M → Prop) (depth : ℕ) (Slot : S → Prop)
    (layers : List (Layer ε X Q E)) (ℓ p : ℕ) (slot : S) (input : ℕ → Except ε X) (m : M)
    (after : M × Except ε X) : Prop where
  result : after.2 = runLayers layers input p
  valid : Valid after.1
  read {ℓ' s} : ℓ' < depth → Slot s → s ≠ slot ∨ ℓ' < ℓ → mem.read after.1 ℓ' s = mem.read m ℓ' s
  holds {y} : after.2 = .ok y → HoldsLayers mem after.1 p slot ℓ layers input
  replay {ℓ' s} : HoldsLayers mem m p slot ℓ layers input → ℓ' < depth → Slot s →
    mem.read after.1 ℓ' s = mem.read m ℓ' s

/-- What computing the position `p` into the slot `slot` does. -/
structure Network.Stepped (N : Network ε T X Q E Y) (mem : Memory ε M S E) (Valid : M → Prop) (depth : ℕ)
    (Slot : S → Prop) (tokens : ℕ → T) (p : ℕ) (slot : S) (m : M) (after : M × Except ε Y) :
    Prop where
  result : after.2 = N.output tokens p
  valid : Valid after.1
  read {ℓ s} : ℓ < depth → Slot s → s ≠ slot → mem.read after.1 ℓ s = mem.read m ℓ s
  holds {y} : after.2 = .ok y → N.Holds mem after.1 tokens p slot
  replay {ℓ s} : N.Holds mem m tokens p slot → ℓ < depth → Slot s →
    mem.read after.1 ℓ s = mem.read m ℓ s

section Step

variable {mem : Memory ε M S E} {Valid : M → Prop} {depth : ℕ} {Slot : S → Prop} {Fits : E → Prop}
  {m m' : M} {p ℓ : ℕ} {slot s : S} {input : ℕ → Except ε X} {layers : List (Layer ε X Q E)}

/-- What a slot holds is a matter of its cells. -/
theorem HoldsLayers.of_read (hdepth : ℓ + layers.length ≤ depth)
    (hread : ∀ ℓ', ℓ ≤ ℓ' → ℓ' < depth → mem.read m' ℓ' s = mem.read m ℓ' s)
    (h : HoldsLayers mem m p s ℓ layers input) : HoldsLayers mem m' p s ℓ layers input := by
  induction layers generalizing ℓ input with
  | nil => trivial
  | cons L layers ih =>
      rw [List.length_cons] at hdepth
      obtain ⟨⟨query, entry, hentry, hcell⟩, hrest⟩ := h
      refine ⟨⟨query, entry, hentry, ?_⟩, ih (by omega) (fun ℓ' hℓ' => hread ℓ' (by omega)) hrest⟩
      rw [hread ℓ le_rfl (by omega), hcell]

/-- The entries of the earlier positions, as they are computed and as they are read. -/
theorem mapM_read_earlier {L : Layer ε X Q E} {earlier : List S}
    (hheld : ∀ i s, earlier[i]? = some s →
      ∃ query entry, L.contribution input i = .ok (query, entry) ∧ mem.read m ℓ s = .ok entry) :
    ∃ entries, earlier.mapM (mem.read m ℓ) = .ok entries ∧
      (List.range earlier.length).mapM (fun i => Prod.snd <$> L.contribution input i) =
        .ok entries := by
  obtain ⟨entries, hentries⟩ : ∃ entries, earlier.mapM (mem.read m ℓ) = .ok entries := by
    refine exists_mapM_eq_ok_iff.mpr fun s hs => ?_
    obtain ⟨i, hi⟩ := List.mem_iff_getElem?.mp hs
    obtain ⟨query, entry, -, hread⟩ := hheld i s hi
    exact ⟨entry, hread⟩
  refine ⟨entries, hentries, hentries ▸ mapM_range_length fun i s hi => ?_⟩
  obtain ⟨query, entry, hcontribution, hread⟩ := hheld i s hi
  rw [hcontribution, hread]
  rfl

section Run

variable {L : Layer ε X Q E} {e : ε} {x : X} {query : Q} {entry : E} {earlier : List E}

theorem Layer.run_of_input_error (h : input p = .error e) : L.run input p = .error e := by
  rw [run, h]
  rfl

theorem Layer.run_of_prepare_error (hinput : input p = .ok x) (h : L.prepare p x = .error e) :
    L.run input p = .error e := by
  rw [run, hinput]
  simp only [bind, Except.bind, h]

theorem Layer.run_of_prepare_ok (hinput : input p = .ok x)
    (hprepare : L.prepare p x = .ok (query, entry))
    (hearlier : (List.range p).mapM (fun i => Prod.snd <$> L.contribution input i) = .ok earlier) :
    L.run input p = L.combine p x query (earlier ++ [entry]) := by
  rw [run, hinput, hearlier]
  simp only [bind, Except.bind, hprepare]

/-- An error at a position is passed on. -/
theorem runLayers_of_error (h : input p = .error e) : runLayers layers input p = .error e := by
  induction layers generalizing input with
  | nil => exact h
  | cons L layers ih => exact ih (L.run_of_input_error h)

end Run

/-- A layer writes at most once. -/
theorem Layer.step_fst (mem : Memory ε M S E) (L : Layer ε X Q E) (ℓ p : ℕ) (slot : S)
    (slots : List S) (x : X) (m : M) :
    (L.step mem ℓ p slot slots x m).1 = m ∨
      ∃ entry, mem.write m ℓ slot entry = .ok (L.step mem ℓ p slot slots x m).1 := by
  rw [step]
  cases L.prepare p x with
  | error e => exact .inl rfl
  | ok prepared =>
      cases hwrite : mem.write m ℓ slot prepared.2 with
      | error e =>
          simp only [hwrite]
          exact .inl trivial
      | ok m' =>
          simp only [hwrite]
          exact .inr ⟨prepared.2, hwrite⟩

/-- One layer: nothing is written, or the entry of the position. -/
theorem Layer.step_spec (hlaw : mem.Lawful Valid depth Slot Fits) {L : Layer ε X Q E}
    {earlier : List S} {x : X} (hdepth : ℓ < depth) (hvalid : Valid m) (hslot : Slot slot)
    (hearlier : ∀ s ∈ earlier, Slot s)
    (hfits : ∀ x query entry, L.prepare earlier.length x = .ok (query, entry) → Fits entry)
    (hheld : ∀ i s, earlier[i]? = some s →
      ∃ query entry, L.contribution input i = .ok (query, entry) ∧ mem.read m ℓ s = .ok entry)
    (hfresh : slot ∉ earlier ∨ ∃ query entry,
      L.contribution input earlier.length = .ok (query, entry) ∧ mem.read m ℓ slot = .ok entry)
    (hinput : input earlier.length = .ok x) :
    (∃ e, L.run input earlier.length = .error e ∧
      L.step mem ℓ earlier.length slot (earlier ++ [slot]) x m = (m, .error e)) ∨
    ∃ query entry m', L.contribution input earlier.length = .ok (query, entry) ∧ Valid m' ∧
      mem.read m' ℓ slot = .ok entry ∧
      (∀ ℓ' s', ℓ' < depth → Slot s' → (ℓ', s') ≠ (ℓ, slot) →
        mem.read m' ℓ' s' = mem.read m ℓ' s') ∧
      L.step mem ℓ earlier.length slot (earlier ++ [slot]) x m =
        (m', L.run input earlier.length) := by
  have hcontribution : L.contribution input earlier.length = L.prepare earlier.length x := by
    rw [Layer.contribution, hinput]
    rfl
  rw [Layer.step]
  cases hprepare : L.prepare earlier.length x with
  | error e => exact .inl ⟨e, L.run_of_prepare_error hinput hprepare, rfl⟩
  | ok prepared =>
      obtain ⟨query, entry⟩ := prepared
      obtain ⟨m', hwrite, hvalid', hcell, hread⟩ :=
        hlaw.write hvalid hdepth hslot (hfits x query entry hprepare)
      obtain ⟨entries, hentries, hrange⟩ := mapM_read_earlier hheld
      -- the entries of the earlier positions are not written over
      have hentries' : (earlier ++ [slot]).mapM (mem.read m' ℓ) = .ok (entries ++ [entry]) := by
        refine mapM_append_eq_ok_iff.mpr ⟨entries, [entry], ?_, by simp [hcell], rfl⟩
        refine (mapM_congr fun s hs => ?_).trans hentries
        by_cases hne : s = slot
        · obtain ⟨query', entry', hcontribution', hcell'⟩ :=
            hfresh.resolve_left (not_not.mpr (hne ▸ hs))
          obtain ⟨-, rfl⟩ := Prod.ext_iff.mp
            (Except.ok.inj ((hcontribution'.symm.trans hcontribution).trans hprepare))
          rw [hne, hcell, hcell']
        · exact hread ℓ s hdepth (hearlier s hs) fun h => hne (Prod.ext_iff.mp h).2
      refine .inr ⟨query, entry, m', hcontribution.trans hprepare, hvalid', hcell, hread, ?_⟩
      simp only [hwrite, hentries', L.run_of_prepare_ok hinput hprepare hrange]
      rfl

theorem stepLayers_spec (hlaw : mem.Lawful Valid depth Slot Fits) {earlier : List S} {x : X}
    (hdepth : ℓ + layers.length ≤ depth) (hvalid : Valid m) (hslot : Slot slot)
    (hearlier : ∀ s ∈ earlier, Slot s)
    (hfits : ∀ L ∈ layers, ∀ x query entry,
      L.prepare earlier.length x = .ok (query, entry) → Fits entry)
    (hheld : ∀ i s, earlier[i]? = some s → HoldsLayers mem m i s ℓ layers input)
    (hfresh : slot ∉ earlier ∨ HoldsLayers mem m earlier.length slot ℓ layers input)
    (hinput : input earlier.length = .ok x) :
    Stepped mem Valid depth Slot layers ℓ earlier.length slot input m
      (stepLayers mem earlier.length slot (earlier ++ [slot]) ℓ layers x m) := by
  induction layers generalizing ℓ input x m with
  | nil => exact ⟨hinput.symm, hvalid, fun _ _ _ => rfl, fun _ => trivial, fun _ _ _ => rfl⟩
  | cons L layers ih =>
      obtain ⟨hfitsL, hfitsRest⟩ := List.forall_mem_cons.mp hfits
      rw [List.length_cons] at hdepth
      rw [stepLayers]
      obtain ⟨e, hrun, hstep⟩ | ⟨query, entry, m', hcontribution, hvalid', hcell, hread, hstep⟩ :=
        L.step_spec hlaw (by omega) hvalid hslot hearlier hfitsL (fun i s hi => (hheld i s hi).1)
          (hfresh.imp_right And.left) hinput
      · rw [hstep]
        exact ⟨(runLayers_of_error hrun).symm, hvalid, fun _ _ _ => rfl, nofun, fun _ _ _ => rfl⟩
      · rw [hstep]
        -- a replayed entry is the one that is there
        have hreplay : HoldsLayers mem m earlier.length slot ℓ (L :: layers) input →
            ∀ ℓ' s, ℓ' < depth → Slot s → mem.read m' ℓ' s = mem.read m ℓ' s := by
          rintro ⟨⟨query', entry', hcontribution', hcell'⟩, -⟩ ℓ' s hℓ' hs
          by_cases heq : (ℓ', s) = (ℓ, slot)
          · obtain ⟨rfl, rfl⟩ := Prod.ext_iff.mp heq
            obtain ⟨-, rfl⟩ := Prod.ext_iff.mp
              (Except.ok.inj (hcontribution'.symm.trans hcontribution))
            rw [hcell, hcell']
          · exact hread ℓ' s hℓ' hs heq
        cases hrun : L.run input earlier.length with
        | error e =>
            refine ⟨(runLayers_of_error hrun).symm, hvalid', fun hℓ' hs h => ?_, nofun,
              fun h hℓ' hs => hreplay h _ _ hℓ' hs⟩
            refine hread _ _ hℓ' hs fun heq => ?_
            obtain ⟨rfl, rfl⟩ := Prod.ext_iff.mp heq
            simp at h
        | ok y =>
            -- the cells of the layers to come are those that were there
            have hlater (ℓ' : ℕ) (hlt : ℓ + 1 ≤ ℓ') (hℓ' : ℓ' < depth) (s : S) (hs : Slot s) :
                mem.read m' ℓ' s = mem.read m ℓ' s := by
              refine hread ℓ' s hℓ' hs fun heq => ?_
              obtain ⟨rfl, -⟩ := Prod.ext_iff.mp heq
              omega
            have hrest := ih (by omega) hvalid' hfitsRest
              (fun i s hi => (hheld i s hi).2.of_read (by omega) fun ℓ' hlt hℓ' =>
                hlater ℓ' hlt hℓ' s (hearlier s (List.mem_of_getElem? hi)))
              (hfresh.imp_right fun h => h.2.of_read (by omega) fun ℓ' hlt hℓ' =>
                hlater ℓ' hlt hℓ' slot hslot) hrun
            refine ⟨hrest.result, hrest.valid, fun hℓ' hs h => ?_, fun hy => ?_,
              fun h hℓ' hs => ?_⟩
            · rw [hrest.read hℓ' hs (h.imp_right fun h => by omega)]
              refine hread _ _ hℓ' hs fun heq => ?_
              obtain ⟨rfl, rfl⟩ := Prod.ext_iff.mp heq
              simp at h
            · refine ⟨⟨query, entry, hcontribution, ?_⟩, hrest.holds hy⟩
              rw [hrest.read (by omega) hslot (.inr (by omega)), hcell]
            · have hsame := hreplay h
              rw [hrest.replay (h.2.of_read (by omega) fun ℓ' _ hℓ' => hsame ℓ' slot hℓ' hslot)
                hℓ' hs, hsame _ _ hℓ' hs]

namespace Network

variable {N : Network ε T X Q E Y} {tokens tokens' : ℕ → T}

/-- **A step computes the output of its position**, if the slots of the earlier positions hold their
entries. The slot of the position is none of them, or it holds the entries already. -/
theorem step_spec (hlaw : mem.Lawful Valid depth Slot Fits) {earlier : List S}
    (hdepth : N.layers.length ≤ depth) (hvalid : Valid m) (hslot : Slot slot)
    (hearlier : ∀ s ∈ earlier, Slot s)
    (hfits : ∀ L ∈ N.layers, ∀ x query entry,
      L.prepare earlier.length x = .ok (query, entry) → Fits entry)
    (hheld : ∀ i s, earlier[i]? = some s → N.Holds mem m tokens i s)
    (hfresh : slot ∉ earlier ∨ N.Holds mem m tokens earlier.length slot) :
    N.Stepped mem Valid depth Slot tokens earlier.length slot m
      (N.step mem earlier.length (tokens earlier.length) slot (earlier ++ [slot]) m) := by
  rw [step]
  cases hembed : N.embed earlier.length (tokens earlier.length) with
  | error e =>
      refine ⟨?_, hvalid, fun _ _ _ => rfl, nofun, fun _ _ _ => rfl⟩
      rw [output, runLayers_of_error (show N.input tokens earlier.length = .error e from hembed)]
      rfl
  | ok x =>
      have hlayers := stepLayers_spec hlaw (by omega) hvalid hslot hearlier hfits hheld hfresh
        hembed
      have houtput : N.output tokens earlier.length = (stepLayers mem earlier.length slot
          (earlier ++ [slot]) 0 N.layers x m).2 >>= N.head := by
        rw [output, hlayers.result]
      rcases hstep : stepLayers mem earlier.length slot (earlier ++ [slot]) 0 N.layers x m with
        ⟨m', result⟩
      simp only [hstep] at hlayers houtput ⊢
      cases result with
      | error e =>
          exact ⟨houtput.symm, hlayers.valid, fun hℓ hs hne => hlayers.read hℓ hs (.inl hne), nofun,
            hlayers.replay⟩
      | ok y =>
          exact ⟨houtput.symm, hlayers.valid, fun hℓ hs hne => hlayers.read hℓ hs (.inl hne),
            fun _ => hlayers.holds rfl, hlayers.replay⟩

/-- What a slot holds is a matter of its cells. -/
theorem Holds.of_read (hdepth : N.layers.length ≤ depth)
    (hread : ∀ ℓ, ℓ < depth → mem.read m' ℓ s = mem.read m ℓ s) (h : N.Holds mem m tokens p s) :
    N.Holds mem m' tokens p s :=
  HoldsLayers.of_read (by omega) (fun ℓ _ => hread ℓ) h

end Network

end Step

end Causal
