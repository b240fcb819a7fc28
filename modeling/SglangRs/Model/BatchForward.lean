import SglangRs.Model.SequenceForward
import SglangRs.Runner.BatchRows
import SglangRs.Scheduler.Ownership

/-!
# Forwarding the requests of a batch

The requests of a batch are forwarded one after the other, on the same memory. A request computes
what its own sequence says if the slots of its earlier positions hold their entries and no other
request of the batch writes them. A request whose prompt is cached as a whole is the exception: it
forwards its last token once more, in the slot that holds the entries of this token already, and
others may share this slot.

## Main definitions

* `ScheduledRequest.Writes`: the slots whose cells a request may change.
* `CausalModel.Ready`: the request can be forwarded.
* `CausalModel.Forwarded`: what forwarding a request does.

## Main results

* `CausalModel.forwardRequest_spec`: a request that is ready is forwarded.
* `CausalModel.forwardRequests_spec`: so are the requests of a batch.
-/

namespace SglangRs

open Scheduler

namespace ScheduledRequest

variable (r : ScheduledRequest)

/-- The slots whose cells a request may change. Replaying a token changes none. -/
def Writes (x : ℕ) : Prop := x ∈ r.forwardCachePages ∧ ∀ y, ¬r.ReplaysIn y

/-- There are tokens to be forwarded, and they are known. -/
structure Known (r : ScheduledRequest) : Prop where
  staged : r.stage = .prefillForward ∨ r.stage = .decodeForward
  fits : r.Fits
  outputs_ne_nil : r.stage = .decodeForward → r.outputIds ≠ []

end ScheduledRequest

namespace CausalModel

/-! ### The inputs of a request -/

section Inputs

variable {tokens : ℕ → UInt32} {a : ℕ} {out : List ℕ} {r : ScheduledRequest}

theorem inputsFrom_eq_zip : inputsFrom tokens a out =
    ((List.range' a out.length).map tokens).zip ((List.range' a out.length).zip out) := by
  induction out generalizing a with
  | nil => rfl
  | cons x out ih =>
      rw [inputsFrom, ih, List.length_cons, List.range'_succ, List.map_cons, List.zip_cons_cons,
        List.zip_cons_cons]

/-- The tokens of a prompt chunk. -/
theorem chunk_eq_map (a e : ℕ) (h : e ≤ r.inputIds.length) :
    (r.inputIds.take e).drop a = (List.range' a (e - a)).map r.tokenAt := by
  refine List.ext_getElem ?_ fun j hj _ => ?_
  · rw [List.length_drop, List.length_take_of_le h, List.length_map, List.length_range']
  · rw [List.length_drop, List.length_take_of_le h] at hj
    have hlt : a + j < r.inputIds.length := by omega
    rw [List.getElem_drop, List.getElem_take, List.getElem_map, List.getElem_range', Nat.one_mul,
      ScheduledRequest.tokenAt, List.getD_append _ _ _ _ hlt, List.getD_eq_getElem _ _ hlt]

/-- The last generated token. -/
theorem getLast_eq_tokenAt (h : r.outputIds ≠ []) :
    r.outputIds.getLast?.getD 0 = r.tokenAt (r.inputIds.length + r.outputIds.length - 1) := by
  have hpos := List.length_pos_iff.mpr h
  rw [ScheduledRequest.tokenAt, List.getD_append_right _ _ _ _ (by omega),
    List.getLast?_eq_getElem?, List.getD_eq_getElem?_getD]
  congr 2
  omega

/-- **The inputs of a request** are the tokens of its sequence, from the first position to be
forwarded on. -/
theorem zip_forwardRow (h : r.Known) :
    r.forwardRow.inputIds.zip (r.forwardRow.positions.zip r.forwardRow.outCachePages) =
      inputsFrom r.tokenAt r.forwardStart r.forwardCachePages := by
  rw [inputsFrom_eq_zip]
  simp only [ScheduledRequest.forwardRow, ScheduledRequest.forwardStart]
  obtain hstage | hstage := h.staged
  · have hne : r.stage ≠ .decodeForward := by rw [hstage]; decide
    have hforward := (h.fits.prefill hstage).forward
    simp only [if_neg hne, hforward]
    rw [chunk_eq_map _ _ r.chunkEnd_le, List.range'_eq_map_range]
  · have hforward := (h.fits.decode hstage).forward
    have hne := h.outputs_ne_nil hstage
    simp only [if_pos hstage, hforward, List.range'_one, List.map_cons, List.map_nil]
    rw [getLast_eq_tokenAt hne,
      ScheduledRequest.decodePosition_eq (Nat.add_pos_right _ (List.length_pos_iff.mpr hne))]

/-- The tokens to be forwarded end where the sequence ends. -/
theorem forwardStart_add (h : r.Known) (hne : r.forwardCachePages ≠ []) :
    r.forwardStart + r.forwardCachePages.length = r.forwardEnd := by
  have hpos := List.length_pos_iff.mpr hne
  rw [ScheduledRequest.forwardStart, ScheduledRequest.forwardEnd]
  obtain hstage | hstage := h.staged
  · have hdecode : r.stage ≠ .decodeForward := by rw [hstage]; decide
    have hforward := (h.fits.prefill hstage).forward
    rw [if_neg hdecode, if_neg hdecode]
    omega
  · have hforward := (h.fits.decode hstage).forward
    have hlen := List.length_pos_iff.mpr (h.outputs_ne_nil hstage)
    rw [if_pos hstage, if_pos hstage]
    omega

end Inputs

/-! ### One request -/

variable {M X Q E L : Type} (C : CausalModel M X Q E L)

/-- A request can be forwarded: the slots of its earlier positions hold their entries, and writing
does not disturb them. -/
structure Ready (m : M) (r : ScheduledRequest) : Prop where
  known : r.Known
  slots : ∀ s ∈ r.sequenceCachePages, s < C.slotCount
  held : C.HoldsFirst m r.tokenAt r.forwardStart r.forwardSequence
  replay : ∀ x, r.ReplaysIn x → C.Holds m r.tokenAt r.forwardStart x
  fresh : (∀ x, ¬r.ReplaysIn x) → r.forwardCachePages.Nodup ∧
    ∀ x ∈ r.forwardCachePages, x ∉ r.forwardSequence.take r.forwardStart

/-- What forwarding a request does. -/
structure Forwarded (r : ScheduledRequest) (m : M) (after : M × Except ModelForwardError (List L)) :
    Prop where
  valid : C.Valid after.1
  agrees : ∀ s < C.slotCount, ¬r.Writes s → C.Agrees m after.1 s
  ok_iff : (∃ logits, after.2 = .ok logits) ↔ r.forwardCachePages ≠ [] ∧
    Aligned r.forwardStart r.forwardCachePages r.forwardSequence ∧
    ∀ i, r.forwardStart ≤ i → i < r.forwardEnd →
      ∃ logits, C.network.output r.tokenAt i = .ok logits
  output : ∀ logits, after.2 = .ok logits →
    C.network.output r.tokenAt (r.forwardEnd - 1) = .ok logits
  held : ∀ logits, after.2 = .ok logits →
    C.HoldsFirst after.1 r.tokenAt r.forwardEnd r.forwardSequence

variable {C} {m m' : M} {r : ScheduledRequest} {k : ℕ}

theorem mem_of_mem_forwardSequence {s : ℕ} (h : s ∈ r.forwardSequence) :
    s ∈ r.sequenceCachePages := by
  rw [ScheduledRequest.forwardSequence] at h
  split_ifs at h
  · exact h
  · exact List.mem_of_mem_take h

/-- **A request that is ready is forwarded.** -/
theorem forwardRequest_spec (hvalid : C.Valid m) (h : C.Ready m r) :
    C.Forwarded r m (forwardRequest C.token k r.forwardRow m) := by
  have hfresh : (r.forwardCachePages.Nodup ∧
      ∀ x ∈ r.forwardCachePages, x ∉ r.forwardSequence.take r.forwardStart) ∨
      ∃ x, r.forwardCachePages = [x] ∧ C.Holds m r.tokenAt r.forwardStart x := by
    by_cases hreplay : ∃ x, r.ReplaysIn x
    · obtain ⟨x, hx⟩ := hreplay
      exact .inr ⟨x, hx.forward_eq, h.replay x hx⟩
    · exact .inl (h.fresh (not_exists.mp hreplay))
  have hspec := forwardTokens_spec hvalid
    (fun s hs => h.slots s (mem_of_mem_forwardSequence hs)) h.held hfresh none
  have hagrees (s : ℕ) (hs : s < C.slotCount) (hwrites : ¬r.Writes s) :
      C.Agrees m (forwardTokens C.token r.forwardSequence
        (inputsFrom r.tokenAt r.forwardStart r.forwardCachePages) none m).1 s := by
    obtain hmem | ⟨x, hx⟩ : s ∉ r.forwardCachePages ∨ ∃ x, r.ReplaysIn x := by
      by_contra! hall
      exact hwrites hall
    · exact hspec.agrees s hs hmem
    · exact hspec.replay x hx.forward_eq (h.replay x hx) s hs
  rw [forwardRequest, zip_forwardRow h.known, show r.forwardRow.sequenceCachePages =
    r.forwardSequence from rfl]
  by_cases hne : r.forwardCachePages = []
  · rw [hne, inputsFrom, forwardTokens]
    refine ⟨hvalid, fun s _ _ => .refl m s, ⟨?_, fun hall => absurd hne hall.1⟩, ?_, ?_⟩
    · rintro ⟨_, ⟨⟩⟩
    · rintro _ ⟨⟩
    · rintro _ ⟨⟩
  · have hend := forwardStart_add h.known hne
    have hrange : (∀ j < r.forwardCachePages.length,
          ∃ logits, C.network.output r.tokenAt (r.forwardStart + j) = .ok logits) ↔
        ∀ i, r.forwardStart ≤ i → i < r.forwardEnd →
          ∃ logits, C.network.output r.tokenAt i = .ok logits := by
      refine ⟨fun hall i hle hlt => ?_, fun hall j hj => hall _ (Nat.le_add_right _ _) (by omega)⟩
      exact Nat.add_sub_cancel' hle ▸ hall (i - r.forwardStart) (by omega)
    have hok := hspec.ok_iff
    have hheld := hspec.held
    have hlast := hspec.last
    rw [hend] at hheld hlast
    rw [hrange] at hok
    have hvalid' := hspec.valid
    rcases hafter : forwardTokens C.token r.forwardSequence
        (inputsFrom r.tokenAt r.forwardStart r.forwardCachePages) none m with
      ⟨m', error | logits⟩
    · rw [hafter] at hok hagrees hvalid'
      refine ⟨hvalid', hagrees, ⟨?_, fun hall => ?_⟩, ?_, ?_⟩
      · rintro ⟨_, ⟨⟩⟩
      · obtain ⟨logits, ⟨⟩⟩ := hok.mpr hall.2
      · rintro _ ⟨⟩
      · rintro _ ⟨⟩
    · rw [hafter] at hok hagrees hvalid' hheld hlast
      obtain ⟨row, rfl, hrow⟩ := hlast logits rfl hne
      refine ⟨hvalid', hagrees, ⟨fun _ => ⟨hne, hok.mp ⟨_, rfl⟩⟩, fun _ => ⟨row, rfl⟩⟩,
        fun logits h => ?_, fun _ _ => hheld _ rfl⟩
      exact Except.ok.inj h ▸ hrow

/-! ### The requests of a batch -/

/-- What a request needs is not disturbed by changes to other slots. -/
theorem Ready.of_agrees (h : C.Ready m r)
    (hagrees : ∀ s ∈ r.sequenceCachePages, C.Agrees m m' s) : C.Ready m' r := by
  refine ⟨h.known, h.slots, h.held.of_agrees fun s hs => ?_, fun x hx => ?_, h.fresh⟩
  · exact hagrees s (mem_of_mem_forwardSequence (List.mem_of_mem_take hs))
  · exact (h.replay x hx).of_agrees (hagrees x (List.mem_of_getLast? hx.last_eq))

/-- What forwarding some requests does. -/
structure ForwardedAll (C : CausalModel M X Q E L) (requests : List ScheduledRequest) (m : M)
    (after : M × Except ModelForwardError (List (List L))) : Prop where
  valid : C.Valid after.1
  agrees : ∀ s < C.slotCount, (∀ r ∈ requests, ¬r.Writes s) → C.Agrees m after.1 s
  ok_iff : (∃ rows, after.2 = .ok rows) ↔ ∀ r ∈ requests, r.forwardCachePages ≠ [] ∧
    Aligned r.forwardStart r.forwardCachePages r.forwardSequence ∧
    ∀ i, r.forwardStart ≤ i → i < r.forwardEnd →
      ∃ logits, C.network.output r.tokenAt i = .ok logits
  output : ∀ rows, after.2 = .ok rows → List.Forall₂
    (fun r logits => C.network.output r.tokenAt (r.forwardEnd - 1) = .ok logits) requests rows
  held : ∀ rows, after.2 = .ok rows → ∀ r ∈ requests,
    C.HoldsFirst after.1 r.tokenAt r.forwardEnd r.forwardSequence

/-- A request in front of others. -/
theorem Forwarded.cons {requests : List ScheduledRequest} {logits : List L}
    {after : M × Except ModelForwardError (List (List L))} (h : C.Forwarded r m (m', .ok logits))
    (hrest : ForwardedAll C requests m' after) (hslots : ∀ s ∈ r.sequenceCachePages, s < C.slotCount)
    (hapart : ∀ r' ∈ requests, ∀ s ∈ r.sequenceCachePages, ¬r'.Writes s) :
    ForwardedAll C (r :: requests) m (after.1, (logits :: ·) <$> after.2) := by
  have hmap {rows : List (List L)} (hrows : (logits :: ·) <$> after.2 = .ok rows) :
      ∃ rows', after.2 = .ok rows' ∧ logits :: rows' = rows := by
    cases hafter : after.2 with
    | error error => exact nomatch hafter ▸ hrows
    | ok rows' => exact ⟨rows', rfl, Except.ok.inj (hafter ▸ hrows)⟩
  refine ⟨hrest.valid, fun s hs hwrites => ?_, ?_, fun rows hrows => ?_, fun rows hrows => ?_⟩
  · obtain ⟨hwrites, hwritesRest⟩ := List.forall_mem_cons.mp hwrites
    exact (h.agrees s hs hwrites).trans (hrest.agrees s hs hwritesRest)
  · rw [List.forall_mem_cons, ← h.ok_iff, ← hrest.ok_iff]
    simp only [Except.ok.injEq, exists_eq', true_and]
    cases after.2 with
    | error error => exact ⟨nofun, nofun⟩
    | ok rows => exact ⟨fun _ => ⟨rows, rfl⟩, fun _ => ⟨_, rfl⟩⟩
  · obtain ⟨rows, hok, rfl⟩ := hmap hrows
    exact .cons (h.output logits rfl) (hrest.output rows hok)
  · obtain ⟨rows, hok, rfl⟩ := hmap hrows
    refine List.forall_mem_cons.mpr ⟨?_, hrest.held rows hok⟩
    -- what the later requests write is not of this one
    refine (h.held logits rfl).of_agrees fun s hs => ?_
    have hmem := mem_of_mem_forwardSequence (List.mem_of_mem_take hs)
    exact hrest.agrees s (hslots s hmem) fun r' hr' => hapart r' hr' s hmem

/-- **The requests of a batch are forwarded** if they are ready and none writes a slot of
another. -/
theorem forwardRequests_spec {requests : List ScheduledRequest} (hvalid : C.Valid m)
    (hready : ∀ r ∈ requests, C.Ready m r)
    (hapart : requests.Pairwise fun r r' => (∀ s ∈ r'.sequenceCachePages, ¬r.Writes s) ∧
      ∀ s ∈ r.sequenceCachePages, ¬r'.Writes s) :
    ForwardedAll C requests m
      (forwardRequests C.token k (requests.map ScheduledRequest.forwardRow) m) := by
  induction requests generalizing m k with
  | nil =>
      refine ⟨hvalid, fun s _ _ => .refl m s, ⟨fun _ => nofun, fun _ => ⟨[], rfl⟩⟩,
        fun rows h => ?_, fun _ _ => nofun⟩
      exact Except.ok.inj h ▸ .nil
  | cons r requests ih =>
      obtain ⟨hr, hready⟩ := List.forall_mem_cons.mp hready
      obtain ⟨hhead, hapart⟩ := List.pairwise_cons.mp hapart
      have hfirst := forwardRequest_spec (k := k) hvalid hr
      rw [List.map_cons, forwardRequests]
      rcases hafter : forwardRequest C.token k r.forwardRow m with ⟨m', error | logits⟩
      · rw [hafter] at hfirst
        refine ⟨hfirst.valid, fun s hs hwrites => hfirst.agrees s hs (hwrites r List.mem_cons_self),
          ⟨nofun, fun hall => ?_⟩, nofun, nofun⟩
        obtain ⟨logits, hlogits⟩ := hfirst.ok_iff.mpr (hall r List.mem_cons_self)
        exact nomatch hlogits
      · rw [hafter] at hfirst
        have hready' (r' : ScheduledRequest) (hr' : r' ∈ requests) : C.Ready m' r' :=
          (hready r' hr').of_agrees fun s hs =>
            hfirst.agrees s ((hready r' hr').slots s hs) ((hhead r' hr').1 s hs)
        have hrest := ih (k := k + 1) hfirst.valid hready' hapart
        convert hfirst.cons hrest hr.slots fun r' hr' => (hhead r' hr').2 using 1
        dsimp only
        rcases forwardRequests C.token (k + 1) (requests.map ScheduledRequest.forwardRow) m' with
          ⟨m'', error | rows⟩ <;> rfl

end CausalModel

end SglangRs
