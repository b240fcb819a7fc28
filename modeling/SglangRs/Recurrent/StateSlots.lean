import Mathlib.Data.Finmap
import SglangRs.Scheduler.Request
import SglangRs.Transition.Run

/-!
# Slots for recurrent states

Models with recurrent layers keep one state per request on the device, in a slot of a pool
(`sglang-srt/src/recurrent_state.rs`, lines 9–101). A batch asks for the slots of its requests at
once: a request that holds a slot keeps it, the others get free ones. The pool first checks that no
request is named twice and counts how many slots are missing, and only then hands out slots one by
one. That loop can run out of slots as well; the count is there so that it does not.

## Main definitions

* `RecurrentStateSlots`, `RecurrentStateSlots.new`: the pool.
* `RecurrentStateSlots.assignBatch`, `RecurrentStateSlots.release`: its operations.
* `RecurrentStateSlots.Partitioned`: every slot is either free or held by one request.

## Main results

* `RecurrentStateSlots.assignSlots_spec`: the loop hands out slots if the count allows it.
* `RecurrentStateSlots.partitioned_run`: the invariant of all runs.
* `recurrent_slots_exact`: what the pool and a batch look like after every run.
-/

namespace SglangRs

theorem RequestId.eq_of_asStr {requestId requestId' : RequestId}
    (h : requestId.asStr = requestId'.asStr) : requestId = requestId' := by
  cases requestId
  cases requestId'
  exact congrArg RequestId.mk h

/-- The slots of the requests of a batch, and those among them that were free before. -/
structure RecurrentStateBatchSlots where
  slots : List ℕ
  newlyAssigned : List ℕ
deriving DecidableEq, Repr

/-- The pool. Slots are taken from the end of the free list and returned there. -/
structure RecurrentStateSlots where
  capacity : ℕ
  freeSlots : List ℕ
  assignedSlots : Finmap fun _ : String => ℕ

inductive RecurrentStateSlotError where
  | zeroCapacity
  | capacityTooLarge (capacity : ℕ)
  | duplicateRequest (requestId : String)
  | exhausted (capacity assigned requested : ℕ)
deriving DecidableEq, Repr

namespace RecurrentStateSlots

/-- Source: `recurrent_state.rs`, lines 30–41. -/
def new (capacity : ℕ) : Except RecurrentStateSlotError RecurrentStateSlots :=
  if capacity = 0 then .error .zeroCapacity
  else if 2 ^ 32 ≤ capacity then .error (.capacityTooLarge capacity)
  else .ok { capacity, freeSlots := (List.range capacity).reverse, assignedSlots := ∅ }

variable (s : RecurrentStateSlots)

/-- The slot a request holds. -/
def slotOf (requestId : RequestId) : Option ℕ := s.assignedSlots.lookup requestId.asStr

/-- The first id that was seen before. -/
def findDuplicate : List RequestId → List RequestId → Option RequestId
  | _, [] => none
  | seen, requestId :: requestIds =>
      if requestId ∈ seen then some requestId else findDuplicate (requestId :: seen) requestIds

/-- The number of slots that a batch needs beside those its requests hold. -/
def required (requestIds : List RequestId) : ℕ :=
  (requestIds.filter fun requestId => requestId.asStr ∉ s.assignedSlots).length

/-- The last free slot is given to a request. -/
def grant (requestId : RequestId) (slot : ℕ) : RecurrentStateSlots :=
  { s with
    freeSlots := s.freeSlots.dropLast
    assignedSlots := s.assignedSlots.insert requestId.asStr slot }

/-- The loop of `assign_batch`, with the slots found so far. -/
def assignSlots : RecurrentStateSlots → RecurrentStateBatchSlots → List RequestId →
    RecurrentStateSlots × Except RecurrentStateSlotError RecurrentStateBatchSlots
  | s, batch, [] => (s, .ok batch)
  | s, batch, requestId :: requestIds =>
      match s.assignedSlots.lookup requestId.asStr with
      | some slot => assignSlots s { batch with slots := batch.slots ++ [slot] } requestIds
      | none =>
          match s.freeSlots.getLast? with
          | none => (s, .error (.exhausted s.capacity s.assignedSlots.keys.card 1))
          | some slot =>
              assignSlots (s.grant requestId slot)
                { slots := batch.slots ++ [slot], newlyAssigned := batch.newlyAssigned ++ [slot] }
                requestIds

/-- Source: `recurrent_state.rs`, lines 43–94. -/
def assignBatch (requestIds : List RequestId) :
    RecurrentStateSlots × Except RecurrentStateSlotError RecurrentStateBatchSlots :=
  match findDuplicate [] requestIds with
  | some requestId => (s, .error (.duplicateRequest requestId.asStr))
  | none =>
      if s.required requestIds > s.freeSlots.length then
        (s, .error (.exhausted s.capacity s.assignedSlots.keys.card (s.required requestIds)))
      else s.assignSlots ⟨[], []⟩ requestIds

/-- Source: `recurrent_state.rs`, lines 96–100. -/
def release (requestId : RequestId) : RecurrentStateSlots × Option ℕ :=
  match s.assignedSlots.lookup requestId.asStr with
  | none => (s, none)
  | some slot =>
      ({ s with
          freeSlots := s.freeSlots ++ [slot]
          assignedSlots := s.assignedSlots.erase requestId.asStr }, some slot)

/-- The calls of a pool. -/
inductive Call where
  | assignBatch (requestIds : List RequestId)
  | release (requestId : RequestId)

/-- The pool after a call. -/
def apply (s : RecurrentStateSlots) : Call → RecurrentStateSlots
  | .assignBatch requestIds => (s.assignBatch requestIds).1
  | .release requestId => (s.release requestId).1

/-! ### The partition of the slots -/

/-- The slots held, with their multiplicities. -/
def heldSlots (assigned : Finmap fun _ : String => ℕ) : Multiset ℕ :=
  assigned.entries.map Sigma.snd

/-- Every slot of the pool is either free, once, or held, by one request. -/
def Partitioned : Prop :=
  (s.freeSlots : Multiset ℕ) + heldSlots s.assignedSlots = Multiset.range s.capacity

theorem heldSlots_insert {assigned : Finmap fun _ : String => ℕ} {key : String} (slot : ℕ)
    (h : assigned.lookup key = none) :
    heldSlots (assigned.insert key slot) = slot ::ₘ heldSlots assigned := by
  rw [heldSlots, Finmap.entries_insert_of_notMem (Finmap.lookup_eq_none.mp h), Multiset.map_cons]
  rfl

theorem heldSlots_erase {assigned : Finmap fun _ : String => ℕ} {key : String} {slot : ℕ}
    (h : assigned.lookup key = some slot) :
    heldSlots assigned = slot ::ₘ heldSlots (assigned.erase key) := by
  have hinsert : (assigned.erase key).insert key slot = assigned := by
    refine Finmap.ext_lookup fun other => ?_
    by_cases hother : other = key
    · rw [hother, Finmap.lookup_insert, h]
    · rw [Finmap.lookup_insert_of_ne _ hother, Finmap.lookup_erase_ne hother]
  conv_lhs => rw [← hinsert]
  exact heldSlots_insert slot (Finmap.lookup_erase key assigned)

theorem mem_heldSlots {assigned : Finmap fun _ : String => ℕ} {slot : ℕ} :
    slot ∈ heldSlots assigned ↔ ∃ key, assigned.lookup key = some slot := by
  rw [heldSlots, Multiset.mem_map]
  constructor
  · rintro ⟨⟨key, slot⟩, hmem, rfl⟩
    exact ⟨key, Finmap.mem_lookup_iff.mpr hmem⟩
  · rintro ⟨key, h⟩
    exact ⟨⟨key, slot⟩, Finmap.mem_lookup_iff.mp h, rfl⟩

variable {s}

namespace Partitioned

variable (h : s.Partitioned)
include h

theorem nodup : ((s.freeSlots : Multiset ℕ) + heldSlots s.assignedSlots).Nodup := by
  rw [h]
  exact Multiset.nodup_range _

theorem lt_capacity_iff {slot : ℕ} :
    slot < s.capacity ↔ slot ∈ s.freeSlots ∨ ∃ requestId, s.slotOf requestId = some slot := by
  have hrange : slot ∈ (s.freeSlots : Multiset ℕ) + heldSlots s.assignedSlots ↔
      slot < s.capacity := by
    rw [h, Multiset.mem_range]
  rw [← hrange, Multiset.mem_add, Multiset.mem_coe, mem_heldSlots]
  refine or_congr_right ⟨fun ⟨key, hkey⟩ => ⟨⟨key⟩, hkey⟩, fun ⟨requestId, hid⟩ => ⟨_, hid⟩⟩

theorem nodup_freeSlots : s.freeSlots.Nodup :=
  Multiset.coe_nodup.mp (Multiset.nodup_add.mp h.nodup).1

theorem slotOf_ne_of_mem {slot : ℕ} (hslot : slot ∈ s.freeSlots) (requestId : RequestId) :
    s.slotOf requestId ≠ some slot := fun hid =>
  Multiset.disjoint_left.mp (Multiset.nodup_add.mp h.nodup).2.2 (Multiset.mem_coe.mpr hslot)
    (mem_heldSlots.mpr ⟨_, hid⟩)

/-- Two requests hold different slots. -/
theorem eq_of_slotOf {requestId requestId' : RequestId} {slot : ℕ}
    (hid : s.slotOf requestId = some slot) (hid' : s.slotOf requestId' = some slot) :
    requestId = requestId' := by
  by_contra hne
  have hkey : requestId'.asStr ≠ requestId.asStr := fun heq =>
    hne (RequestId.eq_of_asStr heq.symm)
  have hrest : slot ∈ heldSlots (s.assignedSlots.erase requestId.asStr) :=
    mem_heldSlots.mpr ⟨_, (Finmap.lookup_erase_ne hkey).trans hid'⟩
  have hnodup := (Multiset.nodup_add.mp h.nodup).2.1
  rw [heldSlots_erase hid, Multiset.nodup_cons] at hnodup
  exact hnodup.1 hrest

end Partitioned

theorem partitioned_new {capacity : ℕ} (h : new capacity = .ok s) : s.Partitioned := by
  unfold new at h
  split_ifs at h
  obtain rfl := Except.ok.inj h
  rw [Partitioned, ← Multiset.coe_reverse, List.reverse_reverse]
  exact add_zero _

theorem Partitioned.release (h : s.Partitioned) (requestId : RequestId) :
    (s.release requestId).1.Partitioned := by
  unfold RecurrentStateSlots.release
  split
  case h_1 => exact h
  case h_2 slot hslot =>
    rw [Partitioned, heldSlots_erase hslot] at h
    rw [Partitioned, ← h, ← Multiset.coe_add, add_assoc]
    rfl

/-! ### A batch -/

section Grant

variable {requestId : RequestId} {slot : ℕ}

theorem slotOf_grant (other : RequestId) :
    (s.grant requestId slot).slotOf other =
      if other = requestId then some slot else s.slotOf other := by
  split_ifs with heq
  · rw [heq]
    exact Finmap.lookup_insert _
  · exact Finmap.lookup_insert_of_ne _ fun hkey => heq (RequestId.eq_of_asStr hkey)

theorem Partitioned.grant (h : s.Partitioned) (hid : s.slotOf requestId = none)
    (hlast : s.freeSlots.getLast? = some slot) : (s.grant requestId slot).Partitioned := by
  have hfree : s.freeSlots.dropLast ++ [slot] = s.freeSlots := List.dropLast_append_getLast? _ hlast
  rw [Partitioned, ← hfree, ← Multiset.coe_add, add_assoc] at h
  rw [Partitioned, RecurrentStateSlots.grant, heldSlots_insert slot hid]
  exact h

end Grant

/-- What a batch does to the pool: afterwards `slots` are the slots of its requests, `newlyAssigned`
those of the requests that held none, and nothing else has changed. -/
structure Assigns (s s' : RecurrentStateSlots) (requestIds : List RequestId)
    (slots newlyAssigned : List ℕ) : Prop where
  partitioned : s'.Partitioned
  capacity_eq : s'.capacity = s.capacity
  slots_eq : requestIds.map s'.slotOf = slots.map some
  newlyAssigned_eq :
    (requestIds.filter fun requestId => s.slotOf requestId = none).map s'.slotOf =
      newlyAssigned.map some
  kept : ∀ requestId slot, s.slotOf requestId = some slot → s'.slotOf requestId = some slot
  others : ∀ requestId ∉ requestIds, s'.slotOf requestId = s.slotOf requestId

/-- A request that holds a slot keeps it. -/
theorem Assigns.cons_held {s' : RecurrentStateSlots} {requestId : RequestId}
    {requestIds : List RequestId} {slot : ℕ} {slots newlyAssigned : List ℕ}
    (h : Assigns s s' requestIds slots newlyAssigned) (hid : s.slotOf requestId = some slot) :
    Assigns s s' (requestId :: requestIds) (slot :: slots) newlyAssigned where
  partitioned := h.partitioned
  capacity_eq := h.capacity_eq
  slots_eq := by rw [List.map_cons, List.map_cons, h.slots_eq, h.kept _ _ hid]
  newlyAssigned_eq := by
    rw [List.filter_cons_of_neg (by simp [hid]), h.newlyAssigned_eq]
  kept := h.kept
  others other hother := h.others other fun hmem => hother (List.mem_cons_of_mem _ hmem)

/-- A request that holds none gets a free one. -/
theorem Assigns.cons_granted {s' : RecurrentStateSlots} {requestId : RequestId}
    {requestIds : List RequestId} {slot : ℕ} {slots newlyAssigned : List ℕ}
    (h : Assigns (s.grant requestId slot) s' requestIds slots newlyAssigned)
    (hid : s.slotOf requestId = none) (hnot : requestId ∉ requestIds) :
    Assigns s s' (requestId :: requestIds) (slot :: slots) (slot :: newlyAssigned) := by
  have hself : s'.slotOf requestId = some slot := by
    rw [h.others requestId hnot, slotOf_grant, if_pos rfl]
  have hsame : (requestIds.filter fun other => (s.grant requestId slot).slotOf other = none) =
      requestIds.filter fun other => s.slotOf other = none := by
    refine List.filter_congr fun other hother => ?_
    have hne : other ≠ requestId := fun heq => hnot (heq ▸ hother)
    rw [slotOf_grant, if_neg hne]
  refine ⟨h.partitioned, h.capacity_eq, ?_, ?_, fun other held hheld => ?_,
    fun other hother => ?_⟩
  · rw [List.map_cons, List.map_cons, h.slots_eq, hself]
  · rw [List.filter_cons_of_pos (by simp [hid]), List.map_cons, List.map_cons, hself, ← hsame,
      h.newlyAssigned_eq]
  · have hne : other ≠ requestId := fun heq => by simp [heq, hid] at hheld
    refine h.kept other held ?_
    rw [slotOf_grant, if_neg hne, hheld]
  · have hne : other ≠ requestId := fun heq => hother (heq ▸ List.mem_cons_self)
    rw [h.others other fun hmem => hother (List.mem_cons_of_mem _ hmem), slotOf_grant, if_neg hne]

/-- **The loop of a batch.** If there are as many free slots as are counted then the loop does not
run out of them. -/
theorem assignSlots_spec {requestIds : List RequestId} (h : s.Partitioned)
    (hnodup : requestIds.Nodup) (hroom : s.required requestIds ≤ s.freeSlots.length)
    (batch : RecurrentStateBatchSlots) :
    ∃ s' slots newlyAssigned,
      s.assignSlots batch requestIds =
        (s', .ok ⟨batch.slots ++ slots, batch.newlyAssigned ++ newlyAssigned⟩) ∧
      Assigns s s' requestIds slots newlyAssigned := by
  induction requestIds generalizing s batch with
  | nil =>
    exact ⟨s, [], [], by simp [assignSlots], h, rfl, rfl, rfl, fun _ _ => id, fun _ _ => rfl⟩
  | cons requestId requestIds ih =>
    obtain ⟨hnot, hnodup⟩ := List.nodup_cons.mp hnodup
    rw [assignSlots]
    cases hid : s.assignedSlots.lookup requestId.asStr with
    | some slot =>
      have hheld : requestId.asStr ∈ s.assignedSlots := Finmap.mem_iff.mpr ⟨slot, hid⟩
      rw [required, List.filter_cons_of_neg (by simpa using hheld)] at hroom
      obtain ⟨s', slots, newlyAssigned, heq, hassigns⟩ :=
        ih h hnodup hroom { batch with slots := batch.slots ++ [slot] }
      refine ⟨s', slot :: slots, newlyAssigned, ?_, hassigns.cons_held hid⟩
      simpa using heq
    | none =>
      have hmissing : requestId.asStr ∉ s.assignedSlots := Finmap.lookup_eq_none.mp hid
      rw [required, List.filter_cons_of_pos (by simpa using hmissing), List.length_cons] at hroom
      have hne : s.freeSlots ≠ [] := List.ne_nil_of_length_pos (by omega)
      obtain ⟨slot, hslot⟩ : ∃ slot, s.freeSlots.getLast? = some slot :=
        ⟨_, List.getLast?_eq_some_getLast hne⟩
      have hroom' : (s.grant requestId slot).required requestIds ≤
          (s.grant requestId slot).freeSlots.length := by
        have hsame : (s.grant requestId slot).required requestIds = s.required requestIds := by
          refine congrArg List.length (List.filter_congr fun other hother => ?_)
          have hother : other.asStr ≠ requestId.asStr := fun heq =>
            hnot (RequestId.eq_of_asStr heq ▸ hother)
          simp [RecurrentStateSlots.grant, Finmap.mem_insert, hother]
        rw [hsame, RecurrentStateSlots.grant, List.length_dropLast, required]
        omega
      obtain ⟨s', slots, newlyAssigned, heq, hassigns⟩ :=
        ih (h.grant hid hslot) hnodup hroom' ⟨batch.slots ++ [slot], batch.newlyAssigned ++ [slot]⟩
      refine ⟨s', slot :: slots, slot :: newlyAssigned, ?_, hassigns.cons_granted hid hnot⟩
      simpa [hslot] using heq

theorem findDuplicate_eq_none_iff {seen requestIds : List RequestId} :
    findDuplicate seen requestIds = none ↔
      (∀ requestId ∈ requestIds, requestId ∉ seen) ∧ requestIds.Nodup := by
  induction requestIds generalizing seen with
  | nil => simp [findDuplicate]
  | cons requestId requestIds ih =>
    rw [findDuplicate]
    split_ifs with hseen
    · simp [hseen]
    · rw [ih, List.nodup_cons]
      constructor
      · rintro ⟨hall, hnodup⟩
        refine ⟨List.forall_mem_cons.mpr ⟨hseen, fun other hother hmem => ?_⟩,
          fun hmem => hall requestId hmem List.mem_cons_self, hnodup⟩
        exact hall other hother (List.mem_cons_of_mem _ hmem)
      · rintro ⟨hall, hnot, hnodup⟩
        refine ⟨fun other hother hmem => ?_, hnodup⟩
        rcases List.mem_cons.mp hmem with rfl | hmem
        · exact hnot hother
        · exact (List.forall_mem_cons.mp hall).2 other hother hmem

/-- A batch is rejected and changes nothing, or the loop hands out all its slots. -/
theorem assignBatch_cases (h : s.Partitioned) (requestIds : List RequestId) :
    (∃ e, s.assignBatch requestIds = (s, .error e)) ∨
      ∃ s' batch, s.assignBatch requestIds = (s', .ok batch) ∧
        Assigns s s' requestIds batch.slots batch.newlyAssigned := by
  rw [assignBatch]
  cases hduplicate : findDuplicate [] requestIds with
  | some requestId => exact .inl ⟨_, rfl⟩
  | none =>
    by_cases hroom : s.required requestIds > s.freeSlots.length
    · exact .inl ⟨_, by rw [if_pos hroom]⟩
    · obtain ⟨s', slots, newlyAssigned, heq, hassigns⟩ := assignSlots_spec h
        (findDuplicate_eq_none_iff.mp hduplicate).2 (Nat.not_lt.mp hroom) ⟨[], []⟩
      exact .inr ⟨s', ⟨slots, newlyAssigned⟩, by rw [if_neg hroom]; simpa using heq, hassigns⟩

/-- A batch gets its slots exactly if no request is named twice and the free slots suffice. -/
theorem assignBatch_eq_ok_iff (h : s.Partitioned) {requestIds : List RequestId} :
    (∃ s' batch, s.assignBatch requestIds = (s', .ok batch)) ↔
      requestIds.Nodup ∧ s.required requestIds ≤ s.freeSlots.length := by
  have hnodup : findDuplicate [] requestIds = none ↔ requestIds.Nodup := by
    simp [findDuplicate_eq_none_iff]
  rw [assignBatch, ← hnodup]
  cases hduplicate : findDuplicate [] requestIds with
  | some requestId => simp
  | none =>
    by_cases hroom : s.required requestIds > s.freeSlots.length
    · simp [hroom]
    · obtain ⟨s', slots, newlyAssigned, heq, -⟩ :=
        assignSlots_spec h (hnodup.mp hduplicate) (Nat.not_lt.mp hroom) ⟨[], []⟩
      rw [if_neg hroom, heq]
      simpa using hroom

/-! ### Runs -/

theorem Partitioned.apply (h : s.Partitioned) (call : Call) : (s.apply call).Partitioned := by
  cases call with
  | release requestId => exact h.release requestId
  | assignBatch requestIds =>
    rw [RecurrentStateSlots.apply]
    obtain ⟨e, heq⟩ | ⟨s', batch, heq, hassigns⟩ := assignBatch_cases h requestIds
    · rw [heq]
      exact h
    · rw [heq]
      exact hassigns.partitioned

theorem capacity_apply (h : s.Partitioned) (call : Call) :
    (s.apply call).capacity = s.capacity := by
  cases call with
  | release requestId =>
    rw [RecurrentStateSlots.apply, RecurrentStateSlots.release]
    split <;> rfl
  | assignBatch requestIds =>
    rw [RecurrentStateSlots.apply]
    obtain ⟨e, heq⟩ | ⟨s', batch, heq, hassigns⟩ := assignBatch_cases h requestIds
    · rw [heq]
    · rw [heq]
      exact hassigns.capacity_eq

/-- After every run the slots of the pool are partitioned into free ones and ones held. -/
theorem partitioned_run {capacity : ℕ} {s₀ : RecurrentStateSlots} (hnew : new capacity = .ok s₀)
    (calls : List Call) :
    (calls.foldl RecurrentStateSlots.apply s₀).Partitioned ∧
      (calls.foldl RecurrentStateSlots.apply s₀).capacity = capacity := by
  have hcapacity : s₀.capacity = capacity := by
    unfold new at hnew
    split_ifs at hnew
    obtain rfl := Except.ok.inj hnew
    rfl
  refine Transition.foldl_invariant (P := fun _ _ => True)
    (I := fun s : RecurrentStateSlots => s.Partitioned ∧ s.capacity = capacity) ?_
    (Transition.along_of_forall (fun _ _ => trivial) _ _) ⟨partitioned_new hnew, hcapacity⟩
  exact fun s call _ hs => ⟨hs.1.apply call, (capacity_apply hs.1 call).trans hs.2⟩

end RecurrentStateSlots

open RecurrentStateSlots in
/-- **The slot pool is exact.** After every sequence of batches and releases the free list has no
duplicates, the slots below the capacity are those in the free list and those held, no slot is both,
and no two requests hold the same one. A batch is accepted exactly if no request is named twice and
there is a free slot for each request without one. A batch that is rejected changes nothing. One
that is accepted returns for every request the slot it holds afterwards, and as newly assigned the
slots of the requests that held none before, in order; all other requests are left alone. The loop
of a batch that passes the checks never runs out of slots.

Source: `recurrent_state.rs`, lines 29–101. -/
theorem recurrent_slots_exact {capacity : ℕ} {s₀ : RecurrentStateSlots}
    (hnew : new capacity = .ok s₀) (calls : List Call) :
    let s := calls.foldl RecurrentStateSlots.apply s₀
    s.freeSlots.Nodup ∧
    (∀ slot, slot < capacity ↔ slot ∈ s.freeSlots ∨ ∃ requestId, s.slotOf requestId = some slot) ∧
    (∀ slot ∈ s.freeSlots, ∀ requestId, s.slotOf requestId ≠ some slot) ∧
    (∀ requestId requestId' slot, s.slotOf requestId = some slot →
      s.slotOf requestId' = some slot → requestId = requestId') ∧
    ∀ requestIds,
      ((∃ s' batch, s.assignBatch requestIds = (s', .ok batch)) ↔
        requestIds.Nodup ∧ s.required requestIds ≤ s.freeSlots.length) ∧
      (∀ s' e, s.assignBatch requestIds = (s', .error e) → s' = s) ∧
      (∀ s' batch, s.assignBatch requestIds = (s', .ok batch) →
        requestIds.map s'.slotOf = batch.slots.map some ∧
        (requestIds.filter fun requestId => s.slotOf requestId = none).map s'.slotOf =
          batch.newlyAssigned.map some ∧
        ∀ requestId ∉ requestIds, s'.slotOf requestId = s.slotOf requestId) ∧
      (findDuplicate [] requestIds = none → s.required requestIds ≤ s.freeSlots.length →
        ∃ s' batch, s.assignSlots ⟨[], []⟩ requestIds = (s', .ok batch)) := by
  intro s
  obtain ⟨hs, hcapacity⟩ := partitioned_run hnew calls
  refine ⟨hs.nodup_freeSlots, fun slot => hcapacity ▸ hs.lt_capacity_iff,
    fun slot hslot => hs.slotOf_ne_of_mem hslot, fun _ _ _ => hs.eq_of_slotOf,
    fun requestIds => ⟨assignBatch_eq_ok_iff hs, fun s' e heq => ?_, fun s' batch heq => ?_,
      fun hduplicate hroom => ?_⟩⟩
  · obtain ⟨e', heq'⟩ | ⟨s'', batch, heq', -⟩ := assignBatch_cases hs requestIds
    · rw [heq'] at heq
      exact (Prod.mk.inj heq).1.symm
    · rw [heq'] at heq
      cases heq
  · obtain ⟨e', heq'⟩ | ⟨s'', batch', heq', hassigns⟩ := assignBatch_cases hs requestIds
    · rw [heq'] at heq
      cases heq
    · rw [heq'] at heq
      cases heq
      exact ⟨hassigns.slots_eq, hassigns.newlyAssigned_eq, hassigns.others⟩
  · obtain ⟨s', slots, newlyAssigned, heq, -⟩ := assignSlots_spec hs
      (findDuplicate_eq_none_iff.mp hduplicate).2 hroom ⟨[], []⟩
    exact ⟨s', _, heq⟩

open RecurrentStateSlots in
/-- The theorem applied to a pool of two slots: the one given back by the first request is taken
again by the third, and the second keeps its own. -/
theorem recurrent_slots_exact_of_reuse :
    let s := [Call.assignBatch [⟨"a"⟩, ⟨"b"⟩], .release ⟨"a"⟩].foldl RecurrentStateSlots.apply
      ⟨2, [1, 0], ∅⟩
    (s.assignBatch [⟨"c"⟩, ⟨"b"⟩]).2 = .ok ⟨[0, 1], [0]⟩ ∧
      [RequestId.mk "c", ⟨"b"⟩].map (s.assignBatch [⟨"c"⟩, ⟨"b"⟩]).1.slotOf = [some 0, some 1] ∧
      (s.assignBatch [⟨"c"⟩, ⟨"b"⟩]).1.slotOf ⟨"a"⟩ = none := by
  intro s
  have hnew : new 2 = .ok ⟨2, [1, 0], ∅⟩ := rfl
  obtain ⟨-, -, -, -, hbatches⟩ :=
    recurrent_slots_exact hnew [.assignBatch [⟨"a"⟩, ⟨"b"⟩], .release ⟨"a"⟩]
  obtain ⟨haccepted, -, hslots, -⟩ := hbatches [⟨"c"⟩, ⟨"b"⟩]
  have hbatch : (s.assignBatch [⟨"c"⟩, ⟨"b"⟩]).2 = .ok ⟨[0, 1], [0]⟩ := by decide
  obtain ⟨s', batch, heq⟩ := haccepted.mpr ⟨by decide, by decide⟩
  obtain rfl : batch = ⟨[0, 1], [0]⟩ := by
    rw [heq] at hbatch
    exact Except.ok.inj hbatch
  obtain ⟨hheld, -, hothers⟩ := hslots s' _ heq
  rw [heq]
  exact ⟨rfl, hheld, hothers ⟨"a"⟩ (by decide)⟩

end SglangRs
