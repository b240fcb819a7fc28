import Mathlib.Data.List.Dedup
import Mathlib.Data.List.Sort
import Mathlib.Algebra.Order.BigOperators.Group.List
import SglangRs.Scheduler.WorkerBatch

/-!
# The descriptor the graph runner receives

The graph runner flattens a batch of the scheduler a second time, into the arrays a captured graph
is replayed on (`graph_runner.rs`, lines 119–253). The batch of the model runner
(`SglangRs.Scheduler.WorkerBatch`) is built from the chunk a request is prepared for: its length and
the number of prompt tokens processed before. The descriptor is built from the prefix match of the
request: every token behind the prefix found at the first match. Both take the slots to be written
from the slots allocated for the forward pass. The two flattenings of a batch agree if and only if
every prompt is forwarded from the end of its cached prefix to its end, and no request decodes
before it has generated a token, unless its prompt ends in the token that the model runner puts in
the place of a generated one.

## Main definitions

* `ModelInputDescriptor`, `ModelInputDescriptor.fromScheduleBatch`: the descriptor of a batch.
* `ModelInputDescriptor.Agrees`: the descriptor and the batch of the model runner describe the same
  forward pass.
* `ScheduledRequest.LoweredAlike`: the two flattenings of a request are the same.

## Main results

* `agrees_iff`: the two flattenings of a batch whose slots were allocated by chunk agree if and only
  if those of every request do.
-/

namespace SglangRs

inductive GraphRunnerError where
  | emptyBuckets
  | unsortedBuckets
  | zeroBucket
  | emptyBatch
  | zeroPageSize
  | bucketPaddingOverflow (requested bucket : ℕ)
  | modelForward (error : ModelForwardError)
deriving DecidableEq, Repr

structure ModelInputDescriptor where
  forwardMode : ForwardMode
  batchSize : ℕ
  totalTokens : ℕ := 0
  inputIds : List UInt32 := []
  positions : List ℕ := []
  contextLens : List ℕ := []
  slotMapping : List ℕ := []
  blockTables : List (List ℕ) := []
  requestIds : List RequestId := []
  scheduleBatch : Option ScheduleBatch
deriving DecidableEq, Repr

namespace ScheduledRequest

/-- The token a request is decoded from: the last one generated, else the last one of the prompt. -/
def lastTokenId (r : ScheduledRequest) : UInt32 :=
  (r.outputIds.getLast?.or r.inputIds.getLast?).getD 0

/-- The pages of a sequence, in increasing order. -/
def blockTable (r : ScheduledRequest) (pageSize : ℕ) : List ℕ :=
  (r.sequenceCachePages.map (· / pageSize)).dedup.insertionSort (· ≤ ·)

end ScheduledRequest

namespace ModelInputDescriptor

/-- Source: `graph_runner.rs`, lines 142–156. -/
def pushPrefillRows (d : ModelInputDescriptor) (request : ScheduledRequest) :
    ModelInputDescriptor :=
  { d with
    contextLens := d.contextLens ++ [request.inputIds.length]
    inputIds := d.inputIds ++ request.uncachedInputIds
    positions := d.positions ++
      (List.range request.uncachedInputIds.length).map (request.forwardPrefixTokenCount + ·)
    slotMapping := d.slotMapping ++ request.forwardCachePages }

/-- Source: `graph_runner.rs`, lines 157–177. -/
def pushDecodeRow (d : ModelInputDescriptor) (request : ScheduledRequest) :
    ModelInputDescriptor :=
  let seqLen := request.inputIds.length + request.outputIds.length
  { d with
    contextLens := d.contextLens ++ [seqLen]
    inputIds := d.inputIds ++ [request.lastTokenId]
    positions := d.positions ++ [seqLen - 1]
    slotMapping := d.slotMapping ++ [request.forwardCachePages.head?.getD 0] }

/-- Source: `graph_runner.rs`, lines 138–225. -/
def pushRequest (forwardMode : ForwardMode) (pageSize : ℕ) (d : ModelInputDescriptor)
    (request : ScheduledRequest) : ModelInputDescriptor :=
  let d := { d with
    requestIds := d.requestIds ++ [request.requestId]
    blockTables := d.blockTables ++ [request.blockTable pageSize] }
  match forwardMode with
  | .prefill => d.pushPrefillRows request
  | .decode => d.pushDecodeRow request
  | .mixed =>
      if request.stage = .decodeForward ∨ ¬request.outputIds.isEmpty then d.pushDecodeRow request
      else d.pushPrefillRows request

/-- Block tables of one width, the shorter ones filled up with page 0. -/
def alignBlockTables (tables : List (List ℕ)) : List (List ℕ) :=
  let maxBlocks := max ((tables.map List.length).max?.getD 1) 1
  tables.map fun table => table.rightpad maxBlocks 0

/-- The descriptor of a batch that is not empty. -/
def describe (batch : ScheduleBatch) (pageSize : ℕ) : ModelInputDescriptor :=
  let d := batch.requests.foldl (pushRequest batch.forwardMode pageSize)
    { forwardMode := batch.forwardMode
      batchSize := batch.requests.length
      scheduleBatch := some batch }
  { d with
    blockTables := alignBlockTables d.blockTables
    totalTokens := d.inputIds.length }

/-- Source: `graph_runner.rs`, lines 119–253. -/
def fromScheduleBatch (batch : ScheduleBatch) (pageSize : ℕ) :
    Except GraphRunnerError ModelInputDescriptor :=
  if batch.requests.length = 0 then .error .emptyBatch
  else if pageSize = 0 then .error .zeroPageSize
  else .ok (describe batch pageSize)

/-- The descriptor and the batch of the model runner describe the same forward pass, and every token
of the descriptor has a position and a slot. -/
structure Agrees (d : ModelInputDescriptor) (b : ModelWorkerBatch) : Prop where
  inputIds : d.inputIds = b.inputIds
  positions : d.positions = b.positions
  slotMapping : d.slotMapping = b.outCachePages
  length_positions : d.inputIds.length = d.positions.length
  length_slotMapping : d.inputIds.length = d.slotMapping.length

theorem agrees_iff_eq {d : ModelInputDescriptor} {b : ModelWorkerBatch} :
    d.Agrees b ↔ d.inputIds = b.inputIds ∧ d.positions = b.positions ∧
      d.slotMapping = b.outCachePages ∧ d.inputIds.length = d.positions.length ∧
        d.inputIds.length = d.slotMapping.length :=
  ⟨fun h => ⟨h.inputIds, h.positions, h.slotMapping, h.length_positions, h.length_slotMapping⟩,
    fun ⟨h₁, h₂, h₃, h₄, h₅⟩ => ⟨h₁, h₂, h₃, h₄, h₅⟩⟩

end ModelInputDescriptor

/-! ### Arrays built request by request -/

section Arrays

variable {α β D : Type*}

/-- An array to which every request appends its part. -/
theorem foldl_eq_append_flatMap {push : D → β → D} {array : D → List α} {part : β → List α}
    {l : List β} (h : ∀ x ∈ l, ∀ d, array (push d x) = array d ++ part x) (d : D) :
    array (l.foldl push d) = array d ++ l.flatMap part := by
  induction l generalizing d with
  | nil => simp
  | cons x l ih =>
    rw [List.foldl_cons, ih fun y hy => h y (List.mem_cons_of_mem _ hy),
      h x List.mem_cons_self, List.flatMap_cons, List.append_assoc]

/-- A field that no request changes. -/
theorem foldl_unchanged {γ : Type*} {push : D → β → D} {field : D → γ}
    (h : ∀ d x, field (push d x) = field d) (l : List β) (d : D) :
    field (l.foldl push d) = field d := by
  induction l generalizing d with
  | nil => rfl
  | cons x l ih => rw [List.foldl_cons, ih, h]

/-- Arrays that are equal are equal part by part if the parts have the same lengths. -/
theorem eq_of_flatMap_eq {f g : β → List α} {l : List β} (h : l.flatMap f = l.flatMap g)
    (hlength : ∀ x ∈ l, (f x).length = (g x).length) : ∀ x ∈ l, f x = g x := by
  induction l with
  | nil => simp
  | cons x l ih =>
    rw [List.flatMap_cons, List.flatMap_cons] at h
    obtain ⟨hhead, htail⟩ := List.append_inj h (hlength x List.mem_cons_self)
    exact List.forall_mem_cons.mpr
      ⟨hhead, ih htail fun y hy => hlength y (List.mem_cons_of_mem _ hy)⟩

/-- Parts that are at most as long as others, and as long in total, are as long. -/
theorem length_eq_of_length_flatMap_eq {γ : Type*} {f : β → List α} {g : β → List γ} {l : List β}
    (hle : ∀ x ∈ l, (g x).length ≤ (f x).length)
    (h : (l.flatMap f).length = (l.flatMap g).length) : ∀ x ∈ l, (g x).length = (f x).length := by
  induction l with
  | nil => simp
  | cons x l ih =>
    rw [List.flatMap_cons, List.flatMap_cons, List.length_append, List.length_append] at h
    have hhead := hle x List.mem_cons_self
    have hrest (y : β) (hy : y ∈ l) := hle y (List.mem_cons_of_mem _ hy)
    have htail : (l.flatMap g).length ≤ (l.flatMap f).length := by
      rw [List.length_flatMap, List.length_flatMap]
      exact List.sum_le_sum hrest
    exact List.forall_mem_cons.mpr ⟨by omega, ih hrest (by omega)⟩

end Arrays

/-! ### The fields of a descriptor -/

namespace ModelInputDescriptor

/-- Rows are pushed to the arrays only. -/
theorem frame_pushRequest (forwardMode : ForwardMode) (pageSize : ℕ) (d : ModelInputDescriptor)
    (r : ScheduledRequest) :
    (pushRequest forwardMode pageSize d r).forwardMode = d.forwardMode ∧
      (pushRequest forwardMode pageSize d r).batchSize = d.batchSize ∧
      (pushRequest forwardMode pageSize d r).scheduleBatch = d.scheduleBatch ∧
      (pushRequest forwardMode pageSize d r).requestIds = d.requestIds ++ [r.requestId] := by
  unfold pushRequest
  cases forwardMode with
  | prefill => exact ⟨rfl, rfl, rfl, rfl⟩
  | decode => exact ⟨rfl, rfl, rfl, rfl⟩
  | mixed =>
    dsimp only
    split_ifs
    · exact ⟨rfl, rfl, rfl, rfl⟩
    · exact ⟨rfl, rfl, rfl, rfl⟩

variable (batch : ScheduleBatch) (pageSize : ℕ)

@[simp] theorem forwardMode_describe :
    (describe batch pageSize).forwardMode = batch.forwardMode :=
  foldl_unchanged (fun d r => (frame_pushRequest _ _ d r).1) _ _

@[simp] theorem batchSize_describe :
    (describe batch pageSize).batchSize = batch.requests.length :=
  foldl_unchanged (fun d r => (frame_pushRequest _ _ d r).2.1) _ _

@[simp] theorem scheduleBatch_describe :
    (describe batch pageSize).scheduleBatch = some batch :=
  foldl_unchanged (fun d r => (frame_pushRequest _ _ d r).2.2.1) _ _

@[simp] theorem requestIds_describe :
    (describe batch pageSize).requestIds = batch.requests.map (·.requestId) := by
  rw [List.map_eq_flatMap]
  exact foldl_eq_append_flatMap (fun r _ d => (frame_pushRequest _ _ d r).2.2.2) _

/-- A decoded request adds one token and one slot. -/
theorem rows_describe_of_decode {batch : ScheduleBatch} (h : batch.forwardMode = .decode) :
    (describe batch pageSize).inputIds = batch.requests.map (·.lastTokenId) ∧
      (describe batch pageSize).slotMapping =
        batch.requests.map (·.forwardCachePages.head?.getD 0) := by
  simp only [describe, List.map_eq_flatMap, h]
  exact ⟨foldl_eq_append_flatMap (fun _ _ _ => rfl) _, foldl_eq_append_flatMap (fun _ _ _ => rfl) _⟩

end ModelInputDescriptor

/-! ### The two flattenings of a request -/

/-- What a request adds to the tokens, the positions and the slots of a forward pass. -/
structure ForwardRows where
  inputIds : List UInt32
  positions : List ℕ
  slots : List ℕ
deriving DecidableEq

namespace ScheduledRequest

variable (r : ScheduledRequest)

/-- What a request adds to the descriptor. -/
def describedRows : ForwardRows :=
  if r.stage = .decodeForward then
    ⟨[r.lastTokenId], [r.inputIds.length + r.outputIds.length - 1],
      [r.forwardCachePages.head?.getD 0]⟩
  else
    ⟨r.uncachedInputIds,
      (List.range r.uncachedInputIds.length).map (r.forwardPrefixTokenCount + ·),
      r.forwardCachePages⟩

/-- What a request adds to the batch of the model runner. -/
def forwardedRows : ForwardRows :=
  if r.stage = .decodeForward then
    ⟨[r.outputIds.getLast?.getD 0], [r.decodePosition], r.forwardCachePages⟩
  else
    ⟨(r.inputIds.take r.chunkEnd).drop r.chunkStart,
      (List.range (r.chunkEnd - r.chunkStart)).map (r.chunkStart + ·), r.forwardCachePages⟩

/-- The two flattenings of a request are the same. A prompt is forwarded from the end of the cached
prefix found at the first match to its end. A request that decodes has generated a token; if it has
not, its prompt ends in the token that the model runner takes instead. -/
def LoweredAlike : Prop :=
  if r.stage = .decodeForward then r.outputIds ≠ [] ∨ r.inputIds.getLast? = some 0
  else r.promptTokensProcessed = r.forwardPrefixTokenCount ∧
    r.promptTokensProcessed + r.currentChunkLen = r.inputIds.length

instance : Decidable r.LoweredAlike := by
  unfold LoweredAlike
  infer_instance

/-- A request whose slots were allocated for a chunk of its prompt. -/
structure ChunkAllocated : Prop where
  outputs_eq : r.outputIds = []
  chunk_le : r.promptTokensProcessed + r.currentChunkLen ≤ r.inputIds.length
  matched_le : r.forwardPrefixTokenCount ≤ r.promptTokensProcessed
  uncached_eq : r.uncachedInputIds = r.inputIds.drop r.forwardPrefixTokenCount
  prefix_eq : r.prefixCachePages.length = r.forwardPrefixTokenCount
  forward_eq : r.forwardCachePages.length = r.currentChunkLen

/-- A request whose slots were allocated for the forward pass of its stage. -/
def Allocated : Prop :=
  if r.stage = .decodeForward then r.forwardCachePages.length = 1 else r.ChunkAllocated

theorem length_describedRows :
    r.describedRows.positions.length = r.describedRows.inputIds.length := by
  unfold describedRows
  split_ifs
  · rfl
  · simp

variable {r}

/-- The descriptor has at most as many slots as tokens, and as many exactly if the chunk is all of
the prompt behind the cached prefix. -/
theorem Allocated.length_slots_le (h : r.Allocated) :
    r.describedRows.slots.length ≤ r.describedRows.inputIds.length ∧
      (r.describedRows.slots.length = r.describedRows.inputIds.length →
        r.stage ≠ .decodeForward → r.LoweredAlike) := by
  unfold Allocated at h
  unfold describedRows LoweredAlike
  split_ifs at h ⊢ with hstage
  · exact ⟨le_rfl, fun _ hne => absurd hstage hne⟩
  · have hchunk := h.chunk_le
    have hmatched := h.matched_le
    have huncached : r.uncachedInputIds.length = r.inputIds.length - r.forwardPrefixTokenCount := by
      rw [h.uncached_eq, List.length_drop]
    rw [h.forward_eq, huncached]
    exact ⟨by omega, fun heq _ => by omega⟩

theorem Allocated.length_slots_of_loweredAlike (h : r.Allocated) (halike : r.LoweredAlike) :
    r.describedRows.slots.length = r.describedRows.inputIds.length := by
  unfold Allocated at h
  unfold LoweredAlike at halike
  unfold describedRows
  split_ifs at h halike ⊢ with hstage
  · rfl
  · rw [h.forward_eq, h.uncached_eq, List.length_drop]
    omega

/-- A chunk that is all of the prompt behind the cached prefix. -/
theorem ChunkAllocated.chunk_eq (h : r.ChunkAllocated)
    (halike : r.promptTokensProcessed = r.forwardPrefixTokenCount ∧
      r.promptTokensProcessed + r.currentChunkLen = r.inputIds.length) :
    r.chunkStart = r.forwardPrefixTokenCount ∧ r.chunkEnd = r.inputIds.length := by
  obtain ⟨hprocessed, hend⟩ := halike
  have hstart : r.chunkStart = r.forwardPrefixTokenCount := by
    rw [chunkStart, h.prefix_eq, hprocessed, max_self]
  refine ⟨hstart, ?_⟩
  have huncached : r.uncachedInputIds.length = r.inputIds.length - r.forwardPrefixTokenCount := by
    rw [h.uncached_eq, List.length_drop]
  rw [chunkEnd, hstart, huncached]
  split_ifs <;> omega

theorem Allocated.forwardedRows_eq (h : r.Allocated) (halike : r.LoweredAlike) :
    r.describedRows = r.forwardedRows := by
  unfold Allocated at h
  unfold LoweredAlike at halike
  unfold describedRows forwardedRows
  split_ifs at h halike ⊢ with hstage
  · have htoken : r.lastTokenId = r.outputIds.getLast?.getD 0 := by
      unfold lastTokenId
      cases hlast : r.outputIds.getLast? with
      | some token => rfl
      | none =>
        rw [List.getLast?_eq_none_iff] at hlast
        simp [halike.resolve_left (not_not_intro hlast)]
    have hpos : 0 < r.inputIds.length + r.outputIds.length := by
      rcases halike with houtput | hinput
      · exact Nat.add_pos_right _ (List.length_pos_iff.mpr houtput)
      · exact Nat.add_pos_left (List.length_pos_of_mem (List.mem_of_getLast? hinput)) _
    obtain ⟨slot, hslot⟩ := List.length_eq_one_iff.mp h
    rw [htoken, hslot, decodePosition_eq hpos]
    rfl
  · obtain ⟨hstart, hend⟩ := h.chunk_eq halike
    rw [hstart, hend, List.take_length, h.uncached_eq, List.length_drop]

/-- Two tokens, one of them put in the place of a missing one. A request without any token would
have the positions 0 and `usizeMax`. -/
theorem loweredAlike_of_token (hstage : r.stage = .decodeForward)
    (htoken : r.lastTokenId = r.outputIds.getLast?.getD 0)
    (hposition : r.inputIds.length + r.outputIds.length - 1 = r.decodePosition) :
    r.LoweredAlike := by
  unfold LoweredAlike
  rw [if_pos hstage]
  by_cases hnil : r.outputIds = []
  · right
    cases hlast : r.inputIds.getLast? with
    | some token => simpa [lastTokenId, hnil, hlast] using htoken
    | none =>
      rw [List.getLast?_eq_none_iff] at hlast
      simp [decodePosition, hnil, hlast, usizeMax] at hposition
  · exact .inl hnil

end ScheduledRequest

/-! ### Batches -/

section Batches

variable {batch : ScheduleBatch} {pageSize : ℕ}

open ScheduledRequest

variable (pageSize) in
/-- What the requests of a batch add to the descriptor. -/
theorem ModelInputDescriptor.describe_eq_flatMap (hstaged : batch.Staged)
    (hallocated : ∀ r ∈ batch.requests, r.Allocated) :
    (describe batch pageSize).inputIds = batch.requests.flatMap (·.describedRows.inputIds) ∧
      (describe batch pageSize).positions = batch.requests.flatMap (·.describedRows.positions) ∧
      (describe batch pageSize).slotMapping = batch.requests.flatMap (·.describedRows.slots) := by
  have hpush (r : ScheduledRequest) (hr : r ∈ batch.requests) (d : ModelInputDescriptor) :
      (pushRequest batch.forwardMode pageSize d r).inputIds =
          d.inputIds ++ r.describedRows.inputIds ∧
        (pushRequest batch.forwardMode pageSize d r).positions =
          d.positions ++ r.describedRows.positions ∧
        (pushRequest batch.forwardMode pageSize d r).slotMapping =
          d.slotMapping ++ r.describedRows.slots := by
    have halloc := hallocated r hr
    unfold Allocated at halloc
    unfold pushRequest describedRows
    rcases hstaged r hr with ⟨hstage, hmode⟩ | ⟨hstage, hmode⟩
    · rw [if_neg (by simp [hstage])] at halloc ⊢
      cases hm : batch.forwardMode with
      | prefill => exact ⟨rfl, rfl, rfl⟩
      | decode => exact absurd hm hmode
      | mixed =>
        dsimp only
        rw [if_neg (by simp [hstage, halloc.outputs_eq])]
        exact ⟨rfl, rfl, rfl⟩
    · rw [if_pos hstage]
      cases hm : batch.forwardMode with
      | prefill => exact absurd hm hmode
      | decode => exact ⟨rfl, rfl, rfl⟩
      | mixed =>
        dsimp only
        rw [if_pos (.inl hstage)]
        exact ⟨rfl, rfl, rfl⟩
  exact ⟨foldl_eq_append_flatMap (fun r hr d => (hpush r hr d).1) _,
    foldl_eq_append_flatMap (fun r hr d => (hpush r hr d).2.1) _,
    foldl_eq_append_flatMap (fun r hr d => (hpush r hr d).2.2) _⟩

/-- What the requests of a batch add to the batch of the model runner. -/
theorem ModelWorkerBatch.fromScheduleBatch_eq_flatMap (hstaged : batch.Staged) :
    (fromScheduleBatch batch).inputIds = batch.requests.flatMap (·.forwardedRows.inputIds) ∧
      (fromScheduleBatch batch).positions = batch.requests.flatMap (·.forwardedRows.positions) ∧
      (fromScheduleBatch batch).outCachePages = batch.requests.flatMap (·.forwardedRows.slots) := by
  have hpush (r : ScheduledRequest) (hr : r ∈ batch.requests) (b : ModelWorkerBatch) :
      (pushRequest batch.forwardMode b r).inputIds = b.inputIds ++ r.forwardedRows.inputIds ∧
        (pushRequest batch.forwardMode b r).positions =
          b.positions ++ r.forwardedRows.positions ∧
        (pushRequest batch.forwardMode b r).outCachePages =
          b.outCachePages ++ r.forwardedRows.slots := by
    unfold pushRequest forwardedRows
    rcases hstaged r hr with ⟨hstage, hmode⟩ | ⟨hstage, hmode⟩
    · rw [if_neg (by simp [hstage])]
      cases hm : batch.forwardMode with
      | prefill => exact ⟨rfl, rfl, rfl⟩
      | decode => exact absurd hm hmode
      | mixed =>
        rw [hstage]
        exact ⟨rfl, rfl, rfl⟩
    · rw [if_pos hstage]
      cases hm : batch.forwardMode with
      | prefill => exact absurd hm hmode
      | decode => exact ⟨rfl, rfl, rfl⟩
      | mixed =>
        rw [hstage]
        exact ⟨rfl, rfl, rfl⟩
  exact ⟨foldl_eq_append_flatMap (fun r hr b => (hpush r hr b).1) _,
    foldl_eq_append_flatMap (fun r hr b => (hpush r hr b).2.1) _,
    foldl_eq_append_flatMap (fun r hr b => (hpush r hr b).2.2) _⟩

/-- **The two flattenings of a batch agree if and only if those of every request do.** The tokens
and slots of the descriptor are equal in number only if they are for every request, and then the
arrays can be compared request by request. -/
theorem agrees_iff (hstaged : batch.Staged) (hallocated : ∀ r ∈ batch.requests, r.Allocated) :
    (ModelInputDescriptor.describe batch pageSize).Agrees
        (ModelWorkerBatch.fromScheduleBatch batch) ↔
      ∀ r ∈ batch.requests, r.LoweredAlike := by
  obtain ⟨hids, hpositions, hslots⟩ :=
    ModelInputDescriptor.describe_eq_flatMap pageSize hstaged hallocated
  obtain ⟨hids', hpositions', hslots'⟩ := ModelWorkerBatch.fromScheduleBatch_eq_flatMap hstaged
  rw [ModelInputDescriptor.agrees_iff_eq, hids, hpositions, hslots, hids', hpositions', hslots']
  constructor
  · rintro ⟨heq, heqPositions, -, -, hlength⟩ r hr
    have hfull := length_eq_of_length_flatMap_eq
      (fun r hr => (hallocated r hr).length_slots_le.1) hlength
    have hprefill (r : ScheduledRequest) (hr : r ∈ batch.requests)
        (hstage : r.stage ≠ .decodeForward) : r.LoweredAlike :=
      (hallocated r hr).length_slots_le.2 (hfull r hr) hstage
    have htokens := eq_of_flatMap_eq heq fun r hr => by
      by_cases hstage : r.stage = .decodeForward
      · simp [describedRows, forwardedRows, hstage]
      · rw [(hallocated r hr).forwardedRows_eq (hprefill r hr hstage)]
    have hplaces := eq_of_flatMap_eq heqPositions fun r hr => by
      by_cases hstage : r.stage = .decodeForward
      · simp [describedRows, forwardedRows, hstage]
      · rw [(hallocated r hr).forwardedRows_eq (hprefill r hr hstage)]
    by_cases hstage : r.stage = .decodeForward
    · have htoken := htokens r hr
      have hposition := hplaces r hr
      refine loweredAlike_of_token hstage ?_ ?_
      · simpa [describedRows, forwardedRows, hstage] using htoken
      · simpa [describedRows, forwardedRows, hstage] using hposition
    · exact hprefill r hr hstage
  · intro halike
    have hrows (r : ScheduledRequest) (hr : r ∈ batch.requests) :
        r.describedRows = r.forwardedRows := (hallocated r hr).forwardedRows_eq (halike r hr)
    refine ⟨List.flatMap_congr fun r hr => by rw [hrows r hr],
      List.flatMap_congr fun r hr => by rw [hrows r hr],
      List.flatMap_congr fun r hr => by rw [hrows r hr], ?_, ?_⟩
    · rw [List.length_flatMap, List.length_flatMap]
      exact congrArg List.sum (List.map_congr_left fun r _ => r.length_describedRows.symm)
    · rw [List.length_flatMap, List.length_flatMap]
      exact congrArg List.sum (List.map_congr_left fun r hr =>
        ((hallocated r hr).length_slots_of_loweredAlike (halike r hr)).symm)

end Batches

end SglangRs
