import SglangRs.Scheduler.Operations
import SglangRs.Transfer.Destinations
import SglangRs.Transfer.Plan

/-!
# Positions on the two sides of a transfer

The prefill worker and the decode worker of a pair each form their own batches, with their own
prefix caches, chunk sizes and token budgets. What the prefill worker learns of the span of the
decode worker is a list of page numbers and the number of cached tokens
(`sglang-srt/src/transfer/pd_bootstrap.rs`, lines 993–1020). `build_remote_kv_transfer_requests`
pairs the pages of its own span with this list and compares how many they are; it does not look at
where the two spans start.

## Main definitions

* `PdDecodeBootstrapPublisher.metadataForSpan`: what the decode worker announces.
* `LayoutsFit`: the addresses of a transfer are well formed.
* `ScheduleBatch.Plans`, `PdDecodeBootstrapPublisher.Announces`: a span of a batch, and the layout
  that the prefill worker looks up once it is announced.
* `SamePositions`: page by page, two chunks are for the same stretch of the prompt.

## Main results

* `buildRemoteKvTransferRequests_ok_iff`: when the requests are built.
* `ScheduleBatch.Plans.writes`: which positions of the prompt a page of a span holds.
* `samePositions_iff`: when every transfer that goes ahead copies every page to its place.
* `exists_misplaced_page`: a chunk of a prompt is copied to the pages of another stretch.
-/

namespace SglangRs

/-! ### Requests that are built -/

section Build

variable {ε α β : Type}

theorem exists_bind_ok {x : Except ε α} {f : α → Except ε β} :
    (∃ b, (x >>= f) = .ok b) ↔ ∃ a, x = .ok a ∧ ∃ b, f a = .ok b := by
  cases x with
  | error e => simp [bind, Except.bind]
  | ok a => simp [bind, Except.bind]

theorem exists_checked_bind {error : KvRequestBuildError} {value : ℕ}
    {f : ℕ → Except KvRequestBuildError β} :
    (∃ b, (checked error value >>= f) = .ok b) ↔ value ≤ usizeMax ∧ ∃ b, f value = .ok b := by
  rw [exists_bind_ok]
  by_cases h : value ≤ usizeMax
  · simp [checked, h]
  · simp [checked, h]

/-- A check that comes before the rest. -/
theorem exists_guard {c : Prop} [Decidable c] {e : ε} {x : Except ε β} :
    (∃ b, (if c then (do throw e; x) else x) = .ok b) ↔ ¬ c ∧ ∃ b, x = .ok b := by
  by_cases h : c
  · simp [h, bind, Except.bind, throw, throwThe, MonadExceptOf.throw]
  · simp [h]

/-- The addresses of a transfer: the buffers of the decode worker make up a page, and no address of
a page leaves the address space. -/
structure LayoutsFit (layout : KvTransferLayout) (remoteLayout : KvRemoteLayout)
    (pages : List ℕ) : Prop where
  pageSizeBytes_ne : layout.pageSizeBytes ≠ 0
  pageSizeBytes_le : layout.pageSizeBytes ≤ usizeMax
  split : remoteLayout.dstKvItemLen * remoteLayout.dstKvPtrs.length = layout.pageSizeBytes
  source : ∀ page ∈ pages, ∀ i < remoteLayout.dstKvPtrs.length,
    layout.sourceBaseAddr + page * layout.pageSizeBytes + i * remoteLayout.dstKvItemLen ≤ usizeMax
  target : ∀ index ∈ remoteLayout.dstKvIndices, ∀ ptr ∈ remoteLayout.dstKvPtrs,
    ptr + index.toNat * remoteLayout.dstKvItemLen ≤ usizeMax

theorem exists_remotePartRequest_iff {layout : KvTransferLayout} {target : KvTransferTarget}
    {itemLen index page ptr i : ℕ} :
    (∃ request, remotePartRequest layout target itemLen index page ptr i = .ok request) ↔
      layout.sourceBaseAddr + page * layout.pageSizeBytes + i * itemLen ≤ usizeMax ∧
        ptr + index * itemLen ≤ usizeMax := by
  unfold remotePartRequest
  simp only [exists_checked_bind]
  constructor
  · rintro ⟨-, -, -, hsource, -, htarget, -⟩
    exact ⟨hsource, htarget⟩
  · rintro ⟨hsource, htarget⟩
    exact ⟨by omega, by omega, by omega, hsource, by omega, htarget, _, rfl⟩

theorem exists_remotePageRequests_iff {layout : KvTransferLayout} {target : KvTransferTarget}
    {remoteLayout : KvRemoteLayout} {page : ℕ} {index : ℤ} (hindex : 0 ≤ index) :
    (∃ requests, remotePageRequests layout target remoteLayout page index = .ok requests) ↔
      ∀ part ∈ remoteLayout.dstKvPtrs.zipIdx,
        layout.sourceBaseAddr + page * layout.pageSizeBytes +
            part.2 * remoteLayout.dstKvItemLen ≤ usizeMax ∧
          part.1 + index.toNat * remoteLayout.dstKvItemLen ≤ usizeMax := by
  rw [remotePageRequests, if_neg (not_lt.2 hindex), exists_mapM_eq_ok_iff]
  simp only [exists_remotePartRequest_iff]

/-- Every pair of pages has its requests exactly when all addresses of both sides are in range. -/
theorem forall_zip_remotePageRequests_iff {layout : KvTransferLayout} {target : KvTransferTarget}
    {remoteLayout : KvRemoteLayout} {pages : List ℕ}
    (hindices : ∀ index ∈ remoteLayout.dstKvIndices, 0 ≤ index)
    (hlen : pages.length = remoteLayout.dstKvIndices.length) :
    (∀ pair ∈ pages.zip remoteLayout.dstKvIndices,
      ∃ requests, remotePageRequests layout target remoteLayout pair.1 pair.2 = .ok requests) ↔
    (∀ page ∈ pages, ∀ i < remoteLayout.dstKvPtrs.length,
      layout.sourceBaseAddr + page * layout.pageSizeBytes + i * remoteLayout.dstKvItemLen ≤
        usizeMax) ∧
    ∀ index ∈ remoteLayout.dstKvIndices, ∀ ptr ∈ remoteLayout.dstKvPtrs,
      ptr + index.toNat * remoteLayout.dstKvItemLen ≤ usizeMax := by
  have hpair (pair : ℕ × ℤ) (hmem : pair ∈ pages.zip remoteLayout.dstKvIndices) : 0 ≤ pair.2 :=
    hindices pair.2 (List.of_mem_zip (a := pair.1) (b := pair.2) hmem).2
  constructor
  · intro h
    constructor
    · intro page hpage i hi
      rw [← List.map_fst_zip hlen.le] at hpage
      obtain ⟨pair, hmem, rfl⟩ := List.mem_map.1 hpage
      exact ((exists_remotePageRequests_iff (hpair pair hmem)).1 (h pair hmem)
        (remoteLayout.dstKvPtrs[i], i)
        (List.mem_zipIdx_iff_getElem?.2 (List.getElem?_eq_getElem hi))).1
    · intro index hindex ptr hptr
      rw [← List.map_snd_zip hlen.ge] at hindex
      obtain ⟨pair, hmem, rfl⟩ := List.mem_map.1 hindex
      obtain ⟨i, hi, rfl⟩ := List.mem_iff_getElem.1 hptr
      exact ((exists_remotePageRequests_iff (hpair pair hmem)).1 (h pair hmem)
        (remoteLayout.dstKvPtrs[i], i)
        (List.mem_zipIdx_iff_getElem?.2 (List.getElem?_eq_getElem hi))).2
  · rintro ⟨hsource, htarget⟩ pair hmem
    refine (exists_remotePageRequests_iff (hpair pair hmem)).2 fun part hpart => ?_
    have hget := List.mem_zipIdx_iff_getElem?.1 hpart
    obtain ⟨hi, hptr⟩ := List.getElem?_eq_some_iff.1 hget
    have hsides := List.of_mem_zip (a := pair.1) (b := pair.2) hmem
    exact ⟨hsource _ hsides.1 _ hi, htarget _ hsides.2 _ (hptr ▸ List.getElem_mem hi)⟩

/-- The requests are built if and only if the two sides have the same number of pages and the
addresses are well formed. -/
theorem buildRemoteKvTransferRequests_ok_iff {span : KvCacheTransferSpan}
    {layout : KvTransferLayout} {target : KvTransferTarget} {remoteLayout : KvRemoteLayout}
    (hspan : divCeil span.tokenCount span.pageSize = span.pageIndices.length)
    (hindices : ∀ index ∈ remoteLayout.dstKvIndices, 0 ≤ index) :
    (∃ requests, buildRemoteKvTransferRequests span layout target remoteLayout = .ok requests) ↔
      span.pageIndices.length = remoteLayout.dstKvIndices.length ∧
        LayoutsFit layout remoteLayout span.pageIndices := by
  unfold buildRemoteKvTransferRequests
  simp only [exists_guard, exists_checked_bind, exists_bind_ok, ne_eq, not_not, hspan]
  constructor
  · rintro ⟨hpage, hitem, hptrs, -, hlen, hword, hsplit, pages, hpages, -⟩
    have hrequests := (forall_zip_remotePageRequests_iff hindices hlen).1
      (exists_mapM_eq_ok_iff.1 ⟨pages, hpages⟩)
    exact ⟨hlen, hpage, hsplit ▸ hword, hsplit, hrequests.1, hrequests.2⟩
  · rintro ⟨hlen, hfit⟩
    obtain ⟨pages, hpages⟩ := exists_mapM_eq_ok_iff.2
      ((forall_zip_remotePageRequests_iff hindices hlen).2 ⟨hfit.source, hfit.target⟩)
    have hpos := Nat.pos_of_ne_zero hfit.pageSizeBytes_ne
    rw [← hfit.split] at hpos
    refine ⟨hfit.pageSizeBytes_ne, (Nat.pos_of_mul_pos_right hpos).ne', ?_, trivial, hlen,
      hfit.split ▸ hfit.pageSizeBytes_le, hfit.split, pages, hpages, _, rfl⟩
    rintro hnil
    simp [hnil] at hpos

end Build

/-! ### What the decode worker announces -/

/-- What a decode worker says about itself with every transfer. -/
structure PdDecodeBootstrapPublisher where
  endpoint : String
  dstPort : UInt16
  sessionId : String
  dstAuxIndex : Option Int32
  requiredDstInfoNum : UInt64

/-- The index of a page in the metadata. -/
def metadataIndex (page : ℕ) : Except String Int32 :=
  if page < 2 ^ 31 then .ok (Int32.ofNat page)
  else .error s!"physical KV page {page} cannot fit into metadata i32 index"

/-- Source: `transfer/pd_bootstrap.rs`, lines 993–1020. -/
def PdDecodeBootstrapPublisher.metadataForSpan (publisher : PdDecodeBootstrapPublisher)
    (span : KvCacheTransferSpan) : Except String PdDecodeTransferMetadata := do
  let dstKvIndices ← span.pageIndices.mapM metadataIndex
  return { room := span.bootstrapRoom
           endpoint := publisher.endpoint
           dstPort := publisher.dstPort
           sessionId := publisher.sessionId
           dstKvIndices
           dstAuxIndex := publisher.dstAuxIndex
           dstStateIndices := []
           requiredDstInfoNum := publisher.requiredDstInfoNum
           decodePrefixLen := some (UInt64.ofNat span.tokenOffset)
           isDummy := false }

theorem toInt_of_metadataIndex {page : ℕ} {index : Int32} (h : metadataIndex page = .ok index) :
    index.toInt = page := by
  unfold metadataIndex at h
  split_ifs at h with hpage
  rw [← Except.ok.inj h]
  exact Int32.toInt_ofNat_of_lt hpage

/-- The pages of the span are announced one by one. -/
theorem PdDecodeBootstrapPublisher.metadataForSpan_ok {publisher : PdDecodeBootstrapPublisher}
    {span : KvCacheTransferSpan} {metadata : PdDecodeTransferMetadata}
    (h : publisher.metadataForSpan span = .ok metadata) :
    metadata.dstKvIndices.map Int32.toInt = span.pageIndices.map Nat.cast ∧
      metadata.room = span.bootstrapRoom ∧ metadata.sessionId = publisher.sessionId ∧
      metadata.dstStateIndices = [] ∧ metadata.isDummy = false := by
  unfold metadataForSpan at h
  cases hindices : span.pageIndices.mapM metadataIndex with
  | error e =>
      rw [hindices] at h
      cases h
  | ok indices =>
      rw [hindices] at h
      obtain rfl := (Except.ok.inj h).symm
      refine ⟨?_, rfl, rfl, rfl, rfl⟩
      have hall := mapM_eq_ok_iff.1 hindices
      clear h hindices
      generalize span.pageIndices = pages at hall ⊢
      induction hall with
      | nil => rfl
      | cons hpage _ ih => exact congrArg₂ _ (toInt_of_metadataIndex hpage) ih

/-- A room that has been read has a clear highest bit. -/
theorem PdDecodeTransferMetadata.room_lt {metadata : PdDecodeTransferMetadata} {frame : Frames}
    (hframe : metadata.toFrame = .ok frame) {info : PdTransferInfo}
    (hinfo : PdTransferInfo.fromFrame frame = .ok info) : metadata.room.toNat < 2 ^ 63 := by
  have hfield : asciiField frame 0 "room" = .ok (toString metadata.room) := by
    obtain ⟨-, rfl⟩ | ⟨aux, -, -, rfl⟩ := metadata.toFrame_ok hframe
    all_goals simp [asciiField, field, PdDecodeTransferMetadata.frameWith]
  simp only [PdTransferInfo.fromFrame, RustResult.bind_eq_ok] at hinfo
  obtain ⟨_, -, _, -, _, -, _, -, room, hroom, -⟩ := hinfo
  simp only [parseBootstrapRoom, hfield, RustResult.ok_bind, LawfulFromStr.parse_toString] at hroom
  split_ifs at hroom with hbit
  exact not_le.1 hbit

/-- A layout carries the page indices of the metadata of its session. -/
theorem PrefillBootstrapState.mem_sessionLayouts {state : PrefillBootstrapState}
    {room : BootstrapRoom} {transfers : List PdTransferInfo} {layouts : SessionLayouts}
    (h : state.sessionLayouts room transfers = .ok layouts) {sessionId : String}
    {layout : KvRemoteLayout} (hmem : (sessionId, layout) ∈ layouts) :
    ∃ transfer ∈ transfers, transfer.sessionId = sessionId ∧
      layout.dstKvIndices = transfer.dstKvIndices.map Int32.toInt := by
  induction transfers generalizing layouts with
  | nil =>
      obtain rfl := Except.ok.inj h
      simp at hmem
  | cons transfer transfers ih =>
      rw [sessionLayouts] at h
      split_ifs at h with hdummy
      · obtain ⟨found, hfound, hsession⟩ := ih h hmem
        exact ⟨found, List.mem_cons_of_mem _ hfound, hsession⟩
      · split at h
        · cases h
        · split at h
          · cases h
          · rename_i rest hrest
            obtain rfl := Except.ok.inj h
            obtain hhead | hrestmem := List.mem_cons.1 hmem
            · obtain ⟨rfl, rfl⟩ := Prod.mk.inj hhead
              exact ⟨transfer, List.mem_cons_self, rfl, rfl⟩
            · obtain ⟨found, hfound, hsession⟩ := ih hrest hrestmem
              exact ⟨found, List.mem_cons_of_mem _ hfound, hsession⟩

/-- The lookup of a room hands out, for a session, the page indices of its latest metadata. -/
theorem dstKvIndices_of_latestOf {frames : List Frames} {room : BootstrapRoom}
    {layouts : SessionLayouts} (h : (ingestAll frames).remoteKvLayoutsForRoom room = .ok layouts)
    {sessionId : String} {info : PdTransferInfo}
    (hlatest : latestOf frames room sessionId = some info) {remote : KvRemoteLayout}
    (hmem : (sessionId, remote) ∈ layouts) :
    remote.dstKvIndices = info.dstKvIndices.map Int32.toInt := by
  have hremembers := remembers_ingestAll frames
  unfold PrefillBootstrapState.remoteKvLayoutsForRoom at h
  split at h
  · cases h
  · rename_i roomState hroom
    obtain ⟨found, hfound, hsession, hindices⟩ := PrefillBootstrapState.mem_sessionLayouts h hmem
    obtain ⟨⟨key, found⟩, hentry, rfl⟩ := List.mem_map.1 hfound
    have hkey := (hremembers.transfers room roomState hroom key).symm.trans
      ((roomState.transfers.mem_entries_iff).1 hentry)
    obtain rfl : found.sessionId = key := (sessionId_of_latestOf hkey).1
    rw [hsession, hlatest] at hkey
    rw [hindices, Option.some.inj hkey]

/-! ### Both sides of a transfer -/

/-- The forward of a batch writes a position of a prompt to a slot. -/
def ScheduleBatch.Writes (batch : ScheduleBatch) (slot position : ℕ) : Prop :=
  ∃ t : ℕ, (ModelWorkerBatch.fromScheduleBatch batch).outCachePages[t]? = some slot ∧
    (ModelWorkerBatch.fromScheduleBatch batch).positions[t]? = some position

/-- The plan of a batch has a span, for a request of the batch. -/
def ScheduleBatch.Plans (batch : ScheduleBatch) (pageSize : ℕ) (span : KvCacheTransferSpan)
    (r : ScheduledRequest) : Prop :=
  ∃ plan, KvCacheTransferPlan.fromPrefillWorkerBatchWithPageSize (.fromScheduleBatch batch)
      pageSize = .ok plan ∧
    (span, r) ∈ plan.spans.zip (batch.requests.filter (·.disaggregatedParams.isSome))

/-- A decode worker has announced a span, and the prefill worker has looked up its layout. -/
def PdDecodeBootstrapPublisher.Announces (publisher : PdDecodeBootstrapPublisher)
    (span : KvCacheTransferSpan) (frames : List Frames) (room : BootstrapRoom)
    (remote : KvRemoteLayout) : Prop :=
  ∃ metadata frame info layouts, publisher.metadataForSpan span = .ok metadata ∧
    metadata.toFrame = .ok frame ∧ PdTransferInfo.fromFrame frame = .ok info ∧
    latestOf frames room publisher.sessionId = some info ∧
    (ingestAll frames).remoteKvLayoutsForRoom room = .ok layouts ∧
    (publisher.sessionId, remote) ∈ layouts

/-- Page by page, two chunks are for the same stretch of the prompt. -/
def SamePositions (pageSize : ℕ) (r r' : ScheduledRequest) : Prop :=
  ∀ k, r.pagePositions pageSize k = r'.pagePositions pageSize k

section Sides

variable {batch batch' : ScheduleBatch} {pageSize : ℕ} {span span' : KvCacheTransferSpan}
  {r r' : ScheduledRequest}

theorem ScheduleBatch.Plans.carries (h : batch.Plans pageSize span r) :
    span.Carries (.fromScheduleBatch batch) pageSize r := by
  obtain ⟨plan, hplan, hmem⟩ := h
  exact List.forall₂_zip (KvCacheTransferPlan.carries hplan) hmem

theorem KvCacheTransferSpan.Carries.pageSize_pos {b : ModelWorkerBatch}
    (h : span.Carries b pageSize r) : 0 < pageSize :=
  h.pageSize_eq ▸ span.pageSize_pos

/-- There is a page for every started stretch of the chunk. -/
theorem KvCacheTransferSpan.Carries.length_pageIndices {b : ModelWorkerBatch}
    (h : span.Carries b pageSize r) :
    span.pageIndices.length = divCeil (r.chunkEnd - r.chunkStart) pageSize := by
  rw [length_transferPageIndices h.pageIndices h.pageSize_pos, h.length_cachePages, h.tokenCount]

/-- A page of a span holds the positions of the chunk that belong to it. -/
theorem ScheduleBatch.Plans.writes (h : batch.Plans pageSize span r) {k page m position : ℕ}
    (hpage : span.pageIndices[k]? = some page)
    (hposition : (r.pagePositions pageSize k)[m]? = some position) :
    batch.Writes (page * pageSize + m) position := by
  have hcarries := h.carries
  have hpos := hcarries.pageSize_pos
  rw [ScheduledRequest.pagePositions, getElem?_pageOf] at hposition
  split_ifs at hposition with hm
  have hdiv : (k * pageSize + m) / pageSize = k := by
    rw [Nat.mul_comm, Nat.mul_add_div hpos, Nat.div_eq_of_lt hm, Nat.add_zero]
  have hmod : (k * pageSize + m) % pageSize = m := by
    rw [Nat.mul_comm, Nat.mul_add_mod, Nat.mod_eq_of_lt hm]
  have hlt : k * pageSize + m < span.tokenCount := by
    have := (List.getElem?_eq_some_iff.1 hposition).1
    rwa [r.length_chunkPositions, ← hcarries.tokenCount] at this
  obtain ⟨page', hpage', hslot⟩ := transferPageIndices_slot hcarries.pageIndices hpos
    (hlt.trans_eq hcarries.length_cachePages.symm)
  rw [hdiv, hpage] at hpage'
  rw [hmod, ← Option.some.inj hpage'] at hslot
  obtain ⟨offset, hslots, hpositions⟩ := hcarries.arrays
  rw [hslots, List.getElem?_take, if_pos hlt, List.getElem?_drop] at hslot
  rw [hpositions, List.getElem?_take, if_pos hlt, List.getElem?_drop] at hposition
  exact ⟨_, hslot, hposition⟩

/-- The prefill worker learns the pages of the decode worker. -/
theorem PdDecodeBootstrapPublisher.Announces.dstKvIndices {publisher : PdDecodeBootstrapPublisher}
    {frames : List Frames} {room : BootstrapRoom} {remote : KvRemoteLayout}
    (h : publisher.Announces span frames room remote) :
    remote.dstKvIndices = span.pageIndices.map Nat.cast := by
  obtain ⟨metadata, frame, info, layouts, hmetadata, hframe, hinfo, hlatest, hlayouts, hmem⟩ := h
  obtain ⟨hindices, -, -, hstate, hdummy⟩ := publisher.metadataForSpan_ok hmetadata
  have hroom := metadata.room_lt hframe hinfo
  have hfits : FitsU32 metadata.dstStateIndices := by
    rw [hstate]
    simp [FitsU32]
  obtain ⟨info', hinfo', hdescribes⟩ :=
    (PdTransferInfo.fromFrame_toFrame_iff metadata frame hroom hframe).2 (.inr hfits)
  obtain rfl := RustResult.ok.inj (hinfo.symm.trans hinfo')
  rw [dstKvIndices_of_latestOf hlayouts hlatest hmem, (hdescribes.destinations hdummy).1, hindices]

/-- Two chunks are for the same positions if they start together and have the same length, or if
both are empty. -/
theorem samePositions_iff_chunks (hpage : 0 < pageSize) :
    SamePositions pageSize r r' ↔
      r.chunkEnd - r.chunkStart = r'.chunkEnd - r'.chunkStart ∧
        (r.chunkEnd - r.chunkStart = 0 ∨ r.chunkStart = r'.chunkStart) := by
  have hchunks : SamePositions pageSize r r' ↔ r.chunkPositions = r'.chunkPositions :=
    forall_pageOf_eq_iff hpage
  rw [hchunks]
  constructor
  · intro h
    have hlen := congrArg List.length h
    simp only [ScheduledRequest.length_chunkPositions] at hlen
    refine ⟨hlen, ?_⟩
    by_cases hempty : r.chunkEnd - r.chunkStart = 0
    · exact .inl hempty
    · have hhead := congrArg List.head? h
      rw [ScheduledRequest.chunkPositions, ScheduledRequest.chunkPositions, ← hlen] at hhead
      obtain ⟨n, hn⟩ := Nat.exists_eq_succ_of_ne_zero hempty
      rw [hn] at hhead
      simp [List.range_succ_eq_map] at hhead
      exact .inr hhead
  · rintro ⟨hlen, hempty | hstart⟩
    · rw [ScheduledRequest.chunkPositions, ScheduledRequest.chunkPositions, ← hlen, hempty]
      rfl
    · rw [ScheduledRequest.chunkPositions, ScheduledRequest.chunkPositions, ← hlen, hstart]

/-- **When a transfer copies every page to its place.** A prefill worker and a decode worker form
batches as they like, with the same page size. The pages of each worker hold the positions of its
own chunk, and the prefill worker learns the pages of the decode worker. That the requests are built
only if page and destination are for the same positions holds exactly when one of the following
does: the two chunks have different numbers of pages; the addresses of the layouts do not fit; or
the chunks start at the same position of the prompt and are equally long, or both empty.

Source: `sglang-srt/src/transfer/mod.rs`, lines 602–664, 2165–2254;
`sglang-srt/src/transfer/pd_bootstrap.rs`, lines 337–440, 993–1020. -/
theorem samePositions_iff (hsource : batch.Plans pageSize span r)
    (htarget : batch'.Plans pageSize span' r') {publisher : PdDecodeBootstrapPublisher}
    {frames : List Frames} {remote : KvRemoteLayout}
    (hannounces : publisher.Announces span' frames span.bootstrapRoom remote)
    (layout : KvTransferLayout) (target : KvTransferTarget) :
    ((∀ requests, buildRemoteKvTransferRequests span layout target remote = .ok requests →
        SamePositions pageSize r r') ↔
      (divCeil (r.chunkEnd - r.chunkStart) pageSize =
          divCeil (r'.chunkEnd - r'.chunkStart) pageSize →
        LayoutsFit layout remote span.pageIndices →
          r.chunkEnd - r.chunkStart = r'.chunkEnd - r'.chunkStart ∧
            (r.chunkEnd - r.chunkStart = 0 ∨ r.chunkStart = r'.chunkStart))) ∧
    (∀ k page m position : ℕ, span.pageIndices[k]? = some page →
      (r.pagePositions pageSize k)[m]? = some position →
        batch.Writes (page * pageSize + m) position) ∧
    ∀ k page m position : ℕ, remote.dstKvIndices[k]? = some (page : ℤ) →
      (r'.pagePositions pageSize k)[m]? = some position →
        batch'.Writes (page * pageSize + m) position := by
  have hindices := hannounces.dstKvIndices
  have hlen : remote.dstKvIndices.length =
      divCeil (r'.chunkEnd - r'.chunkStart) pageSize := by
    rw [hindices, List.length_map, htarget.carries.length_pageIndices]
  have hspan : divCeil span.tokenCount span.pageSize = span.pageIndices.length := by
    rw [hsource.carries.length_pageIndices, hsource.carries.tokenCount,
      hsource.carries.pageSize_eq]
  have hnonneg : ∀ index ∈ remote.dstKvIndices, 0 ≤ index := by
    rw [hindices]
    intro index hindex
    obtain ⟨page, -, rfl⟩ := List.mem_map.1 hindex
    exact Int.natCast_nonneg page
  have hbuild : (∃ requests, buildRemoteKvTransferRequests span layout target remote =
      .ok requests) ↔ _ := buildRemoteKvTransferRequests_ok_iff hspan hnonneg
  rw [hsource.carries.length_pageIndices, hlen] at hbuild
  refine ⟨?_, fun k page m position => hsource.writes, fun k page m position hpage => ?_⟩
  · rw [← samePositions_iff_chunks hsource.carries.pageSize_pos]
    constructor
    · intro h hpages hfit
      obtain ⟨requests, hrequests⟩ := hbuild.2 ⟨hpages, hfit⟩
      exact h requests hrequests
    · intro h requests hrequests
      obtain ⟨hpages, hfit⟩ := hbuild.1 ⟨requests, hrequests⟩
      exact h hpages hfit
  · rw [hindices, List.getElem?_map, Option.map_eq_some_iff] at hpage
    obtain ⟨page', hpage', hcast⟩ := hpage
    rw [Nat.cast_inj] at hcast
    exact htarget.writes (hcast ▸ hpage')

end Sides

/-! ### A page in the wrong place -/

/-- A prompt of four tokens for a pair of workers. -/
def pairedRequest : NewRequest := ⟨⟨"a"⟩, [1, 2, 3, 4], ⟨1⟩, some ⟨"10.0.0.1", 8998, 7⟩, 0⟩

/-- A prefill worker that has the first two tokens of the prompt in its cache. -/
def prefillSide : Scheduler ScriptedWorker :=
  [.submit "w" [1, 2] 1, .dispatch (.prefill 1 8), .enqueue pairedRequest].foldl Scheduler.step
    (Scheduler.scripted {} 1 8)

/-- A decode worker without a prefix cache, with chunks of two tokens. -/
def decodeSide : Scheduler ScriptedWorker :=
  [.enqueue pairedRequest].foldl Scheduler.step (Scheduler.scripted {} 1 8 .disabled (some 2))

/-- The chunk of the prefill worker, the last two tokens of the prompt. -/
def sourceRequest : ScheduledRequest where
  requestId := ⟨"a"⟩
  inputIds := [1, 2, 3, 4]
  outputIds := []
  allocatedCachePages := [2, 3]
  forwardCachePages := [2, 3]
  sequenceCachePages := [0, 1, 2, 3]
  cacheHitTokenCount := 2
  sampling := ⟨1⟩
  disaggregatedParams := some ⟨"10.0.0.1", 8998, 7⟩
  dataParallelRank := 0
  prefixMatch := ⟨2, [0, 1], [3, 4]⟩
  stage := .prefillForward
  promptTokensProcessed := 2
  currentChunkLen := 2

/-- The chunk of the decode worker, the first two tokens of the prompt. -/
def destinationRequest : ScheduledRequest :=
  { sourceRequest with
    allocatedCachePages := [0, 1]
    forwardCachePages := [0, 1]
    sequenceCachePages := [0, 1]
    cacheHitTokenCount := 0
    prefixMatch := ⟨0, [], [1, 2, 3, 4]⟩
    promptTokensProcessed := 0 }

def sourceSpan : KvCacheTransferSpan where
  requestId := ⟨"a"⟩
  disaggregatedParams := ⟨"10.0.0.1", 8998, 7⟩
  dataParallelRank := 0
  tokenOffset := 2
  tokenCount := 2
  cachePages := [2, 3]
  pageSize := 1
  pageIndices := [2, 3]
  firstToken := none
  pageSize_pos := Nat.one_pos

def destinationSpan : KvCacheTransferSpan :=
  { sourceSpan with tokenOffset := 0, cachePages := [0, 1], pageIndices := [0, 1] }

def decodeWorker : PdDecodeBootstrapPublisher := ⟨"10.0.0.1", 7000, "s", some 0, 1⟩

def pairedMetadata : PdDecodeTransferMetadata :=
  ⟨7, "10.0.0.1", 7000, "s", [0, 1], some 0, [], 1, some 0, false⟩

def pairedInfo : PdTransferInfo :=
  ⟨7, "10.0.0.1", 7000, "s", [0, 1], some 0, [], 1, false, some 0⟩

def pairedFrame : Frames :=
  pairedMetadata.frameWith (packI32s [0, 1]) (utf8 (toString (0 : Int32))) (packI32Lists [])

/-- The decode worker registers its buffers and announces its span. -/
def pairedFrames : List Frames := [(sampleRegistration "s").toFrame, pairedFrame]

def pairedLayout : KvRemoteLayout := ⟨[4096, 8192], [0, 1], 64⟩

theorem plans_sourceSpan :
    (ScheduleBatch.prefill [sourceRequest]).Plans 1 sourceSpan sourceRequest :=
  ⟨⟨[sourceSpan]⟩, rfl, List.mem_singleton.2 rfl⟩

theorem plans_destinationSpan :
    (ScheduleBatch.prefill [destinationRequest]).Plans 1 destinationSpan destinationRequest :=
  ⟨⟨[destinationSpan]⟩, rfl, List.mem_singleton.2 rfl⟩

theorem announces_destinationSpan :
    decodeWorker.Announces destinationSpan pairedFrames sourceSpan.bootstrapRoom pairedLayout :=
  ⟨pairedMetadata, pairedFrame, pairedInfo, [("s", pairedLayout)], rfl, rfl, rfl, rfl, rfl,
    List.mem_singleton.2 rfl⟩

/-- The last two tokens of the prompt are copied to the pages of the first two. -/
theorem exists_misplaced_page :
    ((Former.prefill 1 8).form prefillSide).2 = .ok (.prefill [sourceRequest]) ∧
      ((Former.prefill 1 8).form decodeSide).2 = .ok (.prefill [destinationRequest]) ∧
      (ScheduleBatch.prefill [sourceRequest]).Plans 1 sourceSpan sourceRequest ∧
      (ScheduleBatch.prefill [destinationRequest]).Plans 1 destinationSpan destinationRequest ∧
      decodeWorker.Announces destinationSpan pairedFrames sourceSpan.bootstrapRoom pairedLayout ∧
      (∃ requests, buildRemoteKvTransferRequests sourceSpan ⟨1024, 128, 0⟩ ⟨0⟩ pairedLayout =
        .ok requests) ∧
      sourceRequest.pagePositions 1 0 = [2] ∧ destinationRequest.pagePositions 1 0 = [0] ∧
      ¬ SamePositions 1 sourceRequest destinationRequest := by
  refine ⟨rfl, rfl, plans_sourceSpan, plans_destinationSpan, announces_destinationSpan, ⟨_, rfl⟩,
    rfl, rfl, fun h => ?_⟩
  have hpage : [2] = [0] := h 0
  simp at hpage

/-- Two chunks of the same length that start at different positions: the transfer is not refused. -/
theorem samePositions_sides :
    ¬ ∀ requests, buildRemoteKvTransferRequests sourceSpan ⟨1024, 128, 0⟩ ⟨0⟩ pairedLayout =
      .ok requests → SamePositions 1 sourceRequest destinationRequest := by
  rw [(samePositions_iff plans_sourceSpan plans_destinationSpan announces_destinationSpan
    ⟨1024, 128, 0⟩ ⟨0⟩).1]
  intro h
  obtain hempty | hstart := (h rfl ⟨by decide, by decide, rfl, by decide, by decide⟩).2
  · exact absurd hempty (by decide)
  · exact absurd hstart (by decide)

end SglangRs
