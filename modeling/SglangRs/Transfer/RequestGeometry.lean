import SglangRs.Arithmetic.Checked
import SglangRs.Collections.FallibleMap
import SglangRs.Collections.Rows
import SglangRs.Paging.Tiling
import SglangRs.Transfer.Spans

/-!
# Where the bytes of a span go

The requests for a span copy its pages in order (`sglang-srt/src/transfer/mod.rs`, lines 2111–2254).
Without a remote layout every page is one request, and the pages lie side by side on the target from
the page offset of the span on. With a remote layout every page is cut into one part for each remote
buffer, and the part goes to the item of the buffer that the decode engine has named for the page.

## Main definitions

* `TilesPages`: the source ranges of requests fill the pages, one page after the other.
* `TargetsDisjoint`: no two requests write to the same place.

## Main results

* `buildKvTransferRequests_eq_ok_iff`, `buildRemoteKvTransferRequests_eq_ok_iff`: when requests are
  built, and which.
* `transfer_requests_geometry`: sources, targets, addresses and errors.
-/

namespace SglangRs

open Paging

/-! ### The requests that are built -/

theorem checked_eq_ok {error : KvRequestBuildError} {value b : ℕ} :
    checked error value = .ok b ↔ value ≤ usizeMax ∧ b = value := by
  unfold checked
  split_ifs with h
  · simp [h, eq_comm]
  · simp [h]

section Local

variable {span : KvCacheTransferSpan} {layout : KvTransferLayout} {target : KvTransferTarget}
  {requests : List KvTransferRequest}

/-- The request for a page with its mathematical addresses. -/
def exactPageRequest (span : KvCacheTransferSpan) (layout : KvTransferLayout)
    (target : KvTransferTarget) (page : ℕ × ℕ) : KvTransferRequest where
  opcode := KvOpcode.write
  source := layout.sourceBaseAddr + page.1 * layout.pageSizeBytes
  targetId := target.targetId
  targetOffset := layout.targetBaseOffset + (span.pageOffset + page.2) * layout.pageSizeBytes
  length := layout.pageSizeBytes

/-- The numbers that are computed for a page fit into machine words. -/
structure PageInRange (span : KvCacheTransferSpan) (layout : KvTransferLayout) (page : ℕ × ℕ) :
    Prop where
  source_le : layout.sourceBaseAddr + page.1 * layout.pageSizeBytes ≤ usizeMax
  targetPage_le : span.pageOffset + page.2 ≤ usizeMax
  target_le :
    layout.targetBaseOffset + (span.pageOffset + page.2) * layout.pageSizeBytes ≤ usizeMax

theorem pageRequest_eq_ok_iff {page : ℕ × ℕ} {request : KvTransferRequest} :
    pageRequest span layout target page.1 page.2 = .ok request ↔
      PageInRange span layout page ∧ request = exactPageRequest span layout target page := by
  unfold pageRequest
  simp only [Except.bind_eq_ok, checked_eq_ok]
  constructor
  · rintro ⟨_, ⟨-, rfl⟩, _, ⟨hsource, rfl⟩, _, ⟨hpage, rfl⟩, _, ⟨-, rfl⟩, _, ⟨htarget, rfl⟩, h⟩
    exact ⟨⟨hsource, hpage, htarget⟩, (Except.ok.inj h).symm⟩
  · rintro ⟨⟨hsource, hpage, htarget⟩, rfl⟩
    exact ⟨_, ⟨by omega, rfl⟩, _, ⟨hsource, rfl⟩, _, ⟨hpage, rfl⟩, _, ⟨by omega, rfl⟩, _,
      ⟨htarget, rfl⟩, rfl⟩

theorem buildKvTransferRequests_eq_ok_iff :
    buildKvTransferRequests span layout target = .ok requests ↔
      (layout.pageSizeBytes ≠ 0 ∧
        divCeil span.tokenCount span.pageSize = span.pageIndices.length ∧
        ∀ page ∈ span.pageIndices.zipIdx, PageInRange span layout page) ∧
      requests = span.pageIndices.zipIdx.map (exactPageRequest span layout target) := by
  unfold buildKvTransferRequests
  dsimp only
  split_ifs with hsize hcount
  · simp [hsize]
  · simp [hcount]
  · rw [mapM_eq_ok_iff_map fun _ _ => pageRequest_eq_ok_iff, and_iff_right hsize,
      and_iff_right (not_not.mp hcount)]

end Local

section Remote

variable {span : KvCacheTransferSpan} {layout : KvTransferLayout} {target : KvTransferTarget}
  {remoteLayout : KvRemoteLayout} {requests : List KvTransferRequest}

/-- The request for a part of a page with its mathematical addresses. -/
def exactPartRequest (layout : KvTransferLayout) (target : KvTransferTarget) (itemLen : ℕ)
    (page : ℕ × ℤ) (ptr : ℕ × ℕ) : KvTransferRequest where
  opcode := KvOpcode.write
  source := layout.sourceBaseAddr + page.1 * layout.pageSizeBytes + ptr.2 * itemLen
  targetId := target.targetId
  targetOffset := ptr.1 + page.2.toNat * itemLen
  length := itemLen

/-- The numbers that are computed for a part of a page fit into machine words. -/
structure PartInRange (layout : KvTransferLayout) (itemLen : ℕ) (page : ℕ × ℤ) (ptr : ℕ × ℕ) :
    Prop where
  source_le :
    layout.sourceBaseAddr + page.1 * layout.pageSizeBytes + ptr.2 * itemLen ≤ usizeMax
  target_le : ptr.1 + page.2.toNat * itemLen ≤ usizeMax

/-- The requests for the parts of a page. -/
def exactPartRequests (layout : KvTransferLayout) (target : KvTransferTarget)
    (remoteLayout : KvRemoteLayout) (page : ℕ × ℤ) : List KvTransferRequest :=
  remoteLayout.dstKvPtrs.zipIdx.map
    (exactPartRequest layout target remoteLayout.dstKvItemLen page)

theorem remotePartRequest_eq_ok_iff {itemLen : ℕ} {page : ℕ × ℤ} {ptr : ℕ × ℕ}
    {request : KvTransferRequest} :
    remotePartRequest layout target itemLen page.2.toNat page.1 ptr.1 ptr.2 = .ok request ↔
      PartInRange layout itemLen page ptr ∧
        request = exactPartRequest layout target itemLen page ptr := by
  unfold remotePartRequest
  simp only [Except.bind_eq_ok, checked_eq_ok]
  constructor
  · rintro ⟨_, ⟨-, rfl⟩, _, ⟨-, rfl⟩, _, ⟨-, rfl⟩, _, ⟨hsource, rfl⟩, _, ⟨-, rfl⟩, _,
      ⟨htarget, rfl⟩, h⟩
    exact ⟨⟨hsource, htarget⟩, (Except.ok.inj h).symm⟩
  · rintro ⟨⟨hsource, htarget⟩, rfl⟩
    exact ⟨_, ⟨by omega, rfl⟩, _, ⟨by omega, rfl⟩, _, ⟨by omega, rfl⟩, _, ⟨hsource, rfl⟩, _,
      ⟨by omega, rfl⟩, _, ⟨htarget, rfl⟩, rfl⟩

/-- A page whose index is not negative and whose parts are in range. -/
def RemotePageInRange (layout : KvTransferLayout) (remoteLayout : KvRemoteLayout) (page : ℕ × ℤ) :
    Prop :=
  0 ≤ page.2 ∧ ∀ ptr ∈ remoteLayout.dstKvPtrs.zipIdx,
    PartInRange layout remoteLayout.dstKvItemLen page ptr

theorem remotePageRequests_eq_ok_iff {page : ℕ × ℤ} {parts : List KvTransferRequest} :
    remotePageRequests layout target remoteLayout page.1 page.2 = .ok parts ↔
      RemotePageInRange layout remoteLayout page ∧
        parts = exactPartRequests layout target remoteLayout page := by
  unfold remotePageRequests RemotePageInRange
  split_ifs with hnegative
  · simp [not_le.mpr hnegative]
  · rw [mapM_eq_ok_iff_map fun _ _ => remotePartRequest_eq_ok_iff,
      and_iff_right (not_lt.mp hnegative)]
    rfl

theorem guard_eq_ok {ε β : Type} {c : Prop} [Decidable c] {e : ε} {x : Except ε β} {b : β} :
    (if c then (do throw e; x) else x) = .ok b ↔ ¬c ∧ x = .ok b := by
  by_cases h : c
  · simp [h, bind, Except.bind, throw, throwThe, MonadExceptOf.throw]
  · simp [h]

/-- The sizes on both sides agree. -/
structure RemoteSizesAgree (span : KvCacheTransferSpan) (layout : KvTransferLayout)
    (remoteLayout : KvRemoteLayout) : Prop where
  pageSizeBytes_ne : layout.pageSizeBytes ≠ 0
  dstKvItemLen_ne : remoteLayout.dstKvItemLen ≠ 0
  dstKvPtrs_ne : remoteLayout.dstKvPtrs ≠ []
  pageCount : divCeil span.tokenCount span.pageSize = span.pageIndices.length
  indexCount : span.pageIndices.length = remoteLayout.dstKvIndices.length
  split : remoteLayout.dstKvItemLen * remoteLayout.dstKvPtrs.length = layout.pageSizeBytes

theorem buildRemoteKvTransferRequests_eq_ok_iff :
    buildRemoteKvTransferRequests span layout target remoteLayout = .ok requests ↔
      (RemoteSizesAgree span layout remoteLayout ∧ layout.pageSizeBytes ≤ usizeMax ∧
        ∀ page ∈ span.pageIndices.zip remoteLayout.dstKvIndices,
          RemotePageInRange layout remoteLayout page) ∧
      requests = (span.pageIndices.zip remoteLayout.dstKvIndices).flatMap
        (exactPartRequests layout target remoteLayout) := by
  unfold buildRemoteKvTransferRequests
  simp only [guard_eq_ok, Except.bind_eq_ok, checked_eq_ok,
    mapM_eq_ok_iff_map fun _ _ => remotePageRequests_eq_ok_iff, ne_eq, not_not]
  constructor
  · rintro ⟨hpage, hitem, hptrs, hcount, hindices, _, ⟨hword, rfl⟩, hsplit, _, ⟨hrange, rfl⟩, h⟩
    exact ⟨⟨⟨hpage, hitem, hptrs, hcount, hindices, hsplit⟩, hsplit ▸ hword, hrange⟩,
      (Except.ok.inj h).symm⟩
  · rintro ⟨⟨⟨hpage, hitem, hptrs, hcount, hindices, hsplit⟩, hword, hrange⟩, rfl⟩
    exact ⟨hpage, hitem, hptrs, hcount, hindices, _, ⟨hsplit ▸ hword, rfl⟩, hsplit, _,
      ⟨hrange, rfl⟩, rfl⟩

end Remote

/-! ### Sources -/

def KvTransferRequest.sourceRange (request : KvTransferRequest) : ℕ × ℕ :=
  (request.source, request.length)

/-- The requests fall into groups, one for each page, and the source ranges of a group lie one
behind the other from the first byte of the page to the last. -/
def TilesPages (layout : KvTransferLayout) (pages : List ℕ) (requests : List KvTransferRequest) :
    Prop :=
  ∃ groups : List (List KvTransferRequest), requests = groups.flatten ∧
    List.Forall₂ (fun page group => Consecutive (group.map KvTransferRequest.sourceRange)
      (layout.sourceBaseAddr + page * layout.pageSizeBytes)
      (layout.sourceBaseAddr + (page + 1) * layout.pageSizeBytes)) pages groups

theorem tilesPages_flatMap {α : Type} {layout : KvTransferLayout} {entries : List α}
    {page : α → ℕ} {group : α → List KvTransferRequest}
    (h : ∀ a ∈ entries, Consecutive ((group a).map KvTransferRequest.sourceRange)
      (layout.sourceBaseAddr + page a * layout.pageSizeBytes)
      (layout.sourceBaseAddr + (page a + 1) * layout.pageSizeBytes)) :
    TilesPages layout (entries.map page) (entries.flatMap group) := by
  refine ⟨entries.map group, rfl, ?_⟩
  rw [List.forall₂_map_left_iff, List.forall₂_map_right_iff, List.forall₂_same]
  exact h

section Sources

variable {span : KvCacheTransferSpan} {layout : KvTransferLayout} {target : KvTransferTarget}
  {remoteLayout : KvRemoteLayout}

theorem tilesPages_local : TilesPages layout span.pageIndices
    (span.pageIndices.zipIdx.map (exactPageRequest span layout target)) := by
  have hpages : span.pageIndices.zipIdx.map Prod.fst = span.pageIndices :=
    List.zipIdx_map_fst _ _
  rw [List.map_eq_flatMap]
  conv_lhs => rw [← hpages]
  refine tilesPages_flatMap fun page _ => consecutive_singleton.mpr ⟨rfl, ?_⟩
  rw [Nat.succ_mul, Nat.add_assoc]
  rfl

/-- The parts of a page lie one behind the other. -/
theorem consecutive_exactPartRequests (page : ℕ × ℤ) : Consecutive
    ((exactPartRequests layout target remoteLayout page).map KvTransferRequest.sourceRange)
    (layout.sourceBaseAddr + page.1 * layout.pageSizeBytes)
    (layout.sourceBaseAddr + page.1 * layout.pageSizeBytes +
      remoteLayout.dstKvPtrs.length * remoteLayout.dstKvItemLen) := by
  have hparts : (exactPartRequests layout target remoteLayout page).map
      KvTransferRequest.sourceRange = (List.range remoteLayout.dstKvPtrs.length).map fun i =>
        (layout.sourceBaseAddr + page.1 * layout.pageSizeBytes + i * remoteLayout.dstKvItemLen,
          remoteLayout.dstKvItemLen) := by
    have hpositions : remoteLayout.dstKvPtrs.zipIdx.map Prod.snd =
        List.range remoteLayout.dstKvPtrs.length := by
      rw [List.zipIdx_map_snd, List.range_eq_range']
    rw [← hpositions, List.map_map, exactPartRequests, List.map_map]
    rfl
  rw [hparts]
  exact consecutive_equal_blocks _ _ _

theorem tilesPages_remote (h : RemoteSizesAgree span layout remoteLayout) :
    TilesPages layout span.pageIndices ((span.pageIndices.zip remoteLayout.dstKvIndices).flatMap
      (exactPartRequests layout target remoteLayout)) := by
  have hpages : (span.pageIndices.zip remoteLayout.dstKvIndices).map Prod.fst = span.pageIndices :=
    List.map_fst_zip h.indexCount.le
  conv_lhs => rw [← hpages]
  refine tilesPages_flatMap fun page _ => ?_
  have hparts : Consecutive
      ((exactPartRequests layout target remoteLayout page).map KvTransferRequest.sourceRange) _ _ :=
    consecutive_exactPartRequests page
  rwa [Nat.mul_comm remoteLayout.dstKvPtrs.length, h.split, Nat.add_assoc, ← Nat.succ_mul] at hparts

end Sources

/-! ### Targets -/

/-- The bytes that a request writes. -/
def KvTransferRequest.targetRange (request : KvTransferRequest) : Set ℕ :=
  Set.Ico request.targetOffset (request.targetOffset + request.length)

def TargetsDisjoint (requests : List KvTransferRequest) : Prop :=
  requests.Pairwise (Function.onFun Disjoint KvTransferRequest.targetRange)

/-- Different items of a buffer. -/
theorem disjoint_items {ptr len i j : ℕ} (h : i ≠ j) :
    Disjoint (Set.Ico (ptr + i * len) (ptr + i * len + len))
      (Set.Ico (ptr + j * len) (ptr + j * len + len)) :=
  (tiling_equal_blocks ptr len (max i j + 1)).disjoint
    (Set.mem_Iio.mpr (Nat.lt_succ_of_le (le_max_left i j)))
    (Set.mem_Iio.mpr (Nat.lt_succ_of_le (le_max_right i j))) h

section Targets

variable {span : KvCacheTransferSpan} {layout : KvTransferLayout} {target : KvTransferTarget}
  {remoteLayout : KvRemoteLayout}

theorem pairwise_zipIdx_ne {α : Type} (as : List α) :
    as.zipIdx.Pairwise fun a b => a.2 ≠ b.2 := by
  have hnodup : (as.zipIdx.map Prod.snd).Nodup := by
    rw [List.zipIdx_map_snd]
    exact List.nodup_range'
  exact List.pairwise_map.mp hnodup

theorem targetsDisjoint_local :
    TargetsDisjoint (span.pageIndices.zipIdx.map (exactPageRequest span layout target)) := by
  refine List.pairwise_map.mpr ((pairwise_zipIdx_ne span.pageIndices).imp fun hne => ?_)
  exact disjoint_items fun heq => hne (Nat.add_left_cancel heq)

/-- The region of a buffer that holds the given number of items. -/
def region (itemLen itemCount ptr : ℕ) : Set ℕ := Set.Ico ptr (ptr + itemCount * itemLen)

/-- The regions of the remote buffers do not overlap, for a number of items that covers the indices
of the span. -/
structure RegionsDisjoint (remoteLayout : KvRemoteLayout) (itemCount : ℕ) : Prop where
  index_lt : ∀ index ∈ remoteLayout.dstKvIndices, index < itemCount
  disjoint : remoteLayout.dstKvPtrs.Pairwise
    (Function.onFun Disjoint (region remoteLayout.dstKvItemLen itemCount))

/-- Two parts that go to different buffers or to different items are written to different places. -/
theorem disjoint_parts {itemCount : ℕ} (h : RegionsDisjoint remoteLayout itemCount)
    {page page' : ℕ × ℤ} (hpage : page.2.toNat < itemCount) (hpage' : page'.2.toNat < itemCount)
    {ptr ptr' : ℕ × ℕ} (hptr : ptr ∈ remoteLayout.dstKvPtrs.zipIdx)
    (hptr' : ptr' ∈ remoteLayout.dstKvPtrs.zipIdx)
    (hne : ptr.2 ≠ ptr'.2 ∨ page.2.toNat ≠ page'.2.toNat) :
    Disjoint
      (exactPartRequest layout target remoteLayout.dstKvItemLen page ptr).targetRange
      (exactPartRequest layout target remoteLayout.dstKvItemLen page' ptr').targetRange := by
  have hget := List.mem_zipIdx_iff_getElem?.mp hptr
  have hget' := List.mem_zipIdx_iff_getElem?.mp hptr'
  by_cases hsame : ptr.2 = ptr'.2
  · have heq : ptr.1 = ptr'.1 := by
      rw [hsame, hget'] at hget
      exact (Option.some.inj hget).symm
    rw [KvTransferRequest.targetRange, KvTransferRequest.targetRange, exactPartRequest,
      exactPartRequest, heq]
    exact disjoint_items (hne.resolve_left (not_not.mpr hsame))
  · obtain ⟨hlt, hptrEq⟩ := List.getElem?_eq_some_iff.mp hget
    obtain ⟨hlt', hptrEq'⟩ := List.getElem?_eq_some_iff.mp hget'
    have hregions : Disjoint (region remoteLayout.dstKvItemLen itemCount ptr.1)
        (region remoteLayout.dstKvItemLen itemCount ptr'.1) := by
      rcases Nat.lt_or_gt_of_ne hsame with hbefore | hafter
      · have := List.pairwise_iff_getElem.mp h.disjoint _ _ hlt hlt' hbefore
        rwa [hptrEq, hptrEq'] at this
      · have := List.pairwise_iff_getElem.mp h.disjoint _ _ hlt' hlt hafter
        rw [hptrEq, hptrEq'] at this
        exact this.symm
    exact hregions.mono ((tiling_equal_blocks _ _ _).subset (Set.mem_Iio.mpr hpage))
      ((tiling_equal_blocks _ _ _).subset (Set.mem_Iio.mpr hpage'))

theorem targetsDisjoint_remote {itemCount : ℕ} (h : RegionsDisjoint remoteLayout itemCount)
    (hnodup : remoteLayout.dstKvIndices.Nodup) (hsizes : RemoteSizesAgree span layout remoteLayout)
    (hrange : ∀ page ∈ span.pageIndices.zip remoteLayout.dstKvIndices,
      RemotePageInRange layout remoteLayout page) :
    TargetsDisjoint ((span.pageIndices.zip remoteLayout.dstKvIndices).flatMap
      (exactPartRequests layout target remoteLayout)) := by
  have hlt : ∀ page ∈ span.pageIndices.zip remoteLayout.dstKvIndices,
      page.2.toNat < itemCount := by
    intro page hmem
    have hindex := h.index_lt page.2 (List.of_mem_zip (a := page.1) (b := page.2) hmem).2
    have := (hrange page hmem).1
    omega
  have hindices : (span.pageIndices.zip remoteLayout.dstKvIndices).Pairwise
      fun page page' => page.2 ≠ page'.2 := by
    have hsnd : ((span.pageIndices.zip remoteLayout.dstKvIndices).map Prod.snd).Nodup := by
      rw [List.map_snd_zip hsizes.indexCount.ge]
      exact hnodup
    exact List.pairwise_map.mp hsnd
  refine List.pairwise_flatMap.mpr ⟨fun page hpage => List.pairwise_map.mpr ?_, ?_⟩
  · exact (pairwise_zipIdx_ne remoteLayout.dstKvPtrs).imp_of_mem fun hptr hptr' hne =>
      disjoint_parts h (hlt page hpage) (hlt page hpage) hptr hptr' (.inl hne)
  · refine hindices.imp_of_mem fun {page page'} hpage hpage' hne => ?_
    have hnonneg := (hrange page hpage).1
    have hnonneg' := (hrange page' hpage').1
    intro request hrequest request' hrequest'
    obtain ⟨ptr, hptr, rfl⟩ := List.mem_map.mp hrequest
    obtain ⟨ptr', hptr', rfl⟩ := List.mem_map.mp hrequest'
    exact disjoint_parts h (hlt page hpage) (hlt page' hpage') hptr hptr' (.inr (by omega))

end Targets

/-! ### The geometry -/

/-- The start addresses are machine words. -/
def AddressesInRange (requests : List KvTransferRequest) : Prop :=
  ∀ request ∈ requests, request.source ≤ usizeMax ∧ request.targetOffset ≤ usizeMax

/-- The requests without a remote layout: one for each page, to the next page of the target. -/
structure LocalGeometry (span : KvCacheTransferSpan) (layout : KvTransferLayout)
    (target : KvTransferTarget) (requests : List KvTransferRequest) : Prop where
  length_eq : requests.length = span.pageIndices.length
  request_eq : ∀ k page : ℕ, span.pageIndices[k]? = some page → requests[k]? = some
    ⟨KvOpcode.write, layout.sourceBaseAddr + page * layout.pageSizeBytes, target.targetId,
      layout.targetBaseOffset + (span.pageOffset + k) * layout.pageSizeBytes, layout.pageSizeBytes⟩
  tilesPages : TilesPages layout span.pageIndices requests
  inRange : AddressesInRange requests
  targetsDisjoint : TargetsDisjoint requests

/-- The requests with a remote layout: one for each page and each buffer. The part of a page with
the number of a buffer goes to the item of this buffer that is named for the page. -/
structure RemoteGeometry (span : KvCacheTransferSpan) (layout : KvTransferLayout)
    (target : KvTransferTarget) (remoteLayout : KvRemoteLayout)
    (requests : List KvTransferRequest) : Prop where
  length_eq : requests.length = span.pageIndices.length * remoteLayout.dstKvPtrs.length
  index_nonneg : ∀ index ∈ remoteLayout.dstKvIndices, 0 ≤ index
  request_eq : ∀ (k page : ℕ) (index : ℤ), span.pageIndices[k]? = some page →
    remoteLayout.dstKvIndices[k]? = some index →
      ∀ j ptr : ℕ, remoteLayout.dstKvPtrs[j]? = some ptr →
    requests[k * remoteLayout.dstKvPtrs.length + j]? = some
      ⟨KvOpcode.write,
        layout.sourceBaseAddr + page * layout.pageSizeBytes + j * remoteLayout.dstKvItemLen,
        target.targetId, ptr + index.toNat * remoteLayout.dstKvItemLen, remoteLayout.dstKvItemLen⟩
  tilesPages : TilesPages layout span.pageIndices requests
  inRange : AddressesInRange requests
  targetsDisjoint : ∀ itemCount, remoteLayout.dstKvIndices.Nodup →
    RegionsDisjoint remoteLayout itemCount → TargetsDisjoint requests

section Geometry

variable {span : KvCacheTransferSpan} {layout : KvTransferLayout} {target : KvTransferTarget}
  {remoteLayout : KvRemoteLayout} {requests : List KvTransferRequest}

theorem localGeometry_of_build (h : buildKvTransferRequests span layout target = .ok requests) :
    LocalGeometry span layout target requests := by
  obtain ⟨⟨-, -, hrange⟩, rfl⟩ := buildKvTransferRequests_eq_ok_iff.mp h
  refine ⟨by simp, fun k page hpage => ?_, tilesPages_local, ?_, targetsDisjoint_local⟩
  · simp [List.getElem?_map, List.getElem?_zipIdx, hpage, exactPageRequest]
  · intro request hrequest
    obtain ⟨page, hpage, rfl⟩ := List.mem_map.mp hrequest
    exact ⟨(hrange page hpage).source_le, (hrange page hpage).target_le⟩

theorem remoteGeometry_of_build
    (h : buildRemoteKvTransferRequests span layout target remoteLayout = .ok requests) :
    RemoteGeometry span layout target remoteLayout requests := by
  obtain ⟨⟨hsizes, -, hrange⟩, rfl⟩ := buildRemoteKvTransferRequests_eq_ok_iff.mp h
  have hparts (page : ℕ × ℤ) : (exactPartRequests layout target remoteLayout page).length =
      remoteLayout.dstKvPtrs.length := by
    rw [exactPartRequests, List.length_map, List.length_zipIdx]
  refine ⟨?_, fun index hindex => ?_, fun k page index hpage hindex j ptr hptr => ?_,
    tilesPages_remote hsizes, ?_,
    fun itemCount hnodup h => targetsDisjoint_remote h hnodup hsizes hrange⟩
  · rw [Rows.length_flatMap_const fun page _ => hparts page, List.length_zip, ← hsizes.indexCount,
      Nat.min_self]
  · rw [← List.map_snd_zip hsizes.indexCount.ge] at hindex
    obtain ⟨page, hpage, rfl⟩ := List.mem_map.mp hindex
    exact (hrange page hpage).1
  · have hzip : (span.pageIndices.zip remoteLayout.dstKvIndices)[k]? = some (page, index) :=
      List.getElem?_zip_eq_some.mpr ⟨hpage, hindex⟩
    rw [Rows.getElem?_flatMap (fun page _ => hparts page) (List.getElem?_eq_some_iff.mp hptr).1,
      hzip, Option.bind_some, exactPartRequests, List.getElem?_map, List.getElem?_zipIdx, hptr]
    simp [exactPartRequest]
  · intro request hrequest
    obtain ⟨page, hpage, hrequest⟩ := List.mem_flatMap.mp hrequest
    obtain ⟨ptr, hptr, rfl⟩ := List.mem_map.mp hrequest
    have hpart := (hrange page hpage).2 ptr hptr
    exact ⟨hpart.source_le, hpart.target_le⟩

end Geometry

theorem exists_error_of_forall_ne {ε α : Type} {x : Except ε α} (h : ∀ a, x ≠ .ok a) :
    ∃ e, x = .error e := by
  cases x with
  | error e => exact ⟨e, rfl⟩
  | ok a => exact absurd rfl (h a)

/-- **The geometry of transfer requests.** The requests that are built for a span copy its pages in
order, byte for byte, to places that are not shared: with a remote layout this needs indices without
repetition and buffers that do not overlap. All start addresses are the mathematical ones. Sizes and
counts that do not agree, or a negative index, are an error. -/
theorem transfer_requests_geometry (span : KvCacheTransferSpan) (layout : KvTransferLayout)
    (target : KvTransferTarget) (remoteLayout : KvRemoteLayout) :
    (∀ requests, buildKvTransferRequests span layout target = .ok requests →
      LocalGeometry span layout target requests) ∧
    (layout.pageSizeBytes = 0 ∨
      divCeil span.tokenCount span.pageSize ≠ span.pageIndices.length →
      ∃ e, buildKvTransferRequests span layout target = .error e) ∧
    (∀ requests, buildRemoteKvTransferRequests span layout target remoteLayout = .ok requests →
      RemoteGeometry span layout target remoteLayout requests) ∧
    (¬RemoteSizesAgree span layout remoteLayout ∨ (∃ index ∈ remoteLayout.dstKvIndices, index < 0) →
      ∃ e, buildRemoteKvTransferRequests span layout target remoteLayout = .error e) := by
  refine ⟨fun _ h => localGeometry_of_build h, fun hmismatch => ?_,
    fun _ h => remoteGeometry_of_build h, fun hmismatch => ?_⟩
  · refine exists_error_of_forall_ne fun requests h => ?_
    obtain ⟨⟨hsize, hcount, -⟩, -⟩ := buildKvTransferRequests_eq_ok_iff.mp h
    exact hmismatch.elim hsize fun hne => hne hcount
  · refine exists_error_of_forall_ne fun requests h => ?_
    rcases hmismatch with hsizes | ⟨index, hindex, hnegative⟩
    · exact hsizes (buildRemoteKvTransferRequests_eq_ok_iff.mp h).1.1
    · exact absurd ((remoteGeometry_of_build h).index_nonneg index hindex) (not_le.mpr hnegative)

/-- Two tokens on the pages 2 and 3. -/
def twoPageSpan : KvCacheTransferSpan where
  requestId := ⟨"a"⟩
  disaggregatedParams := ⟨"10.0.0.1", 8998, 7⟩
  dataParallelRank := 0
  tokenOffset := 2
  tokenCount := 2
  cachePages := [2, 3]
  pageSize := 1
  pageIndices := [2, 3]
  firstToken := none
  pageSize_pos := one_pos

/-- Pages of 128 bytes that go to the items 5 and 3 of two buffers. -/
theorem transfer_requests_geometry_of_two_buffers :
    ∃ requests, buildRemoteKvTransferRequests twoPageSpan ⟨1024, 128, 0⟩ ⟨0⟩
      ⟨[4096, 8192], [5, 3], 64⟩ = .ok requests ∧ TargetsDisjoint requests := by
  obtain ⟨-, -, hremote, -⟩ := transfer_requests_geometry twoPageSpan ⟨1024, 128, 0⟩ ⟨0⟩
    ⟨[4096, 8192], [5, 3], 64⟩
  refine ⟨_, rfl, (hremote _ rfl).targetsDisjoint 6 (by decide) ⟨by decide, ?_⟩⟩
  refine List.pairwise_pair.mpr (Set.disjoint_left.mpr fun x hx hx' => ?_)
  have hend : x < 4096 + 6 * 64 := hx.2
  have hstart : 8192 ≤ x := hx'.1
  omega

end SglangRs
