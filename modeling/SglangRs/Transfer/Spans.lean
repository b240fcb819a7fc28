import SglangRs.Transfer.BlockHashes

/-!
# Spans and transfer requests

A prefill engine hands the KV cache of a prompt to a decode engine in *spans*, each a range of the
tokens of one request together with the physical pages that hold it
(`sglang-srt/src/transfer/mod.rs`, lines 464–600). A span is cut into one transport request for
every page, or for every page and every remote buffer where the decode engine has announced its own
layout (lines 2111–2318). Addresses and offsets are checked for overflow. The recurrent state that a
span may carry is read by the bootstrap publisher only and is left out.

## Main definitions

* `KvCacheTransferSpan`, `KvCacheTransferSpan.descriptorChecksum`; SHA-256 is the class `Sha256`.
* `buildKvTransferRequests`, `buildRemoteKvTransferRequests`.
-/

namespace SglangRs

abbrev BootstrapRoom := UInt64

abbrev KvBatchId := UInt64

/-- The hash function of the crate `sha2`. -/
class Sha256 where
  digest : List UInt8 → Digest

/-- A range of the tokens of a request with the pages that hold it. The page size of a span is
positive, since a plan with page size zero is rejected. -/
structure KvCacheTransferSpan where
  requestId : RequestId
  disaggregatedParams : DisaggregatedParams
  dataParallelRank : ℤ
  tokenOffset : ℕ
  tokenCount : ℕ
  cachePages : List ℕ
  pageSize : ℕ
  pageIndices : List ℕ
  firstToken : Option UInt32
  pageSize_pos : 0 < pageSize
deriving DecidableEq

/-- The bytes of an integer of the given width, least significant first. -/
def leBytes (width : ℕ) (value : ℤ) : List UInt8 :=
  (List.range width).map fun i => UInt8.ofNat ((value / 256 ^ i) % 256).toNat

def updateLenPrefixedStr (value : String) : List UInt8 :=
  leBytes 8 value.utf8ByteSize ++ value.toUTF8.toList

def hexDigit (n : ℕ) : Char := Char.ofNat (if n < 10 then n + 48 else n + 87)

def hexEncode (bytes : List UInt8) : String :=
  String.ofList (bytes.flatMap fun byte => [hexDigit (byte.toNat / 16), hexDigit (byte.toNat % 16)])

namespace KvCacheTransferSpan

variable (span : KvCacheTransferSpan)

def bootstrapRoom : BootstrapRoom := span.disaggregatedParams.bootstrapRoom

def pageOffset : ℕ := span.tokenOffset / span.pageSize

def isNoop : Bool := span.tokenCount = 0

/-- The bytes that identify a span. -/
def descriptor : List UInt8 :=
  "sglang-rs.kv-transfer-span.v2\x00".toUTF8.toList
    ++ updateLenPrefixedStr span.requestId.asStr
    ++ updateLenPrefixedStr span.disaggregatedParams.bootstrapHost
    ++ leBytes 2 span.disaggregatedParams.bootstrapPort.toNat
    ++ leBytes 8 span.disaggregatedParams.bootstrapRoom.toNat
    ++ leBytes 4 span.dataParallelRank
    ++ leBytes 8 span.tokenOffset
    ++ leBytes 8 span.tokenCount
    ++ leBytes 8 span.pageSize
    ++ leBytes 8 span.cachePages.length
    ++ span.cachePages.flatMap (fun page => leBytes 8 page)
    ++ leBytes 8 span.pageIndices.length
    ++ span.pageIndices.flatMap (fun page => leBytes 8 page)

/-- Source: `transfer/mod.rs`, lines 544–567. -/
def descriptorChecksum [Sha256] : String := hexEncode (Sha256.digest span.descriptor).toList

end KvCacheTransferSpan

/-! ### Transport requests -/

structure KvTransferLayout where
  sourceBaseAddr : ℕ
  pageSizeBytes : ℕ
  targetBaseOffset : ℕ
deriving DecidableEq, Repr

structure KvTransferTarget where
  targetId : ℤ
deriving DecidableEq, Repr

/-- The buffers a decode engine has announced for a room. -/
structure KvRemoteLayout where
  dstKvPtrs : List ℕ
  dstKvIndices : List ℤ
  dstKvItemLen : ℕ
deriving DecidableEq, Repr

/-- A write of `length` bytes at `source` to an offset of the target. -/
structure KvTransferRequest where
  opcode : ℤ
  source : ℕ
  targetId : ℤ
  targetOffset : ℕ
  length : ℕ
deriving DecidableEq, Repr

/-- The code of `KvOpcode::Write`. -/
def KvOpcode.write : ℤ := 1

inductive KvRequestBuildError where
  | zeroPageSize
  | zeroRemoteKvItemSize
  | missingRemoteKvPointers
  | spanPageCountMismatch (expectedPageCount sourcePageIndexCount : ℕ)
  | remoteKvIndexCountMismatch (sourcePageCount dstKvIndexCount : ℕ)
  | remoteKvItemLayoutMismatch (pageSizeBytes splitPageSize : ℕ)
  | negativeRemoteKvIndex (index : ℤ)
  | addressOverflow
  | offsetOverflow
deriving DecidableEq, Repr

/-- The text of an error. -/
def KvRequestBuildError.display : KvRequestBuildError → String
  | .zeroPageSize => "KV page size must be non-zero"
  | .zeroRemoteKvItemSize => "remote KV item size must be non-zero"
  | .missingRemoteKvPointers => "remote KV pointers must not be empty"
  | .spanPageCountMismatch expected count =>
      s!"KV transfer span requires {expected} physical pages but has {count} source page indices"
  | .remoteKvIndexCountMismatch source count =>
      s!"KV transfer span has {source} source pages but {count} remote KV indices"
  | .remoteKvItemLayoutMismatch size split =>
      s!"remote KV item layout requires exactly {size} bytes but has {split} bytes"
  | .negativeRemoteKvIndex index => s!"remote KV index must be non-negative: {index}"
  | .addressOverflow => "source address overflow"
  | .offsetOverflow => "target offset overflow"

/-- A sum or product that must fit into 64 bits. -/
def checked (error : KvRequestBuildError) (value : ℕ) : Except KvRequestBuildError ℕ :=
  if value ≤ usizeMax then .ok value else .error error

/-- The request for the page at position `pageIndex` of the span. -/
def pageRequest (span : KvCacheTransferSpan) (layout : KvTransferLayout)
    (target : KvTransferTarget) (sourcePageIndex pageIndex : ℕ) :
    Except KvRequestBuildError KvTransferRequest := do
  let sourceOffset ← checked .addressOverflow (sourcePageIndex * layout.pageSizeBytes)
  let sourceAddr ← checked .addressOverflow (layout.sourceBaseAddr + sourceOffset)
  let targetPageIndex ← checked .offsetOverflow (span.pageOffset + pageIndex)
  let pageTargetOffset ← checked .offsetOverflow (targetPageIndex * layout.pageSizeBytes)
  let targetOffset ← checked .offsetOverflow (layout.targetBaseOffset + pageTargetOffset)
  return ⟨KvOpcode.write, sourceAddr, target.targetId, targetOffset, layout.pageSizeBytes⟩

/-- Source: `transfer/mod.rs`, lines 2111–2163. -/
def buildKvTransferRequests (span : KvCacheTransferSpan) (layout : KvTransferLayout)
    (target : KvTransferTarget) : Except KvRequestBuildError (List KvTransferRequest) :=
  let expectedPageCount := divCeil span.tokenCount span.pageSize
  if layout.pageSizeBytes = 0 then .error .zeroPageSize
  else if expectedPageCount ≠ span.pageIndices.length then
    .error (.spanPageCountMismatch expectedPageCount span.pageIndices.length)
  else
    span.pageIndices.zipIdx.mapM fun page => pageRequest span layout target page.1 page.2

/-- The request for the part of a page that goes to the remote buffer at position `ptrIndex`. -/
def remotePartRequest (layout : KvTransferLayout) (target : KvTransferTarget)
    (itemLen dstKvIndex sourcePageIndex dstKvPtr ptrIndex : ℕ) :
    Except KvRequestBuildError KvTransferRequest := do
  let sourceOffset ← checked .addressOverflow (sourcePageIndex * layout.pageSizeBytes)
  let sourcePageAddr ← checked .addressOverflow (layout.sourceBaseAddr + sourceOffset)
  let partOffset ← checked .addressOverflow (ptrIndex * itemLen)
  let sourceAddr ← checked .addressOverflow (sourcePageAddr + partOffset)
  let itemOffset ← checked .offsetOverflow (dstKvIndex * itemLen)
  let targetOffset ← checked .offsetOverflow (dstKvPtr + itemOffset)
  return ⟨KvOpcode.write, sourceAddr, target.targetId, targetOffset, itemLen⟩

/-- The requests for one page, one for every remote buffer. -/
def remotePageRequests (layout : KvTransferLayout) (target : KvTransferTarget)
    (remoteLayout : KvRemoteLayout) (sourcePageIndex : ℕ) (dstKvIndex : ℤ) :
    Except KvRequestBuildError (List KvTransferRequest) :=
  if dstKvIndex < 0 then .error (.negativeRemoteKvIndex dstKvIndex)
  else
    remoteLayout.dstKvPtrs.zipIdx.mapM fun ptr =>
      remotePartRequest layout target remoteLayout.dstKvItemLen dstKvIndex.toNat sourcePageIndex
        ptr.1 ptr.2

/-- Source: `transfer/mod.rs`, lines 2165–2254. -/
def buildRemoteKvTransferRequests (span : KvCacheTransferSpan) (layout : KvTransferLayout)
    (target : KvTransferTarget) (remoteLayout : KvRemoteLayout) :
    Except KvRequestBuildError (List KvTransferRequest) := do
  let expectedPageCount := divCeil span.tokenCount span.pageSize
  if layout.pageSizeBytes = 0 then throw .zeroPageSize
  if remoteLayout.dstKvItemLen = 0 then throw .zeroRemoteKvItemSize
  if remoteLayout.dstKvPtrs = [] then throw .missingRemoteKvPointers
  if expectedPageCount ≠ span.pageIndices.length then
    throw (.spanPageCountMismatch expectedPageCount span.pageIndices.length)
  if span.pageIndices.length ≠ remoteLayout.dstKvIndices.length then
    throw (.remoteKvIndexCountMismatch span.pageIndices.length remoteLayout.dstKvIndices.length)
  let splitPageSize ←
    checked .addressOverflow (remoteLayout.dstKvItemLen * remoteLayout.dstKvPtrs.length)
  if splitPageSize ≠ layout.pageSizeBytes then
    throw (.remoteKvItemLayoutMismatch layout.pageSizeBytes splitPageSize)
  let pages ← (span.pageIndices.zip remoteLayout.dstKvIndices).mapM fun page =>
    remotePageRequests layout target remoteLayout page.1 page.2
  return pages.flatten

end SglangRs
