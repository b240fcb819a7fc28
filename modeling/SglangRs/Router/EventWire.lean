import SglangRs.Router.Index
import SglangRs.Transfer.StateEvents

/-!
# The router's reading of cache events

The router decodes the batches that the engine publishes with visitors written by hand: every
struct is an array, an event starts with the name of its class, trailing fields may be missing and
further ones are skipped. The lengths of the two lists of an event are bounded, so that a corrupt
length does not make the router allocate gigabytes; an error of a bound travels through the errors
of the library as a text and is recognised by it at the end.

The engine writes lengths as 32-bit numbers, so a list of `2 ^ 32` elements and more announces
fewer elements than follow. The decoder then meets a number where an array or a text has to be, and
the event is refused all the same.

## Main definitions

* `Wire.KvEventBatch`, `Wire.KvCacheEvent`: what the router decodes.
* `Wire.visitBatch`, `Wire.visitEvent`, `Wire.decodeEventBatch`: the decoder.
* `Wire.Fits`, `Wire.received`: the events that are accepted, and how they arrive.

## Main results

* `Wire.decodeEventBatch_agrees`: a batch of the engine is decoded as what was encoded or refused.
* `Wire.decodeMessage_zmqMessage`: what the engine publishes reaches the tree.
-/

namespace SglangRs.Router.Wire

/-! ### Events -/

structure BlockStored where
  blockHashes : List Int64
  parentBlockHash : Option Int64
  tokenIds : List UInt32
  blockSize : UInt32
  loraId : Option Int64
  medium : Option String
deriving DecidableEq, Repr

structure BlockRemoved where
  blockHashes : List Int64
  medium : Option String
deriving DecidableEq, Repr

inductive KvCacheEvent where
  | blockStored (event : BlockStored)
  | blockRemoved (event : BlockRemoved)
  | allBlocksCleared
deriving DecidableEq, Repr

/-- A batch; the time is kept as the bits of a floating-point number. -/
structure KvEventBatch where
  ts : UInt64
  events : List KvCacheEvent
  attnDpRank : Option UInt32
deriving DecidableEq, Repr

def maxHashesPerEvent : ℕ := 65536

def maxTokensPerEvent : ℕ := 1048576

def payloadTooLargeTag : String := "kv_events::wire::PAYLOAD_TOO_LARGE"

inductive DecodeError (ε : Type) where
  | msgpack (error : ε)
  | payloadTooLarge (field : String) (len cap : ℕ)
deriving DecidableEq, Repr

/-! ### The decoder -/

section Decoder

variable {ε α : Type} (mp : MsgPack ε)

/-- The error of a bounded list, as a text of the library. -/
def tooLarge (field : String) (len cap : ℕ) : ε :=
  mp.custom (payloadTooLargeTag ++ ":" ++ field ++ ":" ++ toString len ++ ":" ++ toString cap)

/-- The visitor of `BoundedI64Vec` and `BoundedU32Vec`.

Source: `wire.rs`, lines 171–212 and 216–261. -/
def boundedVec (field : String) (cap elementSize : ℕ) (read : Reader ε α) : Visit ε (List α) :=
  fun seq =>
    if cap < seq.left then .err (tooLarge mp field seq.left cap)
    else do
      let out ← withCapacity seq.left elementSize
      whileSome read (fun out v =>
        if cap ≤ out.length then .err (tooLarge mp field (out.length + 1) cap)
        else .ok (out ++ [v])) out seq

def boundedI64Vec : Reader ε (List Int64) :=
  mp.deserializeSeq (boundedVec mp "block_hashes" maxHashesPerEvent 8 (Reader.of mp.i64))

def boundedU32Vec : Reader ε (List UInt32) :=
  mp.deserializeSeq (boundedVec mp "token_ids" maxTokensPerEvent 4 (Reader.of mp.u32))

/-- A field that has to be there. -/
def required (field : String) (read : Reader ε α) : Visit ε α := fun seq => do
  match ← nextElement read seq with
  | (some a, seq) => return (a, seq)
  | (none, _) => .err (mp.missingField field)

/-- A field that may be missing or nil. -/
def optional (read : Reader ε α) : Visit ε (Option α) := fun seq => do
  let (a, seq) ← nextElement (mp.option read) seq
  return (a.join, seq)

/-- Skip further fields. -/
def drain : Visit ε Unit :=
  whileSome (fun bytes => do return ((), ← RustResult.ofExcept (mp.ignoredAny bytes)))
    (fun _ _ => .ok ()) ()

/-- Source: `wire.rs`, lines 334–359. -/
def visitBlockStored : Visit ε BlockStored := fun seq => do
  let (blockHashes, seq) ← required mp "block_hashes" (boundedI64Vec mp) seq
  let (parentBlockHash, seq) ← optional mp (Reader.of mp.i64) seq
  let (tokenIds, seq) ← required mp "token_ids" (boundedU32Vec mp) seq
  let (blockSize, seq) ← required mp "block_size" (Reader.of mp.u32) seq
  let (loraId, seq) ← optional mp (Reader.of mp.i64) seq
  let (medium, seq) ← optional mp (Reader.of mp.str) seq
  let (_, seq) ← drain mp seq
  return (⟨blockHashes, parentBlockHash, tokenIds, blockSize, loraId, medium⟩, seq)

/-- Source: `wire.rs`, lines 360–370. -/
def visitBlockRemoved : Visit ε BlockRemoved := fun seq => do
  let (blockHashes, seq) ← required mp "block_hashes" (boundedI64Vec mp) seq
  let (medium, seq) ← optional mp (Reader.of mp.str) seq
  let (_, seq) ← drain mp seq
  return (⟨blockHashes, medium⟩, seq)

/-- Source: `wire.rs`, lines 311–385. -/
def visitEvent : Visit ε KvCacheEvent := fun seq => do
  let (tag, seq) ← required mp "event tag" (Reader.of mp.str) seq
  if tag = "BlockStored" then
    let (event, seq) ← visitBlockStored mp seq
    return (.blockStored event, seq)
  else if tag = "BlockRemoved" then
    let (event, seq) ← visitBlockRemoved mp seq
    return (.blockRemoved event, seq)
  else if tag = "AllBlocksCleared" then
    let (_, seq) ← drain mp seq
    return (.allBlocksCleared, seq)
  else .err (mp.unknownVariant tag ["BlockStored", "BlockRemoved", "AllBlocksCleared"])

/-- The events of a batch. -/
def readEvents : Reader ε (List KvCacheEvent) :=
  mp.deserializeSeq (whileSome (mp.deserializeSeq (visitEvent mp))
    (fun events event => .ok (events ++ [event])) [])

/-- Source: `wire.rs`, lines 269–309. -/
def visitBatch : Visit ε KvEventBatch := fun seq => do
  let (ts, seq) ← required mp "ts" (Reader.of mp.f64) seq
  let (events, seq) ← required mp "events" (readEvents mp) seq
  let (attnDpRank, seq) ← optional mp (Reader.of mp.u32) seq
  let (_, seq) ← drain mp seq
  return (⟨ts, events, attnDpRank⟩, seq)

/-- The bound that the text of an error names: the field, the length and the bound. -/
def payloadTooLarge? (text : String) : Option (String × ℕ × ℕ) := do
  let rest ← payloadTooLargeTag.toList.isPrefixOf? text.toList
  match (rest.dropWhile (· = ':')).splitOn ':' with
  | field :: len :: cap :: _ =>
      let len ← parseUnsigned (2 ^ 64) (String.ofList len)
      let cap ← parseUnsigned (2 ^ 64) (String.ofList cap)
      if String.ofList field = "block_hashes" then some ("block_hashes", len, cap)
      else if String.ofList field = "token_ids" then some ("token_ids", len, cap)
      else none
  | _ => none

def DecodeError.ofLibrary (error : ε) : DecodeError ε :=
  match payloadTooLarge? (mp.toString error) with
  | some (field, len, cap) => .payloadTooLarge field len cap
  | none => .msgpack error

/-- Bytes after the batch are not looked at.

Source: `wire.rs`, lines 135–163. -/
def decodeEventBatch (bytes : Bytes) : RustResult (DecodeError ε) KvEventBatch :=
  match mp.deserializeSeq (visitBatch mp) bytes with
  | .ok (batch, _) => .ok batch
  | .err e => .err (DecodeError.ofLibrary mp e)
  | .panicked => .panicked

end Decoder

/-! ### Fields -/

section Fields

variable {ε α : Type} {mp : MsgPack ε}

theorem required_succ {field : String} {read : Reader ε α} {bytes rest : Bytes} {a : α}
    (h : read bytes = .ok (a, rest)) (left : ℕ) :
    required mp field read ⟨left + 1, bytes⟩ = .ok (a, ⟨left, rest⟩) := by
  simp [required, nextElement_succ h]

theorem required_err {field : String} {read : Reader ε α} {bytes : Bytes} {e : ε}
    (h : read bytes = .err e) (left : ℕ) :
    required mp field read ⟨left + 1, bytes⟩ = .err e := by
  simp [required, nextElement, h]

theorem required_isErr {field : String} {read : Reader ε α} {bytes : Bytes}
    (h : (read bytes).IsErr) (left : ℕ) :
    (required mp field read ⟨left + 1, bytes⟩).IsErr := by
  obtain ⟨e, he⟩ := h
  exact ⟨e, required_err he left⟩

theorem optional_succ {read : Reader ε α} {bytes rest : Bytes} {a : Option α}
    (h : mp.option read bytes = .ok (a, rest)) (left : ℕ) :
    optional mp read ⟨left + 1, bytes⟩ = .ok (a, ⟨left, rest⟩) := by
  simp [optional, nextElement_succ h]

theorem optional_isErr {read : Reader ε α} {bytes : Bytes}
    (h : (mp.option read bytes).IsErr) (left : ℕ) :
    (optional mp read ⟨left + 1, bytes⟩).IsErr :=
  RustResult.IsErr.bind (RustResult.IsErr.bind h _) _

@[simp] theorem optional_zero (read : Reader ε α) (bytes : Bytes) :
    optional mp read ⟨0, bytes⟩ = .ok (none, ⟨0, bytes⟩) := rfl

@[simp] theorem drain_zero (bytes : Bytes) : drain mp ⟨0, bytes⟩ = .ok ((), ⟨0, bytes⟩) := rfl

end Fields

/-! ### Bounded lists -/

section Bounded

variable {ε α : Type} {mp : MsgPack ε} {field : String} {cap size : ℕ} {read : Reader ε α}
  {encode : α → Bytes}

theorem foldlM_push (mp : MsgPack ε) (field : String) {cap : ℕ} (out as : List α)
    (h : out.length + as.length ≤ cap) :
    as.foldlM (fun out v =>
      if cap ≤ out.length then .err (tooLarge mp field (out.length + 1) cap)
      else .ok (out ++ [v])) out = RustResult.ok (out ++ as) := by
  induction as generalizing out with
  | nil => simp
  | cons a as ih =>
      rw [List.length_cons] at h
      rw [List.foldlM_cons, if_neg (by omega), RustResult.ok_bind, ih _ (by simp; omega)]
      simp

/-- A list within its bound is read to its end. -/
theorem boundedVec_flatMap (hread : ∀ a rest, read (encode a ++ rest) = .ok (a, rest))
    (hsize : cap * size < 2 ^ 63) {as : List α} (has : as.length ≤ cap) (rest : Bytes) :
    boundedVec mp field cap size read ⟨as.length, as.flatMap encode ++ rest⟩ =
      .ok (as, ⟨0, rest⟩) := by
  have hcapacity : as.length * size < 2 ^ 63 :=
    (Nat.mul_le_mul_right size has).trans_lt hsize
  rw [boundedVec, if_neg (by simpa using has)]
  simp only [withCapacity, if_pos hcapacity, RustResult.ok_bind]
  rw [whileSome_flatMap hread, foldlM_push mp field [] as (by simpa using has)]
  simp

theorem deserializeSeq_bounded (h : mp.Lawful)
    (hread : ∀ a rest, read (encode a ++ rest) = .ok (a, rest)) (hcap : cap < 2 ^ 32)
    (hsize : cap * size < 2 ^ 63) {as : List α} (has : as.length ≤ cap) (rest : Bytes) :
    mp.deserializeSeq (boundedVec mp field cap size read)
      (mp.writeArrayLen (UInt32.ofNat as.length) ++ (as.flatMap encode ++ rest)) =
      .ok (as, rest) := by
  have hlen : (UInt32.ofNat as.length).toNat = as.length :=
    UInt32.toNat_ofNat_of_lt' (has.trans_lt hcap)
  rw [h.deserializeSeq_write, hlen, boundedVec_flatMap hread hsize has]
  rfl

/-- A list above its bound is refused, or its announced length has wrapped around: then the reader
stops early, with many elements before it. -/
theorem deserializeSeq_unbounded (h : mp.Lawful)
    (hread : ∀ a rest, read (encode a ++ rest) = .ok (a, rest))
    (hsize : cap * size < 2 ^ 63) {as : List α} (has : cap < as.length) (rest : Bytes) :
    (mp.deserializeSeq (boundedVec mp field cap size read)
      (mp.writeArrayLen (UInt32.ofNat as.length) ++ (as.flatMap encode ++ rest))).IsErr ∨
    ∃ first others, as = first ++ others ∧ 2 < others.length ∧
      mp.deserializeSeq (boundedVec mp field cap size read)
        (mp.writeArrayLen (UInt32.ofNat as.length) ++ (as.flatMap encode ++ rest)) =
        .ok (first, others.flatMap encode ++ rest) := by
  have hlen : (UInt32.ofNat as.length).toNat = as.length % 2 ^ 32 := UInt32.toNat_ofNat'
  by_cases hwrap : cap < as.length % 2 ^ 32
  · left
    refine ⟨tooLarge mp field (as.length % 2 ^ 32) cap, ?_⟩
    rw [h.deserializeSeq_write, hlen, boundedVec, if_pos hwrap]
    rfl
  · right
    have hfirst : (as.take (as.length % 2 ^ 32)).length = as.length % 2 ^ 32 := by
      rw [List.length_take]
      omega
    refine ⟨as.take (as.length % 2 ^ 32), as.drop (as.length % 2 ^ 32),
      (List.take_append_drop _ as).symm, ?_, ?_⟩
    · rw [List.length_drop]
      omega
    · have hsplit : as.flatMap encode = (as.take (as.length % 2 ^ 32)).flatMap encode ++
          (as.drop (as.length % 2 ^ 32)).flatMap encode := by
        rw [← List.flatMap_append, List.take_append_drop]
      have hfits : boundedVec mp field cap size read ⟨(as.take (as.length % 2 ^ 32)).length,
          (as.take (as.length % 2 ^ 32)).flatMap encode ++
            ((as.drop (as.length % 2 ^ 32)).flatMap encode ++ rest)⟩ = _ :=
        boundedVec_flatMap hread hsize (by omega) _
      rw [hfirst] at hfits
      rw [h.deserializeSeq_write, hlen, hsplit, List.append_assoc, hfits]
      rfl

end Bounded

/-! ### Agreement -/

/-- The event keeps to the bounds of the router. -/
def Fits : ZmqPublishCommand → Prop
  | .blockStored event => event.blockHashes.length ≤ maxHashesPerEvent ∧
      event.tokenIds.length ≤ maxTokensPerEvent ∧ event.blockSize < 2 ^ 32
  | .blockRemoved event => event.blockHashes.length ≤ maxHashesPerEvent
  | .allBlocksCleared => True

instance : DecidablePred Fits := fun command => by
  cases command <;> unfold Fits <;> infer_instance

/-- The event that arrives. -/
def received : ZmqPublishCommand → KvCacheEvent
  | .blockStored event => .blockStored
      { blockHashes := event.blockHashes
        parentBlockHash := event.parentBlockHash
        tokenIds := event.tokenIds
        blockSize := UInt32.ofNat event.blockSize
        loraId := none
        medium := some event.boundary.medium }
  | .blockRemoved event => .blockRemoved ⟨event.blockHashes, none⟩
  | .allBlocksCleared => .allBlocksCleared

/-- The block size is a `usize`. -/
def Representable : ZmqPublishCommand → Prop
  | .blockStored event => event.blockSize < 2 ^ 64
  | _ => True

section Agreement

variable {ε : Type} {mp : MsgPack ε} (h : mp.Lawful)

include h

theorem boundedI64Vec_encode {blockHashes : List Int64}
    (hlen : blockHashes.length ≤ maxHashesPerEvent) (rest : Bytes) :
    boundedI64Vec mp (encodeHashes mp blockHashes ++ rest) = .ok (blockHashes, rest) := by
  rw [encodeHashes, List.append_assoc]
  exact deserializeSeq_bounded h h.i64_sint (by decide) (by decide) hlen rest

theorem boundedI64Vec_overrun {blockHashes : List Int64}
    (hlen : maxHashesPerEvent < blockHashes.length) (rest : Bytes) :
    (boundedI64Vec mp (encodeHashes mp blockHashes ++ rest)).IsErr ∨
    ∃ first others : List Int64, 2 < others.length ∧
      boundedI64Vec mp (encodeHashes mp blockHashes ++ rest) =
        .ok (first, others.flatMap mp.writeSint ++ rest) := by
  rw [encodeHashes, List.append_assoc]
  refine (deserializeSeq_unbounded h h.i64_sint (by decide) hlen rest).imp id ?_
  rintro ⟨first, others, -, hothers, hread⟩
  exact ⟨first, others, hothers, hread⟩

theorem boundedU32Vec_encode {tokenIds : List UInt32}
    (hlen : tokenIds.length ≤ maxTokensPerEvent) (rest : Bytes) :
    boundedU32Vec mp (encodeTokens mp tokenIds ++ rest) = .ok (tokenIds, rest) := by
  rw [encodeTokens, List.append_assoc]
  exact deserializeSeq_bounded h h.u32_uint (by decide) (by decide) hlen rest

theorem boundedU32Vec_overrun {tokenIds : List UInt32}
    (hlen : maxTokensPerEvent < tokenIds.length) (rest : Bytes) :
    (boundedU32Vec mp (encodeTokens mp tokenIds ++ rest)).IsErr ∨
    ∃ first others : List UInt32, 2 < others.length ∧
      boundedU32Vec mp (encodeTokens mp tokenIds ++ rest) =
        .ok (first, others.flatMap (fun id => mp.writeUint id.toUInt64) ++ rest) := by
  rw [encodeTokens, List.append_assoc]
  refine (deserializeSeq_unbounded h h.u32_uint (by decide) hlen rest).imp id ?_
  rintro ⟨first, others, -, hothers, hread⟩
  exact ⟨first, others, hothers, hread⟩

theorem option_i64_sint (x : Int64) (rest : Bytes) :
    mp.option (Reader.of mp.i64) (mp.writeSint x ++ rest) = .ok (some x, rest) :=
  h.option_ok (by simp) (h.i64_sint x rest)

theorem option_i64_uint (x : UInt32) (rest : Bytes) :
    mp.option (Reader.of mp.i64) (mp.writeUint x.toUInt64 ++ rest) =
      .ok (some (Int64.ofInt x.toNat), rest) :=
  h.option_ok (by simp) (h.i64_uint x rest)

theorem option_u32 (x : UInt32) (rest : Bytes) :
    mp.option (Reader.of mp.u32) (mp.writeUint x.toUInt64 ++ rest) = .ok (some x, rest) :=
  h.option_ok (by simp) (h.u32_uint x rest)

theorem option_str (text : String) (rest : Bytes) :
    mp.option (Reader.of mp.str) (mp.writeStr text ++ rest) = .ok (some text, rest) :=
  h.option_ok (by simp) (h.str_str text rest)

theorem option_encodeParent (hash : Option Int64) (rest : Bytes) :
    mp.option (Reader.of mp.i64) (encodeParent mp hash ++ rest) = .ok (hash, rest) := by
  cases hash with
  | none => exact h.option_nil _ rest
  | some x => exact option_i64_sint h x rest

theorem visitEvent_stored (left : ℕ) (rest : Bytes) :
    visitEvent mp ⟨left + 1, mp.writeStr "BlockStored" ++ rest⟩ =
      visitBlockStored mp ⟨left, rest⟩ >>= fun x => .ok (.blockStored x.1, x.2) := by
  simp only [visitEvent, required_succ (h.str_str "BlockStored" rest) left, RustResult.ok_bind]
  rfl

theorem visitEvent_removed (left : ℕ) (rest : Bytes) :
    visitEvent mp ⟨left + 1, mp.writeStr "BlockRemoved" ++ rest⟩ =
      visitBlockRemoved mp ⟨left, rest⟩ >>= fun x => .ok (.blockRemoved x.1, x.2) := by
  simp only [visitEvent, required_succ (h.str_str "BlockRemoved" rest) left, RustResult.ok_bind]
  rfl

theorem visitEvent_cleared (rest : Bytes) :
    visitEvent mp ⟨1, mp.writeStr "AllBlocksCleared" ++ rest⟩ =
      .ok (.allBlocksCleared, ⟨0, rest⟩) := by
  simp only [visitEvent, required_succ (h.str_str "AllBlocksCleared" rest) 0, RustResult.ok_bind]
  rfl

theorem readRemoved {event : BlockRemovedEvent} (hfits : Fits (.blockRemoved event))
    (rest : Bytes) : mp.deserializeSeq (visitEvent mp) (encodeBlockRemoved mp event ++ rest) =
      .ok (received (.blockRemoved event), rest) := by
  simp only [encodeBlockRemoved, List.append_assoc]
  rw [h.deserializeSeq_write]
  show visitEvent mp ⟨2 + 1, _⟩ >>= _ = _
  rw [visitEvent_removed h]
  simp only [visitBlockRemoved, required_succ (boundedI64Vec_encode h hfits _) 1,
    optional_succ (h.option_nil _ rest) 0, RustResult.ok_bind, drain_zero, RustResult.pure_eq]
  rfl

theorem readRemoved_isErr {event : BlockRemovedEvent} (hfits : ¬ Fits (.blockRemoved event))
    (rest : Bytes) :
    (mp.deserializeSeq (visitEvent mp) (encodeBlockRemoved mp event ++ rest)).IsErr := by
  have hlen : maxHashesPerEvent < event.blockHashes.length := not_le.1 hfits
  simp only [encodeBlockRemoved, List.append_assoc]
  rw [h.deserializeSeq_write]
  show RustResult.IsErr (visitEvent mp ⟨2 + 1, _⟩ >>= _)
  rw [visitEvent_removed h]
  refine RustResult.IsErr.bind (RustResult.IsErr.bind ?_ _) _
  obtain herr | ⟨first, others, hothers, hread⟩ :=
    boundedI64Vec_overrun h hlen (mp.writeNil ++ rest)
  · exact RustResult.IsErr.bind (required_isErr herr 1) _
  · -- the medium meets one of the hashes that are left
    obtain ⟨x, others, rfl⟩ := List.exists_cons_of_length_pos (by omega : 0 < others.length)
    simp only [visitBlockRemoved, required_succ hread 1, RustResult.ok_bind, List.flatMap_cons,
      List.append_assoc]
    exact RustResult.IsErr.bind (optional_isErr (h.option_isErr (by simp) (h.str_err rfl _)) 0) _

theorem readCleared (rest : Bytes) :
    mp.deserializeSeq (visitEvent mp) (encodeAllBlocksCleared mp ++ rest) =
      .ok (received .allBlocksCleared, rest) := by
  simp only [encodeAllBlocksCleared, List.append_assoc]
  rw [h.deserializeSeq_write]
  show visitEvent mp ⟨1, _⟩ >>= _ = _
  rw [visitEvent_cleared h]
  rfl

theorem readStored {event : BlockStoredEvent} (hfits : Fits (.blockStored event)) (rest : Bytes) :
    mp.deserializeSeq (visitEvent mp) (encodeBlockStored mp event ++ rest) =
      .ok (received (.blockStored event), rest) := by
  obtain ⟨hhashes, htokens, hsize⟩ := hfits
  simp only [encodeBlockStored, List.append_assoc]
  rw [h.deserializeSeq_write]
  show visitEvent mp ⟨6 + 1, _⟩ >>= _ = _
  rw [visitEvent_stored h]
  simp only [visitBlockStored, required_succ (boundedI64Vec_encode h hhashes _) 5,
    optional_succ (option_encodeParent h event.parentBlockHash _) 4,
    required_succ (boundedU32Vec_encode h htokens _) 3, required_succ (h.u32_ofNat hsize _) 2,
    optional_succ (h.option_nil _ _) 1, optional_succ (option_str h _ rest) 0, RustResult.ok_bind,
    drain_zero, RustResult.pure_eq]
  rfl

theorem readStored_isErr {event : BlockStoredEvent} (hsize : event.blockSize < 2 ^ 64)
    (hfits : ¬ Fits (.blockStored event)) (rest : Bytes) :
    (mp.deserializeSeq (visitEvent mp) (encodeBlockStored mp event ++ rest)).IsErr := by
  simp only [encodeBlockStored, List.append_assoc]
  rw [h.deserializeSeq_write]
  show RustResult.IsErr (visitEvent mp ⟨6 + 1, _⟩ >>= _)
  rw [visitEvent_stored h]
  refine RustResult.IsErr.bind (RustResult.IsErr.bind ?_ _) _
  by_cases hhashes : event.blockHashes.length ≤ maxHashesPerEvent
  · simp only [visitBlockStored, required_succ (boundedI64Vec_encode h hhashes _) 5,
      optional_succ (option_encodeParent h event.parentBlockHash _) 4, RustResult.ok_bind]
    by_cases htokens : event.tokenIds.length ≤ maxTokensPerEvent
    · have hlarge : 2 ^ 32 ≤ event.blockSize := not_lt.1 fun hlt => hfits ⟨hhashes, htokens, hlt⟩
      simp only [required_succ (boundedU32Vec_encode h htokens _) 3, RustResult.ok_bind]
      exact RustResult.IsErr.bind (required_isErr (h.u32_ofNat_err hsize hlarge _) 2) _
    · obtain herr | ⟨first, others, hothers, hread⟩ := boundedU32Vec_overrun h (not_le.1 htokens)
        (mp.writeUint (UInt64.ofNat event.blockSize) ++ (mp.writeNil ++
          (mp.writeStr event.boundary.medium ++ rest)))
      · exact RustResult.IsErr.bind (required_isErr herr 3) _
      · -- two tokens pass as block size and adapter, the medium meets the third
        obtain ⟨x, y, z, others, rfl⟩ : ∃ x y z others', others = x :: y :: z :: others' := by
          match others, hothers with
          | x :: y :: z :: others', _ => exact ⟨x, y, z, others', rfl⟩
        simp only [required_succ hread 3, RustResult.ok_bind, List.flatMap_cons, List.append_assoc,
          required_succ (h.u32_uint x _) 2, optional_succ (option_i64_uint h y _) 1]
        exact RustResult.IsErr.bind (optional_isErr (h.option_isErr (by simp) (h.str_err rfl _)) 0) _
  · obtain herr | ⟨first, others, hothers, hread⟩ := boundedI64Vec_overrun h (not_le.1 hhashes)
      (encodeParent mp event.parentBlockHash ++ (encodeTokens mp event.tokenIds ++
        (mp.writeUint (UInt64.ofNat event.blockSize) ++ (mp.writeNil ++
          (mp.writeStr event.boundary.medium ++ rest)))))
    · exact RustResult.IsErr.bind (required_isErr herr 5) _
    · -- one hash passes as the parent, the list of tokens meets the second
      obtain ⟨x, y, others, rfl⟩ : ∃ x y others', others = x :: y :: others' := by
        match others, hothers with
        | x :: y :: others', _ => exact ⟨x, y, others', rfl⟩
      simp only [visitBlockStored, required_succ hread 5, RustResult.ok_bind, List.flatMap_cons,
        List.append_assoc, optional_succ (option_i64_sint h x _) 4]
      exact RustResult.IsErr.bind (required_isErr (h.deserializeSeq_err (p := .sint y) _ rfl _) 3) _

/-- An event of the engine is read as itself if it keeps to the bounds. -/
theorem readEvent {command : ZmqPublishCommand} (hfits : Fits command) (rest : Bytes) :
    mp.deserializeSeq (visitEvent mp) (command.encode mp ++ rest) = .ok (received command, rest) :=
  match command, hfits with
  | .blockStored _, hfits => readStored h hfits rest
  | .blockRemoved _, hfits => readRemoved h hfits rest
  | .allBlocksCleared, _ => readCleared h rest

/-- An event of the engine is refused if it does not. -/
theorem readEvent_isErr {command : ZmqPublishCommand} (hrep : Representable command)
    (hfits : ¬ Fits command) (rest : Bytes) :
    (mp.deserializeSeq (visitEvent mp) (command.encode mp ++ rest)).IsErr :=
  match command, hrep, hfits with
  | .blockStored _, hrep, hfits => readStored_isErr h hrep hfits rest
  | .blockRemoved _, _, hfits => readRemoved_isErr h hfits rest
  | .allBlocksCleared, _, hfits => absurd trivial hfits

/-! ### Batches -/

theorem readEvents_encode (eventBytes rest : Bytes) :
    readEvents mp (mp.writeArrayLen 1 ++ (eventBytes ++ rest)) =
      mp.deserializeSeq (visitEvent mp) (eventBytes ++ rest) >>= fun x => .ok ([x.1], x.2) := by
  rw [readEvents, h.deserializeSeq_write]
  show whileSome.go _ _ 1 [] _ >>= _ = _
  simp only [whileSome.go]
  cases mp.deserializeSeq (visitEvent mp) (eventBytes ++ rest) <;> rfl

/-- A batch of an event that is read. -/
theorem readBatch {eventBytes : Bytes} {event : KvCacheEvent} {ts : UInt64} {rank : Option UInt32}
    (hread : mp.deserializeSeq (visitEvent mp) (eventBytes ++ encodeRank mp rank) =
      .ok (event, encodeRank mp rank)) :
    mp.deserializeSeq (visitBatch mp) (encodeSingleEventBatch mp ts eventBytes rank) =
      .ok (⟨ts, [event], rank⟩, []) := by
  have hevents := readEvents_encode h eventBytes (encodeRank mp rank)
  rw [hread, RustResult.ok_bind] at hevents
  simp only [encodeSingleEventBatch, List.append_assoc]
  rw [h.deserializeSeq_write]
  cases rank with
  | none =>
      show visitBatch mp ⟨1 + 1, _⟩ >>= _ = _
      simp only [visitBatch, required_succ (h.f64_f64 ts _) 1, required_succ hevents 0,
        optional_zero, RustResult.ok_bind, drain_zero, RustResult.pure_eq]
      rfl
  | some rank =>
      have hrank : mp.option (Reader.of mp.u32) (encodeRank mp (some rank)) =
          .ok (some rank, []) := by
        have := option_u32 h rank []
        rwa [List.append_nil] at this
      show visitBatch mp ⟨2 + 1, _⟩ >>= _ = _
      simp only [visitBatch, required_succ (h.f64_f64 ts _) 2, required_succ hevents 1,
        RustResult.ok_bind, optional_succ hrank 0, drain_zero, RustResult.pure_eq]

/-- A batch of an event that is refused. -/
theorem readBatch_err {eventBytes : Bytes} {ts : UInt64} {rank : Option UInt32} {e : ε}
    (hread : mp.deserializeSeq (visitEvent mp) (eventBytes ++ encodeRank mp rank) = .err e) :
    mp.deserializeSeq (visitBatch mp) (encodeSingleEventBatch mp ts eventBytes rank) = .err e := by
  have hevents := readEvents_encode h eventBytes (encodeRank mp rank)
  rw [hread, RustResult.err_bind] at hevents
  simp only [encodeSingleEventBatch, List.append_assoc]
  rw [h.deserializeSeq_write]
  cases rank with
  | none =>
      show visitBatch mp ⟨1 + 1, _⟩ >>= _ = _
      simp only [visitBatch, required_succ (h.f64_f64 ts _) 1, required_err hevents 0,
        RustResult.ok_bind, RustResult.err_bind]
  | some rank =>
      show visitBatch mp ⟨2 + 1, _⟩ >>= _ = _
      simp only [visitBatch, required_succ (h.f64_f64 ts _) 2, required_err hevents 1,
        RustResult.ok_bind, RustResult.err_bind]

end Agreement

/-! ### No panic -/

section Returns

variable {ε α : Type} (mp : MsgPack ε)

theorem returns_boundedVec (field : String) {cap size : ℕ} (hsize : cap * size < 2 ^ 63)
    {read : Reader ε α} (hread : ∀ bytes, (read bytes).Returns) (seq : SeqAccess) :
    (boundedVec mp field cap size read seq).Returns := by
  unfold boundedVec
  by_cases hleft : cap < seq.left
  · rw [if_pos hleft]
    exact RustResult.returns_err _
  · have hcapacity : seq.left * size < 2 ^ 63 :=
      (Nat.mul_le_mul_right size (not_lt.1 hleft)).trans_lt hsize
    rw [if_neg hleft, withCapacity, if_pos hcapacity, RustResult.ok_bind]
    refine returns_whileSome hread (fun out v => ?_) [] seq
    split
    · exact RustResult.returns_err _
    · exact RustResult.returns_ok _

theorem returns_boundedI64Vec (bytes : Bytes) : (boundedI64Vec mp bytes).Returns :=
  mp.returns_deserializeSeq (returns_boundedVec mp _ (by decide) (Reader.returns_of _)) bytes

theorem returns_boundedU32Vec (bytes : Bytes) : (boundedU32Vec mp bytes).Returns :=
  mp.returns_deserializeSeq (returns_boundedVec mp _ (by decide) (Reader.returns_of _)) bytes

theorem returns_required (field : String) {read : Reader ε α}
    (hread : ∀ bytes, (read bytes).Returns) (seq : SeqAccess) :
    (required mp field read seq).Returns := by
  refine (returns_nextElement hread seq).bind fun x _ => ?_
  split
  · exact RustResult.returns_ok _
  · exact RustResult.returns_err _

theorem returns_optional {read : Reader ε α} (hread : ∀ bytes, (read bytes).Returns)
    (seq : SeqAccess) : (optional mp read seq).Returns :=
  (returns_nextElement (mp.returns_option hread) seq).bind fun _ _ => RustResult.returns_ok _

theorem returns_drain (seq : SeqAccess) : (drain mp seq).Returns :=
  returns_whileSome (fun _ => (RustResult.returns_ofExcept _).bind fun _ _ => RustResult.returns_ok _)
    (fun _ _ => RustResult.returns_ok _) () seq

theorem returns_visitBlockStored (seq : SeqAccess) : (visitBlockStored mp seq).Returns := by
  refine (returns_required mp _ (returns_boundedI64Vec mp) _).bind fun _ _ => ?_
  refine (returns_optional mp (Reader.returns_of _) _).bind fun _ _ => ?_
  refine (returns_required mp _ (returns_boundedU32Vec mp) _).bind fun _ _ => ?_
  refine (returns_required mp _ (Reader.returns_of _) _).bind fun _ _ => ?_
  refine (returns_optional mp (Reader.returns_of _) _).bind fun _ _ => ?_
  refine (returns_optional mp (Reader.returns_of _) _).bind fun _ _ => ?_
  exact (returns_drain mp _).bind fun _ _ => RustResult.returns_ok _

theorem returns_visitBlockRemoved (seq : SeqAccess) : (visitBlockRemoved mp seq).Returns := by
  refine (returns_required mp _ (returns_boundedI64Vec mp) _).bind fun _ _ => ?_
  refine (returns_optional mp (Reader.returns_of _) _).bind fun _ _ => ?_
  exact (returns_drain mp _).bind fun _ _ => RustResult.returns_ok _

theorem returns_visitEvent (seq : SeqAccess) : (visitEvent mp seq).Returns := by
  refine (returns_required mp _ (Reader.returns_of _) _).bind fun x _ => ?_
  obtain ⟨tag, seq⟩ := x
  show RustResult.Returns (if tag = "BlockStored" then _ else _)
  split_ifs
  · exact (returns_visitBlockStored mp seq).bind fun _ _ => RustResult.returns_ok _
  · exact (returns_visitBlockRemoved mp seq).bind fun _ _ => RustResult.returns_ok _
  · exact (returns_drain mp seq).bind fun _ _ => RustResult.returns_ok _
  · exact RustResult.returns_err _

theorem returns_visitBatch (seq : SeqAccess) : (visitBatch mp seq).Returns := by
  have hevents : ∀ bytes, (readEvents mp bytes).Returns :=
    mp.returns_deserializeSeq (returns_whileSome
      (mp.returns_deserializeSeq (returns_visitEvent mp)) (fun _ _ => RustResult.returns_ok _) [])
  refine (returns_required mp _ (Reader.returns_of _) _).bind fun _ _ => ?_
  refine (returns_required mp _ hevents _).bind fun _ _ => ?_
  refine (returns_optional mp (Reader.returns_of _) _).bind fun _ _ => ?_
  exact (returns_drain mp _).bind fun _ _ => RustResult.returns_ok _

theorem decodeEventBatch_returns (bytes : Bytes) : (decodeEventBatch mp bytes).Returns := by
  have hreturns := mp.returns_deserializeSeq (returns_visitBatch mp) bytes
  unfold decodeEventBatch
  split
  · exact RustResult.returns_ok _
  · exact RustResult.returns_err _
  · rename_i hpanic
    exact absurd hpanic hreturns

end Returns

/-- **The router reads what the engine writes.** With a library that reads back what it writes, the
batch of an event that keeps to the bounds is decoded as exactly this event, the batch of any other
event is refused, and on any bytes the decoder returns a batch or an error. -/
theorem decodeEventBatch_agrees {ε : Type} (mp : MsgPack ε) (h : mp.Lawful) :
    (∀ (ts : UInt64) (rank : Option UInt32) (command : ZmqPublishCommand), Representable command →
      if Fits command then
        decodeEventBatch mp (encodeSingleEventBatch mp ts (command.encode mp) rank) =
          .ok ⟨ts, [received command], rank⟩
      else (decodeEventBatch mp (encodeSingleEventBatch mp ts (command.encode mp) rank)).IsErr) ∧
    ∀ bytes, (∃ batch, decodeEventBatch mp bytes = .ok batch) ∨
      (decodeEventBatch mp bytes).IsErr := by
  refine ⟨fun ts rank command hrep => ?_, fun bytes => ?_⟩
  · split_ifs with hfits
    · simp only [decodeEventBatch, readBatch h (readEvent h hfits (encodeRank mp rank))]
    · obtain ⟨e, he⟩ := readEvent_isErr h hrep hfits (encodeRank mp rank)
      exact ⟨DecodeError.ofLibrary mp e, by simp only [decodeEventBatch, readBatch_err h he]⟩
  · have hreturns := decodeEventBatch_returns mp bytes
    cases hdecode : decodeEventBatch mp bytes with
    | ok batch => exact Or.inl ⟨batch, rfl⟩
    | err e => exact Or.inr ⟨e, rfl⟩
    | panicked => exact absurd hdecode hreturns

/-- Three blocks below a parent, with numbers of all widths. -/
theorem decodeEventBatch_sample :
    decodeEventBatch messagePack (encodeSingleEventBatch messagePack 5
      (encodeBlockStored messagePack ⟨⟨"r"⟩, [12345, -67890, 9000000000000000000], some (-11111),
        [10, 20, 300000], 16, 0, 3, 3, true, ⟨0, 3, "GPU"⟩⟩) (some 2)) =
    .ok ⟨5, [.blockStored ⟨[12345, -67890, 9000000000000000000], some (-11111), [10, 20, 300000],
      16, none, some "GPU"⟩], some 2⟩ := by
  have hagrees := (decodeEventBatch_agrees messagePack messagePack_lawful).1 5 (some 2)
    (.blockStored ⟨⟨"r"⟩, [12345, -67890, 9000000000000000000], some (-11111), [10, 20, 300000],
      16, 0, 3, 3, true, ⟨0, 3, "GPU"⟩⟩) (show 16 < 2 ^ 64 by decide)
  rw [if_pos (by decide)] at hagrees
  exact hagrees

/-! ### Messages -/

/-- What the pump applies of an event.

Source: `policies/kv_events/index.rs`, lines 380–392. -/
def KvCacheEvent.applied : KvCacheEvent → Router.KvCacheEvent
  | .blockStored event => .blockStored event.parentBlockHash event.blockHashes
  | .blockRemoved event => .blockRemoved event.blockHashes
  | .allBlocksCleared => .allBlocksCleared

/-- The number of the message that a publisher sends when it shuts down. -/
def endSeqSentinel : Int64 := -1

section Messages

variable {ε : Type}

/-- What the subscriber makes of the frames of a message; `none` is a message that is dropped.

Source: `policies/kv_events/subscriber.rs`, lines 466–536. -/
def decodeMessage (mp : MsgPack ε) : List Bytes → RustResult Empty (Option Message)
  | [_, seqFrame, payload] =>
      if seqFrame.length ≠ 8 then .ok none
      else
        let seq := Int64.ofInt (toSigned 8 (leToNat seqFrame.reverse))
        if seq = endSeqSentinel then .ok (some .publisherReset)
        else match decodeEventBatch mp payload with
          | .ok batch => .ok (some (.batch seq (batch.events.map KvCacheEvent.applied)))
          | .err _ => .ok none
          | .panicked => .panicked
  | _ => .ok none

theorem seq_zmqMessage (seq : Int64) :
    Int64.ofInt (toSigned 8 (leToNat (natToBe 8 (toUnsigned 8 seq.toInt)).reverse)) = seq := by
  have hlo := seq.le_toInt
  have hhi := seq.toInt_lt
  have hbytes : leToNat (natToBe 8 (toUnsigned 8 seq.toInt)).reverse = toUnsigned 8 seq.toInt := by
    rw [natToBe, List.reverse_reverse, leToNat_natToLe, Nat.mod_eq_of_lt (toUnsigned_lt 8 _)]
  rw [hbytes, toSigned_toUnsigned (by omega) (by omega), Int64.ofInt_toInt]

/-- **What the engine publishes reaches the tree.** A message with an event that keeps to the bounds
arrives as a batch of this event, as far as the tree reads it, under the same number, and a message
with any other event is dropped. -/
theorem decodeMessage_zmqMessage {mp : MsgPack ε} (h : mp.Lawful) (topic : String) {seq : Int64}
    (hseq : seq ≠ endSeqSentinel) (ts : UInt64) {command : ZmqPublishCommand}
    (hrep : Representable command) :
    decodeMessage mp (zmqMessage topic seq (command.payload mp ts)) =
      .ok (if Fits command then some (.batch seq [(received command).applied]) else none) := by
  have hframe : (natToBe 8 (toUnsigned 8 seq.toInt)).length = 8 := by simp [natToBe]
  simp only [zmqMessage, decodeMessage, hframe, seq_zmqMessage, if_neg hseq, ne_eq,
    not_true_eq_false, if_false, ZmqPublishCommand.payload, decodeEventBatch]
  by_cases hfits : Fits command
  · rw [readBatch h (readEvent h hfits (encodeRank mp command.rank)), if_pos hfits]
    rfl
  · obtain ⟨e, he⟩ := readEvent_isErr h hrep hfits (encodeRank mp command.rank)
    rw [readBatch_err h he, if_neg hfits]

/-- A block below a parent. -/
theorem decodeMessage_zmqMessage_sample :
    decodeMessage messagePack (zmqMessage "kv-events" 7 ((ZmqPublishCommand.blockStored
      ⟨⟨"r"⟩, [12345], some (-11111), [10, 20], 16, 0, 2, 2, true, ⟨0, 2, "GPU"⟩⟩).payload
        messagePack 5)) = .ok (some (.batch 7 [.blockStored (some (-11111)) [12345]])) := by
  have hreceived := decodeMessage_zmqMessage messagePack_lawful "kv-events" (show 7 ≠ -1 by decide)
    5 (show Representable (.blockStored
      ⟨⟨"r"⟩, [12345], some (-11111), [10, 20], 16, 0, 2, 2, true, ⟨0, 2, "GPU"⟩⟩) by
        exact show 16 < 2 ^ 64 by decide)
  rw [if_pos (by decide)] at hreceived
  exact hreceived

end Messages

end SglangRs.Router.Wire
