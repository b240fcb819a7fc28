import SglangRs.Transfer.BlockHashes
import SglangRs.Wire.MsgPack

/-!
# The cache events of the engine on the wire

The engine publishes what happens to its cache in batches of one event. A batch and an event are
MessagePack arrays written value by value: a batch holds a time, an array of one event and, for a
worker with a data-parallel rank, the rank; an event starts with the name of its class. The lengths
of the arrays are written as 32-bit numbers.

## Main definitions

* `ZmqPublishCommand`: what the publisher is told.
* `encodeBlockStored`, `encodeBlockRemoved`, `encodeAllBlocksCleared`, `encodeSingleEventBatch`.
* `ZmqPublishCommand.payload`, `zmqMessage`: what the publisher sends.
-/

namespace SglangRs

/-- The event that blocks have left the cache. -/
structure BlockRemovedEvent where
  blockHashes : List Int64
  dataParallelRank : Int32
deriving DecidableEq, Repr

inductive ZmqPublishCommand where
  | blockStored (event : BlockStoredEvent)
  | blockRemoved (event : BlockRemovedEvent)
  | allBlocksCleared
deriving DecidableEq, Repr

section Encoding

variable {ε : Type} (mp : MsgPack ε)

def ReusableBoundary.medium (boundary : ReusableBoundary) : String :=
  if boundary.tier.isEmpty then "GPU" else boundary.tier

def encodeHashes (blockHashes : List Int64) : Bytes :=
  mp.writeArrayLen (UInt32.ofNat blockHashes.length) ++ blockHashes.flatMap mp.writeSint

def encodeParent : Option Int64 → Bytes
  | some h => mp.writeSint h
  | none => mp.writeNil

def encodeTokens (tokenIds : List UInt32) : Bytes :=
  mp.writeArrayLen (UInt32.ofNat tokenIds.length) ++
    tokenIds.flatMap fun id => mp.writeUint id.toUInt64

/-- Source: `state_events.rs`, lines 344–375. -/
def encodeBlockStored (event : BlockStoredEvent) : Bytes :=
  mp.writeArrayLen 7 ++ mp.writeStr "BlockStored" ++
    encodeHashes mp event.blockHashes ++
    encodeParent mp event.parentBlockHash ++
    encodeTokens mp event.tokenIds ++
    mp.writeUint (UInt64.ofNat event.blockSize) ++
    mp.writeNil ++ mp.writeStr event.boundary.medium

/-- Source: `state_events.rs`, lines 377–389. -/
def encodeBlockRemoved (event : BlockRemovedEvent) : Bytes :=
  mp.writeArrayLen 3 ++ mp.writeStr "BlockRemoved" ++
    encodeHashes mp event.blockHashes ++ mp.writeNil

/-- Source: `state_events.rs`, lines 391–398. -/
def encodeAllBlocksCleared : Bytes :=
  mp.writeArrayLen 1 ++ mp.writeStr "AllBlocksCleared"

def encodeRank : Option UInt32 → Bytes
  | some rank => mp.writeUint rank.toUInt64
  | none => []

/-- Source: `state_events.rs`, lines 400–413. -/
def encodeSingleEventBatch (ts : UInt64) (eventBytes : Bytes) (attnDpRank : Option UInt32) :
    Bytes :=
  mp.writeArrayLen (if attnDpRank.isSome then 3 else 2) ++ mp.writeF64 ts ++
    mp.writeArrayLen 1 ++ eventBytes ++ encodeRank mp attnDpRank

/-- The rank that is sent; a negative one stands for none. -/
def attnDpRank (dataParallelRank : Int32) : Option UInt32 :=
  if 0 ≤ dataParallelRank then some dataParallelRank.toUInt32 else none

namespace ZmqPublishCommand

/-- The encoded event. -/
def encode : ZmqPublishCommand → Bytes
  | .blockStored event => encodeBlockStored mp event
  | .blockRemoved event => encodeBlockRemoved mp event
  | .allBlocksCleared => encodeAllBlocksCleared mp

def rank : ZmqPublishCommand → Option UInt32
  | .blockStored event => attnDpRank event.dataParallelRank
  | .blockRemoved event => attnDpRank event.dataParallelRank
  | .allBlocksCleared => none

/-- Source: `state_events.rs`, lines 269–289. -/
def payload (ts : UInt64) (command : ZmqPublishCommand) : Bytes :=
  encodeSingleEventBatch mp ts (command.encode mp) command.rank

end ZmqPublishCommand

/-- The frames of a message: the topic, the number of the batch as a big-endian word and the
payload. -/
def zmqMessage (topic : String) (seq : Int64) (payload : Bytes) : List Bytes :=
  [utf8 topic, natToBe 8 (toUnsigned 8 seq.toInt), payload]

end Encoding

end SglangRs
