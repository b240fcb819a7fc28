import SglangRs.Transition.Run
import SglangRs.Wire.Text

/-!
# The TCP transfer engine

A prefill worker writes the cache pages of a request into the memory of a decode worker over TCP
(`transfer/tcp.rs`). The receiver has a list of registered buffers under a lock and a thread for
every connection. The thread reads the header of a frame, resolves the destination under the lock,
reads the payload straight into memory, and acknowledges the frame. The sender writes a frame and
waits for the reply; it tries a request at most twice.

The threads of the receiver, the tasks of the sender and the registrations take their steps in any
order. A connection is made by a sender or by an unknown peer, who may send any bytes. Which stream
a task of the sender takes is left open: it is one that no other task uses.

## Main definitions

* `resolveDestination`: the address that a frame is written to.
* `Phase`, `Connection`: the thread of a connection, its bytes in flight, and what it did so far.
* `Network`, `Action`, `Network.step`: the parties and their steps.

## Main results

* `isRegistered_of_resolveDestination`: a resolved range is registered.
-/

namespace SglangRs.Tcp

open Transition

/-! ### Registered memory -/

/-- A buffer ends below the top of the address space. -/
structure RegisteredBuffer where
  baseAddr : UInt64
  length : UInt64
  ends : baseAddr.toNat + length.toNat < 2 ^ 64 - 1
deriving DecidableEq

def RegisteredBuffer.Contains (buffer : RegisteredBuffer) (addr : UInt64) : Prop :=
  buffer.baseAddr.toNat ≤ addr.toNat ∧ addr.toNat < buffer.baseAddr.toNat + buffer.length.toNat

/-- Some buffer contains the address. -/
def IsRegistered (buffers : List RegisteredBuffer) (addr : UInt64) : Prop :=
  ∃ buffer ∈ buffers, buffer.Contains addr

def saturatingAdd (a b : UInt64) : UInt64 := .ofNat (min (a.toNat + b.toNat) (2 ^ 64 - 1))

inductive ErrorKind where
  | notFound
  | invalidInput
  | invalidData
  | unexpectedEof
  | other
deriving DecidableEq, Repr

structure IoError where
  kind : ErrorKind
  message : String
deriving DecidableEq, Repr

/-- An offset is an absolute address if the range lies in a buffer, and otherwise relative to the
first buffer.

Source: `tcp.rs`, lines 173–210. -/
def resolveDestination (buffers : List RegisteredBuffer) (targetOffset length : UInt64) :
    Except IoError UInt64 :=
  match buffers with
  | [] => .error ⟨.notFound, "no registered KV cache buffer on receiver"⟩
  | first :: _ =>
      if buffers.any fun buffer =>
          buffer.baseAddr ≤ targetOffset &&
            saturatingAdd targetOffset length ≤ saturatingAdd buffer.baseAddr buffer.length then
        .ok targetOffset
      else if saturatingAdd targetOffset length ≤ first.length then
        .ok (first.baseAddr + targetOffset)
      else
        .error ⟨.invalidInput,
          s!"target offset {targetOffset} + len {length} does not fit into any registered " ++
            s!"buffer (count: {buffers.length})"⟩

theorem toNat_saturatingAdd (a b : UInt64) :
    (saturatingAdd a b).toNat = min (a.toNat + b.toNat) (2 ^ 64 - 1) := by
  rw [saturatingAdd, UInt64.toNat_ofNat']
  omega

/-- The range of a frame is registered when it is resolved. -/
theorem isRegistered_of_resolveDestination {buffers : List RegisteredBuffer}
    {targetOffset length dst : UInt64}
    (h : resolveDestination buffers targetOffset length = .ok dst) {i : ℕ} (hi : i < length.toNat) :
    IsRegistered buffers (dst + .ofNat i) := by
  have hoffset := targetOffset.toNat_lt
  have hlength := length.toNat_lt
  have hindex : (UInt64.ofNat i).toNat = i := UInt64.toNat_ofNat_of_lt' (hi.trans hlength)
  cases buffers with
  | nil => cases h
  | cons first rest =>
      simp only [resolveDestination] at h
      split_ifs at h with habsolute hrelative
      · -- an absolute address
        obtain rfl := Except.ok.inj h
        obtain ⟨buffer, hmem, hfits⟩ := List.any_eq_true.mp habsolute
        simp only [Bool.and_eq_true, decide_eq_true_eq, UInt64.le_iff_toNat_le,
          toNat_saturatingAdd] at hfits
        have hends := buffer.ends
        refine ⟨buffer, hmem, ?_⟩
        rw [RegisteredBuffer.Contains, UInt64.toNat_add, hindex]
        omega
      · -- an offset into the first buffer
        obtain rfl := Except.ok.inj h
        rw [UInt64.le_iff_toNat_le, toNat_saturatingAdd] at hrelative
        have hends := first.ends
        refine ⟨first, List.mem_cons_self, ?_⟩
        rw [RegisteredBuffer.Contains, UInt64.toNat_add, UInt64.toNat_add, hindex]
        omega

/-! ### The thread of a connection -/

/-- `TCP_TRANSFER_MAGIC`. -/
def tcpTransferMagic : Bytes := utf8 "SG_TCPKV"

def toLeBytes (value : UInt64) : Bytes := natToLe 8 value.toNat

def fromLeBytes (bytes : Bytes) : UInt64 := .ofNat (leToNat bytes)

/-- What a thread does with a frame. -/
inductive Event where
  | resolved (targetOffset length dst : UInt64)
  | stored (addr : UInt64) (byte : UInt8)
  | replied (reply : UInt8)
deriving DecidableEq

/-- The bytes are stored from an address on. -/
def storesAt : UInt64 → Bytes → List Event
  | _, [] => []
  | addr, byte :: bytes => .stored addr byte :: storesAt (addr + 1) bytes

/-- Where a thread is: in one of the reads of a header, before the lock, in the reads of the
payload, before the reply, or at its end. -/
inductive Phase where
  | magic (got : Bytes)
  | offsetBytes (got : Bytes)
  | lenBytes (targetOffset : UInt64) (got : Bytes)
  | resolve (targetOffset length : UInt64)
  | payload (length dst : UInt64) (bytesRead : ℕ)
  | acknowledge
  | reject (error : IoError)
  | closed (result : Except IoError Unit)
deriving DecidableEq

namespace Phase

/-- The room that a read of the socket is given. -/
def wants : Phase → ℕ
  | .magic got | .offsetBytes got | .lenBytes _ got => 8 - got.length
  | .payload length _ bytesRead => length.toNat - bytesRead
  | _ => 0

/-- The payload is read until it is complete. -/
def readPayload (length dst : UInt64) (bytesRead : ℕ) : Phase :=
  if bytesRead < length.toNat then .payload length dst bytesRead else .acknowledge

/-- A read of the socket returns bytes.

Source: `tcp.rs`, lines 111–131 and 147–163. -/
def read (bytes : Bytes) : Phase → Phase × List Event
  | .magic got =>
      let got := got ++ bytes
      if got.length < 8 then (.magic got, [])
      else if got = tcpTransferMagic then (.offsetBytes [], [])
      else (.closed (.error ⟨.invalidData, "invalid TCP transfer magic header"⟩), [])
  | .offsetBytes got =>
      let got := got ++ bytes
      if got.length < 8 then (.offsetBytes got, []) else (.lenBytes (fromLeBytes got) [], [])
  | .lenBytes targetOffset got =>
      let got := got ++ bytes
      if got.length < 8 then (.lenBytes targetOffset got, [])
      else (.resolve targetOffset (fromLeBytes got), [])
  | .payload length dst bytesRead =>
      (readPayload length dst (bytesRead + bytes.length), storesAt (dst + .ofNat bytesRead) bytes)
  | phase => (phase, [])

/-- A read of the socket fails. A thread that waits for a frame does not mind the end of the stream.
-/
def readFails (error : IoError) : Phase → Phase
  | .magic _ => .closed (if error.kind = .unexpectedEof then .ok () else .error error)
  | .offsetBytes _ | .lenBytes _ _ | .payload _ _ _ => .closed (.error error)
  | phase => phase

/-- The stream has ended. -/
def endOfStream : Phase → Phase
  | .payload _ _ _ => .closed (.error
      ⟨.unexpectedEof, "connection closed unexpectedly while reading payload"⟩)
  | phase => phase.readFails ⟨.unexpectedEof, "failed to fill whole buffer"⟩

/-- The destination is resolved under the lock.

Source: `tcp.rs`, lines 133–145. -/
def lock (buffers : List RegisteredBuffer) : Phase → Phase × List Event
  | .resolve targetOffset length =>
      match resolveDestination buffers targetOffset length with
      | .ok dst => (readPayload length dst 0, [.resolved targetOffset length dst])
      | .error error => (.reject error, [])
  | phase => (phase, [])

/-- The reply is written, or writing it fails.

Source: `tcp.rs`, lines 140–144 and 165–167. -/
def reply (failure : Option IoError) : Phase → Phase × List UInt8
  | .acknowledge =>
      match failure with
      | none => (.magic [], [0])
      | some error => (.closed (.error error), [])
  | .reject error => (.closed (.error error), if failure = none then [1] else [])
  | phase => (phase, [])

end Phase

/-! ### The sender -/

/-- A request of `submit_transfer`, with the bytes at its source. -/
structure KvTransferRequest where
  targetOffset : UInt64
  length : UInt64
  src : Bytes
  length_src : src.length = length.toNat
deriving DecidableEq

/-- What `send_transfer_chunk` writes.

Source: `tcp.rs`, lines 244–254. -/
def KvTransferRequest.frame (request : KvTransferRequest) : Bytes :=
  tcpTransferMagic ++ toLeBytes request.targetOffset ++ toLeBytes request.length ++ request.src

inductive KvTransferStatusCode where
  | completed
  | failed
deriving DecidableEq, Repr

structure KvTransferStatus where
  status : KvTransferStatusCode
  transferredBytes : UInt64
deriving DecidableEq

/-- The peer of a connection: an unknown one, or a stream of the sender. A stream is kept for the
next request, or in use by a task, or dropped. -/
inductive Peer where
  | unknown
  | idle
  | busy (task : ℕ) (request : KvTransferRequest)
  | dropped

/-- A connection: the thread and what it did so far, the peer, and the bytes on the way to either
side. -/
structure Connection where
  peer : Peer
  phase : Phase := .magic []
  history : List Event := []
  incoming : Bytes := []
  replies : List UInt8 := []

namespace Connection

/-- One read of the socket, which returns at most `n` bytes. It waits if there are none. -/
def read (n : ℕ) (c : Connection) : Connection :=
  let bytes := c.incoming.take (min n c.phase.wants)
  if bytes = [] then c
  else
    let (phase, events) := c.phase.read bytes
    { c with phase, history := c.history ++ events, incoming := c.incoming.drop bytes.length }

def readFails (error : IoError) (c : Connection) : Connection :=
  { c with phase := c.phase.readFails error }

def endOfStream (c : Connection) : Connection :=
  if c.incoming = [] then { c with phase := c.phase.endOfStream } else c

def lock (buffers : List RegisteredBuffer) (c : Connection) : Connection :=
  let (phase, events) := c.phase.lock buffers
  { c with phase, history := c.history ++ events }

def reply (failure : Option IoError) (c : Connection) : Connection :=
  let (phase, replies) := c.phase.reply failure
  { c with
    phase
    history := c.history ++ replies.map .replied
    replies := c.replies ++ replies }

/-- An unknown peer sends any bytes. -/
def send (bytes : Bytes) (c : Connection) : Connection :=
  match c.peer with
  | .unknown => { c with incoming := c.incoming ++ bytes }
  | _ => c

/-- A task writes its frame to an idle stream; if only a part of it can be written then the stream
is dropped. -/
def write (task : ℕ) (request : KvTransferRequest) (n : ℕ) (c : Connection) : Connection :=
  { c with
    peer := if n < request.frame.length then .dropped else .busy task request
    incoming := c.incoming ++ request.frame.take n }

end Connection

/-- Where the loop over the two attempts of a request is: before an attempt, waiting for the reply
on a connection, or at its end. -/
inductive TaskState where
  | attempt (attempt : ℕ)
  | awaiting (attempt connection : ℕ)
  | done (status : KvTransferStatus)

structure Task where
  request : KvTransferRequest
  state : TaskState

namespace Task

/-- The status of a request that failed. -/
def failed : TaskState := .done ⟨.failed, 0⟩

/-- The stream has been removed; there are two attempts.

Source: `tcp.rs`, lines 385–390. -/
def retry (attempt : ℕ) : TaskState := if attempt = 1 then failed else .attempt (attempt + 1)

end Task

/-! ### The parties -/

structure Network where
  registeredBuffers : List RegisteredBuffer := []
  connections : List Connection := []
  tasks : List Task := []

inductive Action where
  | registerMemoryBatch (buffers : List RegisteredBuffer)
  | unregisterMemoryBatch
  | accept
  | send (connection : ℕ) (bytes : Bytes)
  | read (connection n : ℕ)
  | readFails (connection : ℕ) (error : IoError)
  | endOfStream (connection : ℕ)
  | lock (connection : ℕ)
  | reply (connection : ℕ) (failure : Option IoError)
  | submit (request : KvTransferRequest)
  | connect
  | connectFails (task : ℕ)
  | write (task connection n : ℕ)
  | readReply (task : ℕ)
  | readReplyFails (task : ℕ)

namespace Network

/-- A step of one connection. -/
def onConnection (s : Network) (c : ℕ) (f : Connection → Connection) : Network :=
  { s with connections := s.connections.modify c f }

def setTask (s : Network) (t : ℕ) (state : TaskState) : Network :=
  { s with tasks := s.tasks.modify t ({ · with state }) }

/-- A task takes an idle stream and writes its frame. -/
def write (s : Network) (t c n : ℕ) : Network :=
  match s.tasks[t]?, s.connections[c]? with
  | some ⟨request, .attempt attempt⟩, some ⟨.idle, _, _, _, _⟩ =>
      (s.onConnection c (·.write t request n)).setTask t
        (if n < request.frame.length then Task.retry attempt else .awaiting attempt c)
  | _, _ => s

/-- A task reads the reply.

Source: `tcp.rs`, lines 256–261. -/
def readReply (s : Network) (t : ℕ) : Network :=
  match s.tasks[t]? with
  | some ⟨request, .awaiting attempt c⟩ =>
      match (s.connections[c]?.map (·.replies)).getD [] with
      | [] => s
      | reply :: replies =>
          if reply = 0 then
            (s.onConnection c ({ · with peer := .idle, replies })).setTask t
              (.done ⟨.completed, request.length⟩)
          else
            (s.onConnection c ({ · with peer := .dropped, replies })).setTask t (Task.retry attempt)
  | _ => s

/-- The reply does not come. -/
def readReplyFails (s : Network) (t : ℕ) : Network :=
  match s.tasks[t]? with
  | some ⟨_, .awaiting attempt c⟩ =>
      (s.onConnection c ({ · with peer := .dropped })).setTask t (Task.retry attempt)
  | _ => s

def connectFails (s : Network) (t : ℕ) : Network :=
  match s.tasks[t]? with
  | some ⟨_, .attempt _⟩ => s.setTask t Task.failed
  | _ => s

def step (s : Network) : Action → Network
  | .registerMemoryBatch buffers => { s with registeredBuffers := buffers }
  | .unregisterMemoryBatch => { s with registeredBuffers := [] }
  | .accept => { s with connections := s.connections ++ [{ peer := .unknown }] }
  | .connect => { s with connections := s.connections ++ [{ peer := .idle }] }
  | .send c bytes => s.onConnection c (·.send bytes)
  | .read c n => s.onConnection c (·.read n)
  | .readFails c error => s.onConnection c (·.readFails error)
  | .endOfStream c => s.onConnection c (·.endOfStream)
  | .lock c => s.onConnection c (·.lock s.registeredBuffers)
  | .reply c failure => s.onConnection c (·.reply failure)
  | .submit request => { s with tasks := s.tasks ++ [⟨request, .attempt 0⟩] }
  | .connectFails t => s.connectFails t
  | .write t c n => s.write t c n
  | .readReply t => s.readReply t
  | .readReplyFails t => s.readReplyFails t

end Network

end SglangRs.Tcp
