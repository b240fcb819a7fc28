import Mathlib.Logic.Relation
import SglangRs.Scheduler.Operations

/-!
# The moves of a request

Every operation of the scheduler is a sequence of moves of single requests: a request is taken from
a queue and slots are allocated for it, it is put back, executed, published, queued again, or it
leaves. `Move` lists these moves once, on a configuration that holds the requests of the batch
being formed or executed beside the scheduler's state; `SglangRs.Scheduler.Refinement` shows that
the operations are made of them. An invariant of the scheduler is then a property kept by every
move.

The order of the queues does not matter to these invariants, so a move `reorder` permutes them and
the others act on the head of a queue.

Some moves leave the scheduler in a state from which it cannot recover, for instance a rollback that
keeps a slot. A `Guard` names, for each such move, the condition under which it is allowed;
`Move G` consists of the moves that meet the guard `G`.

## Main definitions

* `Config`: a scheduler with the requests taken for a batch and those executed.
* `Guard`: conditions on the moves.
* `Move`, `Moves`: the guarded moves and their sequences.
-/

namespace SglangRs

variable {W : Type}

/-- The scheduler with the requests of the batch in progress: those taken from the queues and those
the worker has executed. -/
structure Config (W : Type) where
  scheduler : Scheduler W
  taken : List ScheduledRequest
  executed : List ScheduledRequest

namespace Config

/-- The requests in the queues and in the batch in progress. -/
def live (c : Config W) : List ScheduledRequest :=
  c.scheduler.waitingQueue ++ c.scheduler.decodeQueue ++ c.taken ++ c.executed

end Config

/-- A scheduler between two operations. -/
def Scheduler.idle (s : Scheduler W) : Config W := ⟨s, [], []⟩

/-- Conditions on moves, each on the state before the move and the request moved. -/
structure Guard (W : Type) where
  /-- A request is submitted. -/
  submit : NewRequest → Prop := fun _ => True
  /-- A request prepared for prefill is put back. -/
  rollBack : ScheduledRequest → Prop := fun _ => True
  /-- A request taken for decoding is dropped because asking about the next one failed. -/
  lose : ScheduledRequest → Prop := fun _ => True
  /-- A processed prompt is inserted into the prefix cache. -/
  publish : Scheduler W → ScheduledRequest → Prop := fun _ _ => True
  /-- An executed chunk is not offered to the prefix cache. -/
  skip : Scheduler W → ScheduledRequest → Prop := fun _ _ => True
  /-- The state of the transfer of an executed chunk could not be read. -/
  stageError : Scheduler W → ScheduledRequest → Prop := fun _ _ => True
  /-- A request that was not executed is put on the decode queue. -/
  park : Scheduler W → ScheduledRequest → Prop := fun _ _ => True
  /-- A request of a batch that could not be executed is dropped. -/
  fail : Scheduler W → ScheduledRequest → Prop := fun _ _ => True
  /-- The tokens generated for a request are appended to its outputs. -/
  token : List UInt32 → Prop := fun _ => True
  /-- The worker could not clean up after a finished request. -/
  finishError : Scheduler W → ScheduledRequest → Prop := fun _ _ => True
  /-- A pending insert is dropped and its slots are released. -/
  releasePending : Scheduler W → ScheduledRequest → Prop := fun _ _ => True
  /-- A request is dropped from the decode queue because its transfer failed. -/
  loseDecode : Scheduler W → ScheduledRequest → Prop := fun _ _ => True
  /-- A pending insert is dropped because asking about one failed. -/
  losePending : Scheduler W → ScheduledRequest → Prop := fun _ _ => True

namespace Scheduler

/-- A prepared request put back at the head of the decode queue, its slot released. -/
def undoDecode (s : Scheduler W) (request : ScheduledRequest) : Scheduler W :=
  let s := s.release request.allocatedCachePages
  { s with
    decodeQueue := request.clearForwardCacheAllocation.setStage .decodeWaiting :: s.decodeQueue }

/-- A request put at the end of the decode queue as it is. -/
def park (s : Scheduler W) (request : ScheduledRequest) : Scheduler W :=
  { s with decodeQueue := s.decodeQueue ++ [request] }

end Scheduler

namespace ScheduledRequest

/-- A request whose chunk has been executed. -/
def advanceChunk (r : ScheduledRequest) : ScheduledRequest :=
  r.advancePromptTokens (Scheduler.forwardedChunkLen r)

/-- A request with the generated tokens, finished. -/
def finish (r : ScheduledRequest) (tokenIds : List UInt32) : ScheduledRequest :=
  (r.appendOutputIds tokenIds).setStage .finished

/-- A request with the generated tokens, waiting for the next one. -/
def awaitDecode (r : ScheduledRequest) (tokenIds : List UInt32) : ScheduledRequest :=
  (r.appendOutputIds tokenIds).clearForwardChunkTracking.setStage .decodeWaiting

/-- A request waiting for its next chunk. -/
def awaitChunk (r : ScheduledRequest) : ScheduledRequest :=
  r.clearForwardChunkTracking.setStage .prefillWaiting

end ScheduledRequest

/-- The moves of single requests that meet the guard `G`. -/
inductive Move (G : Guard W) : Config W → Config W → Prop
  | worker (s t d) (worker : W) : Move G ⟨s, t, d⟩ ⟨{ s with worker }, t, d⟩
  | reorder (s t d) {waitingQueue decodeQueue pendingPrefixCacheInserts t'}
      (hw : s.waitingQueue.Perm waitingQueue) (hd : s.decodeQueue.Perm decodeQueue)
      (hp : s.pendingPrefixCacheInserts.Perm pendingPrefixCacheInserts) (ht : t.Perm t') :
      Move G ⟨s, t, d⟩
        ⟨{ s with waitingQueue, decodeQueue, pendingPrefixCacheInserts }, t', d⟩
  | enqueue (s t d) (n : NewRequest) (hg : G.submit n) :
      Move G ⟨s, t, d⟩ ⟨s.enqueue n.toScheduled, t, d⟩
  -- forming a batch
  | takePrefill {s t d r queue k s' r'} (hq : s.waitingQueue = r :: queue)
      (hk : s.chunkedPrefillSize ≠ some 0 → k ≠ 0)
      (hp : { s with waitingQueue := queue }.preparePrefillRequestChunk r k = (s', r', .ok ())) :
      Move G ⟨s, t, d⟩ ⟨s', r' :: t, d⟩
  | takeFailed {s t d r queue k s' r' error} (hq : s.waitingQueue = r :: queue)
      (hp : { s with waitingQueue := queue }.preparePrefillRequestChunk r k =
        (s', r', .error error)) :
      Move G ⟨s, t, d⟩ ⟨s', r' :: t, d⟩
  | deferFailed {s t d r queue k s' r' error} (hq : s.waitingQueue = r :: queue)
      (hp : { s with waitingQueue := queue }.preparePrefillRequestChunk r k =
        (s', r', .error error)) :
      Move G ⟨s, t, d⟩ ⟨{ s' with waitingQueue := r' :: s'.waitingQueue }, t, d⟩
  | undoPrefill {s t d r} (hr : r.stage ≠ .decodeForward) (hg : G.rollBack r) :
      Move G ⟨s, r :: t, d⟩ ⟨s.undoPrefill r, t, d⟩
  | takeDecode {s t d r queue s' r'} (hq : s.decodeQueue = r :: queue)
      (hp : { s with decodeQueue := queue }.prepareDecodeRequest r = (s', r', .ok ())) :
      Move G ⟨s, t, d⟩ ⟨s', r'.setStage .decodeForward :: t, d⟩
  | undoDecode {s t d r} (hr : r.stage = .decodeForward) :
      Move G ⟨s, r :: t, d⟩ ⟨s.undoDecode r, t, d⟩
  | lose {s t d r} (hr : r.stage = .decodeForward) (hg : G.lose r) :
      Move G ⟨s, r :: t, d⟩ ⟨s, t, d⟩
  -- a batch that is not executed
  | park {s t d r} (hg : G.park s r) :
      Move G ⟨s, r :: t, d⟩ ⟨s.park r, t, d⟩
  | fail {s t d r} (hg : G.fail s r) :
      Move G ⟨s, r :: t, d⟩ ⟨s.release r.allocatedCachePages, t, d⟩
  -- a batch that is executed
  | executeDecode {s t d r} (hr : r.stage = .decodeForward) :
      Move G ⟨s, r :: t, d⟩ ⟨s, t, r :: d⟩
  | skipChunk {s t d r} (hr : r.stage = .prefillForward)
      (hs : s.prefixCachePolicy = .disabled ∨ r.skipsRadixCacheInsert = true)
      (hg : G.skip s r.advanceChunk) : Move G ⟨s, r :: t, d⟩ ⟨s, t, r.advanceChunk :: d⟩
  | publishChunk {s t d r} (hr : r.stage = .prefillForward)
      (hs : s.prefixCachePolicy = .enabled) (hg : G.publish s r.advanceChunk) :
      Move G ⟨s, r :: t, d⟩
        ⟨s.publishPrefillChunkCachePages r.advanceChunk r.advanceChunk.promptTokensProcessed, t,
          r.advanceChunk :: d⟩
  | pendChunk {s t d r} (hr : r.stage = .prefillForward)
      (hs : s.prefixCachePolicy = .enabled) (hd : r.disaggregatedParams ≠ none) :
      Move G ⟨s, r :: t, d⟩
        ⟨{ s with
            pendingPrefixCacheInserts := s.pendingPrefixCacheInserts ++ [r.advanceChunk] }, t,
          r.advanceChunk :: d⟩
  | stageError {s t d r} (hr : r.stage = .prefillForward)
      (hd : r.disaggregatedParams ≠ none) (hg : G.stageError s r.advanceChunk) :
      Move G ⟨s, r :: t, d⟩ ⟨s.park r.advanceChunk, t, d⟩
  | requeueChunk {s t d r} (hr : r.stage = .prefillForward) (hc : r.isPrefillComplete = false) :
      Move G ⟨s, t, r :: d⟩ ⟨{ s with waitingQueue := r.awaitChunk :: s.waitingQueue }, t, d⟩
  | requeueToken {s t d r} (tokenIds) (hc : r.stage = .prefillForward → r.isPrefillComplete = true)
      (hg : G.token tokenIds) :
      Move G ⟨s, t, r :: d⟩ ⟨s.park (r.awaitDecode tokenIds), t, d⟩
  | finish {s t d r} (tokenIds) (hc : r.stage = .prefillForward → r.isPrefillComplete = true)
      (hg : G.token tokenIds) :
      Move G ⟨s, t, r :: d⟩ ⟨s.releaseRequestCachePages (r.finish tokenIds), t, d⟩
  | finishError {s t d r} (tokenIds)
      (hc : r.stage = .prefillForward → r.isPrefillComplete = true) (ht : G.token tokenIds)
      (hg : G.finishError s (r.finish tokenIds)) :
      Move G ⟨s, t, r :: d⟩ ⟨s.park (r.finish tokenIds), t, d⟩
  -- aborts
  | abortWaiting {s : Scheduler W} {r queue} (hq : s.waitingQueue = r :: queue) :
      Move G s.idle ({ s with waitingQueue := queue }.releaseRequestCachePages r).idle
  | abortDecode {s : Scheduler W} {r queue} (hq : s.decodeQueue = r :: queue) :
      Move G s.idle ({ s with decodeQueue := queue }.releaseRequestCachePages r).idle
  | abortDecodePending {s : Scheduler W} {r queue e pending} (hq : s.decodeQueue = r :: queue)
      (hp : s.pendingPrefixCacheInserts = e :: pending)
      (hg : G.releasePending
        { s with decodeQueue := queue, pendingPrefixCacheInserts := pending } e) :
      Move G s.idle
        (({ s with decodeQueue := queue, pendingPrefixCacheInserts := pending
            }.releaseUnpublishedCachePages e).releaseRequestCachePages r).idle
  -- pending inserts
  | publishPending {s : Scheduler W} {e pending} (hp : s.pendingPrefixCacheInserts = e :: pending)
      (hg : G.publish { s with pendingPrefixCacheInserts := pending } e) :
      Move G s.idle
        ({ s with pendingPrefixCacheInserts := pending }.publishPrefillChunkCachePages e
          e.promptTokensProcessed).idle
  | releasePending {s : Scheduler W} {e pending} (hp : s.pendingPrefixCacheInserts = e :: pending)
      (hg : G.releasePending { s with pendingPrefixCacheInserts := pending } e) :
      Move G s.idle
        ({ s with pendingPrefixCacheInserts := pending }.releaseUnpublishedCachePages e).idle
  | failTransfer {s : Scheduler W} {r queue e pending} (hq : s.decodeQueue = r :: queue)
      (hp : s.pendingPrefixCacheInserts = e :: pending)
      (hg : G.releasePending
        { s with decodeQueue := queue, pendingPrefixCacheInserts := pending } e)
      (hl : G.loseDecode { s with decodeQueue := queue, pendingPrefixCacheInserts := pending } r) :
      Move G s.idle
        ({ s with decodeQueue := queue, pendingPrefixCacheInserts := pending
            }.releaseUnpublishedCachePages e).idle
  | losePending {s : Scheduler W} {e pending} (hp : s.pendingPrefixCacheInserts = e :: pending)
      (hg : G.losePending { s with pendingPrefixCacheInserts := pending } e) :
      Move G s.idle { s with pendingPrefixCacheInserts := pending }.idle
  | flush {s : Scheduler W} (hw : s.waitingQueue = []) (hd : s.decodeQueue = []) :
      Move G s.idle s.flushCache.1.idle

/-- Sequences of guarded moves. -/
def Moves (G : Guard W) : Config W → Config W → Prop := Relation.ReflTransGen (Move G)

/-- A property kept by every guarded move holds after a sequence of them. -/
theorem Moves.invariant {G : Guard W} {J : Config W → Prop}
    (hJ : ∀ c c', Move G c c' → J c → J c') {c c' : Config W} (h : Moves G c c') (hc : J c) :
    J c' := by
  induction h with
  | refl => exact hc
  | tail _ hmove ih => exact hJ _ _ hmove ih

end SglangRs
