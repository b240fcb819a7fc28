import Mathlib.Logic.Function.Basic
import SglangRs.Ledger.Accounts
import SglangRs.Router.Discovery
import SglangRs.Transition.Run

/-!
# Active load of the workers

The registry of active load (`policies/active_load.rs`) keeps two counters for every worker and an
entry for every request in flight. A request adds its loads to the counters of its worker when it is
registered; they are subtracted when its guard is dropped or when the janitor finds it stale,
whichever removes the entry first. Calls run concurrently, and a step of this model is one atomic
access of one call. A worker may be forgotten while its requests are in flight, whence the counters
of a worker are shared objects that an entry refers to.

Requests are identified by random UUIDs; `newV4 n` is the identifier that the call with number `n`
draws. The metrics and the cancellation of the requests are not modelled. The state carries a
history besides: the movements of either counter, and the registrations and forgotten workers.

## Main definitions

* `Router.WorkerCounters`, `Router.Registration`, `Router.RequestEntry`.
* `Router.Operation`: the calls, each at its next atomic access.
* `Router.ActiveLoadRegistry`, `ActiveLoadRegistry.step`: the registry and its steps.
-/

namespace SglangRs.Router

/-- The two axes of the load. -/
inductive ActiveLoadKind where
  | prefillTokens
  | decodeBlocks
deriving DecidableEq, Repr

/-- The counters of a worker. They wrap around as the atomic integers do. -/
structure WorkerCounters where
  prefillLoad : UInt64 := 0
  decodeLoad : UInt64 := 0
deriving DecidableEq, Repr

namespace WorkerCounters

def load (c : WorkerCounters) : ActiveLoadKind → UInt64
  | .prefillTokens => c.prefillLoad
  | .decodeBlocks => c.decodeLoad

/-- Change the counter of one axis. -/
def modify (c : WorkerCounters) (f : UInt64 → UInt64) : ActiveLoadKind → WorkerCounters
  | .prefillTokens => { c with prefillLoad := f c.prefillLoad }
  | .decodeBlocks => { c with decodeLoad := f c.decodeLoad }

theorem load_modify (c : WorkerCounters) (f : UInt64 → UInt64) (kind axis : ActiveLoadKind) :
    (c.modify f kind).load axis = if axis = kind then f (c.load kind) else c.load axis := by
  cases kind <;> cases axis <;> rfl

@[simp] theorem load_default (kind : ActiveLoadKind) : ({} : WorkerCounters).load kind = 0 := by
  cases kind <;> rfl

end WorkerCounters

/-- A reference to shared counters. -/
abbrev CountersRef := ℕ

/-- What a request brings in when it is registered, with the counters looked up for its worker. -/
structure Registration where
  worker : WorkerId
  counters : CountersRef
  prefillLoad : UInt64
  decodeLoad : UInt64
deriving DecidableEq, Repr

/-- The load of a registration on either axis. -/
def Registration.load (r : Registration) : ActiveLoadKind → UInt64
  | .prefillTokens => r.prefillLoad
  | .decodeBlocks => r.decodeLoad

/-- The entry of a request in flight. -/
structure RequestEntry extends Registration where
  registeredAt : ℕ
deriving DecidableEq, Repr

/-- A call, at its next atomic access. -/
inductive Operation (RequestId : Type) where
  /-- `register` is about to add the prefill load. -/
  | addPrefill (id : RequestId) (r : Registration)
  /-- `register` is about to add the decode load. -/
  | addDecode (id : RequestId) (r : Registration)
  /-- `register` is about to insert the entry. -/
  | insertEntry (id : RequestId) (r : Registration)
  /-- `sweep_stale` looks at the entries. -/
  | scanning (now : ℕ) (expired : List RequestId)
  /-- `sweep_stale`, or the drop of a guard, is about to remove the first of the requests. -/
  | removing (ids : List RequestId)
  /-- The entry was removed, and its prefill load is about to be subtracted. -/
  | subPrefill (id : RequestId) (r : Registration) (ids : List RequestId)
  /-- The entry was removed, and its decode load is about to be subtracted. -/
  | subDecode (id : RequestId) (r : Registration) (ids : List RequestId)
  | done
deriving DecidableEq, Repr

/-- The call is neither registering nor releasing a request. -/
def Operation.Settled {RequestId : Type} : Operation RequestId → Prop
  | .scanning .. | .removing _ | .done => True
  | _ => False

/-- What the history records besides the movements, in the order of the lookups. -/
inductive RegistryVisit (RequestId : Type) where
  | registered (id : RequestId) (r : Registration)
  | forgot (worker : WorkerId)
deriving DecidableEq, Repr

open Ledger

/-- The registry, with the calls in flight, the guards alive and the history, latest first. -/
structure ActiveLoadRegistry (RequestId : Type) where
  workers : WorkerId → Option CountersRef
  counters : List WorkerCounters
  requests : List (RequestId × RequestEntry)
  clock : ℕ
  staleRequestTimeout : ℕ
  operations : List (Operation RequestId)
  guards : List RequestId
  journal : ActiveLoadKind → List (Movement RequestId CountersRef)
  visits : List (RegistryVisit RequestId)

/-- A step of the registry. -/
inductive ActiveLoadStep (RequestId : Type) where
  /-- `register` is called and looks up the counters. -/
  | register (worker : WorkerId) (prefillLoad decodeLoad : UInt64)
  /-- A guard is dropped. -/
  | dropGuard (id : RequestId)
  /-- `sweep_stale` is called and reads the clock. -/
  | sweepStale
  /-- `sweep_stale` comes to the entry of a request. -/
  | visit (operation : ℕ) (id : RequestId)
  /-- A call makes its next access. -/
  | advance (operation : ℕ)
  | forgetWorker (worker : WorkerId)
  | elapse (time : ℕ)
deriving DecidableEq, Repr

namespace ActiveLoadRegistry

variable {RequestId : Type} [DecidableEq RequestId]

/-- Source: `active_load.rs`, `new`. -/
def new (staleRequestTimeout : ℕ) : ActiveLoadRegistry RequestId where
  workers _ := none
  counters := []
  requests := []
  clock := 0
  staleRequestTimeout
  operations := []
  guards := []
  journal _ := []
  visits := []

variable (s : ActiveLoadRegistry RequestId)

def setOperation (k : ℕ) (op : Operation RequestId) : ActiveLoadRegistry RequestId :=
  { s with operations := s.operations.set k op }

def spawn (op : Operation RequestId) : ActiveLoadRegistry RequestId :=
  { s with operations := s.operations ++ [op] }

/-- The load of a request on an axis, as a deposit into its counters. -/
def deposit (kind : ActiveLoadKind) (id : RequestId) (r : Registration) :
    Deposit RequestId CountersRef :=
  ⟨id, r.counters, (r.load kind).toNat⟩

/-- Record a movement of a counter. -/
def record (kind : ActiveLoadKind) (m : Movement RequestId CountersRef) :
    ActiveLoadRegistry RequestId :=
  { s with journal := Function.update s.journal kind (m :: s.journal kind) }

def modifyCounters (c : CountersRef) (kind : ActiveLoadKind) (f : UInt64 → UInt64) :
    ActiveLoadRegistry RequestId :=
  { s with counters := s.counters.modify c (·.modify f kind) }

/-- Add the load of a request to its counters. -/
def fetchAdd (kind : ActiveLoadKind) (id : RequestId) (r : Registration) :
    ActiveLoadRegistry RequestId :=
  (s.modifyCounters r.counters kind (· + r.load kind)).record kind
    (.deposited (deposit kind id r))

/-- Subtract the load of a request from its counters. -/
def fetchSub (kind : ActiveLoadKind) (id : RequestId) (r : Registration) :
    ActiveLoadRegistry RequestId :=
  (s.modifyCounters r.counters kind (· - r.load kind)).record kind
    (.withdrawn (deposit kind id r))

/-- The entry of a request. -/
def entry (id : RequestId) : Option RequestEntry := (s.requests.find? (·.1 = id)).map Prod.snd

/-- `register` looks up the counters of the worker, or makes new ones.

Source: `active_load.rs`, lines 275–282. -/
def lookup (id : RequestId) (worker : WorkerId) (prefillLoad decodeLoad : UInt64) :
    ActiveLoadRegistry RequestId :=
  match s.workers worker with
  | some c =>
      let r : Registration := ⟨worker, c, prefillLoad, decodeLoad⟩
      { s.spawn (.addPrefill id r) with visits := .registered id r :: s.visits }
  | none =>
      let r : Registration := ⟨worker, s.counters.length, prefillLoad, decodeLoad⟩
      { s.spawn (.addPrefill id r) with
        workers := Function.update s.workers worker (some s.counters.length)
        counters := s.counters ++ [{}]
        visits := .registered id r :: s.visits }

/-- Source: `active_load.rs`, lines 283–308 (`register`), 366–405 (`sweep_stale`) and 525–541 (the
drop of a guard). -/
def advance (k : ℕ) : Operation RequestId → ActiveLoadRegistry RequestId
  | .addPrefill id r => (s.fetchAdd .prefillTokens id r).setOperation k (.addDecode id r)
  | .addDecode id r => (s.fetchAdd .decodeBlocks id r).setOperation k (.insertEntry id r)
  | .insertEntry id r =>
      { s with
        requests := (id, ⟨r, s.clock⟩) :: s.requests.eraseP (·.1 = id)
        guards := id :: s.guards }.setOperation k .done
  | .scanning _ expired => s.setOperation k (.removing expired)
  | .removing [] => s.setOperation k .done
  | .removing (id :: ids) =>
      match s.entry id with
      | none => s.setOperation k (.removing ids)
      | some e =>
          { s with requests := s.requests.eraseP (·.1 = id) }.setOperation k
            (.subPrefill id e.toRegistration ids)
  | .subPrefill id r ids => (s.fetchSub .prefillTokens id r).setOperation k (.subDecode id r ids)
  | .subDecode id r ids => (s.fetchSub .decodeBlocks id r).setOperation k (.removing ids)
  | .done => s

/-- The entry is older than the timeout.

Source: `active_load.rs`, line 363. -/
def isStale (now : ℕ) (e : RequestEntry) : Bool := s.staleRequestTimeout ≤ now - e.registeredAt

/-- A sweep that comes to the entry of a request notes the request if it is stale. -/
def scan (k : ℕ) (id : RequestId) : Operation RequestId → ActiveLoadRegistry RequestId
  | .scanning now expired =>
      match s.entry id with
      | none => s
      | some e =>
          if s.isStale now e then s.setOperation k (.scanning now (expired ++ [id])) else s
  | _ => s

/-- One step. The call with number `n` draws the identifier `newV4 n`. -/
def step (newV4 : ℕ → RequestId) (s : ActiveLoadRegistry RequestId) :
    ActiveLoadStep RequestId → ActiveLoadRegistry RequestId
  | .register worker prefillLoad decodeLoad =>
      s.lookup (newV4 s.operations.length) worker prefillLoad decodeLoad
  | .dropGuard id =>
      if id ∈ s.guards then { s.spawn (.removing [id]) with guards := s.guards.erase id } else s
  | .sweepStale => s.spawn (.scanning s.clock [])
  | .visit k id =>
      match s.operations[k]? with
      | none => s
      | some op => s.scan k id op
  | .advance k =>
      match s.operations[k]? with
      | none => s
      | some op => s.advance k op
  | .forgetWorker worker =>
      { s with
        workers := Function.update s.workers worker none
        visits := .forgot worker :: s.visits }
  | .elapse time => { s with clock := s.clock + time }

/-- The registry after a sequence of steps. -/
def run (newV4 : ℕ → RequestId) (s : ActiveLoadRegistry RequestId)
    (steps : List (ActiveLoadStep RequestId)) : ActiveLoadRegistry RequestId :=
  steps.foldl (step newV4) s

/-- The current load of a worker on an axis.

Source: `active_load.rs`, `prefill_load` and `decode_load`. -/
def load (kind : ActiveLoadKind) (worker : WorkerId) : UInt64 :=
  match s.workers worker with
  | none => 0
  | some c => (s.counters.getD c {}).load kind

def prefillLoad (worker : WorkerId) : UInt64 := s.load .prefillTokens worker

def decodeLoad (worker : WorkerId) : UInt64 := s.load .decodeBlocks worker

/-- No call is registering or releasing a request. -/
def Quiet : Prop := ∀ op ∈ s.operations, op.Settled

/-- The request looked up the counters of the worker after the worker was last forgotten. -/
def registeredSince (worker : WorkerId) (id : RequestId) : Bool :=
  (s.visits.takeWhile (· ≠ .forgot worker)).any fun
    | .registered id' r => id' = id ∧ r.worker = worker
    | .forgot _ => false

/-- The loads of the tracked requests that were registered for the worker since it was last
forgotten. -/
def trackedLoad (kind : ActiveLoadKind) (worker : WorkerId) : ℕ :=
  ((s.requests.filter fun e => s.registeredSince worker e.1).map fun e =>
    (e.2.load kind).toNat).sum

end ActiveLoadRegistry

end SglangRs.Router
