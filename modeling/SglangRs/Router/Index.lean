import Mathlib.Data.List.Perm.Basic
import SglangRs.Router.BlockSets

/-!
# The index of the router

The index (`policies/kv_events/index.rs`) keeps the hash tree up to date. A subscriber task for
every rank of a worker forwards the events of the rank into a channel, the pump takes them out and
applies them to the tree, and the calls `add_worker` and `remove_worker` start and stop the
subscribers. All of them run concurrently. What they share is behind locks: the set of ranks that
are attached, the ranks of every worker URL, the handles of the subscriber tasks, the sequence
numbers of the batches applied last, and the tree.

A step of this model is one lock section, or one action of a task that needs no lock. A call that
has to wait, for a lock or for a task to end, takes no step: its step leaves the state as it is. The
endpoints and topics of the sockets are not modelled; whatever a socket may deliver is an input.

The state carries a history besides: every event names the task that sent it, and the log records
the writes of the pump and the removals that returned.

## Main definitions

* `Router.EventConfig`, `Router.BlockSizeOracle`: what a worker publishes.
* `Router.WorkerEvent`, `Router.Task`, `Router.Pump`: the subscribers, the events and the pump.
* `Router.Call`: the calls in flight, each at its next lock section.
* `Router.IndexState`, `IndexState.step`: the index and its steps.
-/

namespace SglangRs.Router

/-- The part of a worker's event configuration that the index reads. -/
structure EventConfig where
  portBase : UInt16
  blockSize : UInt32
  dpSize : UInt32
deriving DecidableEq, Repr

/-- The ranks that are subscribed: those whose port does not overflow.

Source: `index.rs`, lines 218–224. -/
def EventConfig.dpRanks (cfg : EventConfig) : List UInt32 :=
  ((List.range cfg.dpSize.toNat).map UInt32.ofNat).filter fun rank =>
    cfg.portBase.toUInt32 + rank ≤ 65535

/-- The block size that all workers agree on, 0 as long as there is none. -/
structure BlockSizeOracle where
  value : UInt32
deriving DecidableEq, Repr

/-- Source: `block_size_oracle.rs`, `try_set`. -/
def BlockSizeOracle.trySet (oracle : BlockSizeOracle) (candidate : UInt32) :
    Option BlockSizeOracle :=
  if candidate = 0 then none
  else if oracle.value = 0 then some ⟨candidate⟩
  else if oracle.value = candidate then some oracle
  else none

/-- The key of a subscriber task. -/
abbrev TaskId := ℕ

/-- What a publisher sends: a batch of events, or that it shuts down. -/
inductive Message where
  | batch (seq : Int64) (events : List KvCacheEvent)
  | publisherReset
deriving DecidableEq, Repr

/-- A message in the channel, with the worker it comes from and the task that sent it. -/
structure WorkerEvent where
  worker : KvWorkerId
  message : Message
  sender : TaskId
deriving DecidableEq, Repr

/-- Where a subscriber task stands. -/
inductive TaskPhase where
  | waiting
  | sending (message : Message)
  | stopped
deriving DecidableEq, Repr

/-- A subscriber task. -/
structure Task where
  worker : KvWorkerId
  cancelled : Bool
  phase : TaskPhase
deriving DecidableEq, Repr

/-- Where the pump stands. -/
inductive Pump where
  | idle
  /-- An event was taken out of the channel. -/
  | received (event : WorkerEvent)
  /-- The worker of the event was found attached. -/
  | checked (event : WorkerEvent)
  /-- The batch was found to be new, and some of its events are still to be applied. -/
  | applying (worker : KvWorkerId) (sender : TaskId) (seq : Int64) (events : List KvCacheEvent)
deriving DecidableEq, Repr

/-- The next lock section of `add_worker`. -/
inductive AddStage where
  | resolve
  | markLive
  | register
  | subscribe
deriving DecidableEq, Repr

/-- The next lock section of `remove_worker`, with the ranks it took and, from the draining of the
handles on, the number of tasks spawned before and the tasks still to be joined. -/
inductive RemoveStage where
  | take
  | markDead (ids : List KvWorkerId)
  | drain (ids : List KvWorkerId)
  | join (ids : List KvWorkerId) (bound : TaskId) (tasks : List TaskId)
  | lockCursors (ids : List KvWorkerId) (bound : TaskId)
  | clear (ids : List KvWorkerId) (bound : TaskId)
deriving DecidableEq, Repr

/-- A call in flight. -/
inductive Call where
  | add (url : String) (cfg : EventConfig) (stage : AddStage)
  | remove (url : String) (stage : RemoveStage)
deriving DecidableEq, Repr

/-- What the history records. -/
inductive IndexEvent where
  /-- The pump wrote to the tree or to the cursor of a worker, for an event of a task. -/
  | changed (worker : KvWorkerId) (sender : TaskId)
  /-- `remove_worker` returned; `bound` tasks had been spawned when it drained the handles. -/
  | removed (url : String) (bound : TaskId)
deriving DecidableEq, Repr

/-- The capacity of the channel. -/
def eventChannelBuffer : ℕ := 1024

/-- The index, with its tasks, the pump, the calls in flight and the history, latest first. -/
structure IndexState where
  tree : TreeState
  oracle : BlockSizeOracle
  live : Finset KvWorkerId
  workers : String → Option (List UInt32)
  cursors : KvWorkerId → Option Int64
  cursorsLock : Option ℕ
  handles : List (KvWorkerId × TaskId)
  tasks : TaskId → Option Task
  nextTask : TaskId
  channel : List WorkerEvent
  pump : Pump
  calls : ℕ → Option Call
  log : List IndexEvent

namespace IndexState

/-- An index without workers. -/
def new (now : ℕ) : IndexState where
  tree := .new now
  oracle := ⟨0⟩
  live := ∅
  workers _ := none
  cursors _ := none
  cursorsLock := none
  handles := []
  tasks _ := none
  nextTask := 0
  channel := []
  pump := .idle
  calls _ := none
  log := []

variable (s : IndexState)

def setCall (id : ℕ) (call : Option Call) : IndexState :=
  { s with calls := Function.update s.calls id call }

def setTask (id : TaskId) (task : Task) : IndexState :=
  { s with tasks := Function.update s.tasks id (some task) }

def record (event : IndexEvent) : IndexState := { s with log := event :: s.log }

/-- The identities of the ranks of a worker. -/
def rankIds (url : String) (ranks : List UInt32) : List KvWorkerId := ranks.map (⟨url, ·⟩)

/-! ### Subscriptions -/

/-- Spawn a subscriber task for a rank, unless there is one.

Source: `subscriber.rs`, `add_worker`. -/
def subscribeRank (id : KvWorkerId) : IndexState :=
  if s.handles.any (·.1 = id) then s
  else
    { s with
      handles := s.handles ++ [(id, s.nextTask)]
      tasks := Function.update s.tasks s.nextTask (some ⟨id, false, .waiting⟩)
      nextTask := s.nextTask + 1 }

/-- A subscriber task finds out that it was cancelled, or receives a message, or gives up. -/
def select (id : TaskId) (message : Option Message) : IndexState :=
  match s.tasks id with
  | none => s
  | some task =>
      match task.phase with
      | .waiting =>
          if task.cancelled then s.setTask id { task with phase := .stopped }
          else
            match message with
            | none => s.setTask id { task with phase := .stopped }
            | some message => s.setTask id { task with phase := .sending message }
      | _ => s

/-- A subscriber task puts its message into the channel, if there is room. -/
def send (id : TaskId) : IndexState :=
  match s.tasks id with
  | none => s
  | some task =>
      match task.phase with
      | .sending message =>
          if s.channel.length < eventChannelBuffer then
            { s.setTask id { task with phase := .waiting } with
              channel := s.channel ++ [⟨task.worker, message, id⟩] }
          else s
      | _ => s

/-! ### The pump -/

/-- Apply an event to the tree. -/
def applyEvent (order : IterationOrder) (now : ℕ) (worker : KvWorkerId) (tree : TreeState) :
    KvCacheEvent → TreeState
  | .blockStored parentBlockHash blockHashes =>
      (tree.insert order now worker parentBlockHash blockHashes).1
  | .blockRemoved blockHashes => (tree.remove order worker blockHashes).1
  | .allBlocksCleared => (tree.clearWorker order worker).1

/-- A batch is applied unless one with its sequence number or a later one was applied before. -/
def isNew (cursor : Option Int64) (seq : Int64) : Bool :=
  match cursor with
  | none => true
  | some last => ¬seq ≤ last

/-- The next lock section of the pump. The cursors are read and written under their lock.

Source: `index.rs`, lines 322–397. -/
def pumpStep (order : IterationOrder) (now : ℕ) : IndexState :=
  match s.pump with
  | .idle =>
      match s.channel with
      | [] => s
      | event :: channel => { s with channel, pump := .received event }
  | .received event =>
      if event.worker ∈ s.live then { s with pump := .checked event } else { s with pump := .idle }
  | .checked event =>
      if s.cursorsLock = none then
        match event.message with
        | .publisherReset =>
            { s with
              cursors := Function.update s.cursors event.worker none
              pump := .idle
              log := .changed event.worker event.sender :: s.log }
        | .batch seq events =>
            if isNew (s.cursors event.worker) seq then
              { s with pump := .applying event.worker event.sender seq events }
            else { s with pump := .idle }
      else s
  | .applying worker sender seq (event :: events) =>
      { s with
        tree := applyEvent order now worker s.tree event
        pump := .applying worker sender seq events
        log := .changed worker sender :: s.log }
  | .applying worker sender seq [] =>
      if s.cursorsLock = none then
        { s with
          cursors := Function.update s.cursors worker (some seq)
          pump := .idle
          log := .changed worker sender :: s.log }
      else s

/-! ### Adding and removing workers -/

/-- Source: `index.rs`, lines 168–245. -/
def advanceAdd (id : ℕ) (url : String) (cfg : EventConfig) : AddStage → IndexState
  | .resolve =>
      match s.oracle.trySet cfg.blockSize with
      | none => s.setCall id none
      | some oracle =>
          { s with oracle }.setCall id
            (if cfg.dpRanks = [] then none else some (.add url cfg .markLive))
  | .markLive =>
      { s with live := s.live ∪ (rankIds url cfg.dpRanks).toFinset }.setCall id
        (some (.add url cfg .register))
  | .register =>
      { s with workers := Function.update s.workers url (some cfg.dpRanks) }.setCall id
        (some (.add url cfg .subscribe))
  | .subscribe => ((rankIds url cfg.dpRanks).foldl subscribeRank s).setCall id none

/-- The handles are drained in an order that the source does not control.

Source: `index.rs`, lines 253–287, and `subscriber.rs`, `remove_worker`. -/
def advanceRemove (order : IterationOrder) (drained : List (KvWorkerId × TaskId)) (id : ℕ)
    (url : String) : RemoveStage → IndexState
  | .take =>
      match s.workers url with
      | none => (s.setCall id none).record (.removed url s.nextTask)
      | some ranks =>
          { s with workers := Function.update s.workers url none }.setCall id
            (some (.remove url (.markDead (rankIds url ranks))))
  | .markDead ids =>
      { s with live := s.live \ ids.toFinset }.setCall id (some (.remove url (.drain ids)))
  | .drain ids =>
      if drained.Perm (s.handles.filter (·.1.url = url)) then
        { s with handles := s.handles.filter (·.1.url ≠ url) }.setCall id
          (some (.remove url (.join ids s.nextTask (drained.map Prod.snd))))
      else s
  | .join ids bound [] => s.setCall id (some (.remove url (.lockCursors ids bound)))
  | .join ids bound (head :: tasks) =>
      match s.tasks head with
      | none => s
      | some task =>
          if task.cancelled = false then s.setTask head { task with cancelled := true }
          else if task.phase = .stopped then s.setCall id (some (.remove url (.join ids bound tasks)))
          else s
  | .lockCursors ids bound =>
      if s.cursorsLock = none then
        { s with cursorsLock := some id }.setCall id (some (.remove url (.clear ids bound)))
      else s
  | .clear (worker :: ids) bound =>
      { s with
        tree := (s.tree.clearWorker order worker).1
        cursors := Function.update s.cursors worker none }.setCall id
        (some (.remove url (.clear ids bound)))
  | .clear [] bound =>
      ({ s with cursorsLock := none }.setCall id none).record (.removed url bound)

end IndexState

/-! ### Steps -/

/-- A step of the index. -/
inductive IndexStep where
  | callAdd (id : ℕ) (url : String) (cfg : EventConfig)
  | callRemove (id : ℕ) (url : String)
  | advance (id : ℕ) (order : IterationOrder) (drained : List (KvWorkerId × TaskId))
  | select (task : TaskId) (message : Option Message)
  | send (task : TaskId)
  | pump (order : IterationOrder) (now : ℕ)

namespace IndexState

def step (s : IndexState) : IndexStep → IndexState
  | .callAdd id url cfg =>
      match s.calls id with
      | none => s.setCall id (some (.add url cfg .resolve))
      | some _ => s
  | .callRemove id url =>
      match s.calls id with
      | none => s.setCall id (some (.remove url .take))
      | some _ => s
  | .advance id order drained =>
      match s.calls id with
      | none => s
      | some (.add url cfg stage) => s.advanceAdd id url cfg stage
      | some (.remove url stage) => s.advanceRemove order drained id url stage
  | .select task message => s.select task message
  | .send task => s.send task
  | .pump order now => s.pumpStep order now

/-- The index after a sequence of steps. -/
def run (s : IndexState) (steps : List IndexStep) : IndexState := steps.foldl step s

end IndexState

end SglangRs.Router
