import Mathlib.Algebra.Ring.Nat
import SglangRs.Collections.FallibleMap

/-!
# A tensor-parallel worker group

A worker group (`sglang-srt/src/distributed/parallel.rs`) has a thread for every rank of the node.
The group sends commands to each thread on a channel of its own; all threads send events back on
one channel. A thread initializes its worker, announces it, executes commands, and stops on a
shutdown command. `execute_all` sends a command to all ranks and collects as many events as there
were sends; `shutdown_inner` does the same with a shutdown command and joins the threads.

The steps of the group and of the threads are interleaved in any order. What a worker does is an
input of the step: the call succeeds, fails or panics. A thread that ends drops its sender of events
first and its receiver of commands afterwards, as its parameters are dropped in reverse order. The
text of an error is always given.

## Main definitions

* `TensorParallelTopology.new`: the ranks of a node.
* `RankThread`, `RankThread.step`: the thread of a rank.
* `WorkerGroup`, `WorkerGroup.advance`: the group and the step of its current call.
* `Action`, `WorkerGroup.step`: the steps of all.
-/

namespace SglangRs.TensorParallel

/-! ### The topology -/

structure TensorParallelRank where
  globalRank : ℕ
  localRank : ℕ
  worldSize : ℕ
  deviceOrdinal : ℕ
deriving DecidableEq, Repr

/-- The ranks of a node, in order. -/
structure TensorParallelTopology where
  worldSize : ℕ
  nodeCount : ℕ
  nodeRank : ℕ
  localRanks : List TensorParallelRank
  sorted : localRanks.Pairwise fun r r' => r.globalRank < r'.globalRank

inductive ParallelTopologyError where
  | zeroWorldSize
  | zeroNodeCount
  | invalidNodeRank (nodeRank nodeCount : ℕ)
  | worldSizeNotDivisible (worldSize nodeCount : ℕ)
  | zeroDeviceOrdinalStep
  | globalRankOverflow (nodeRank localWorldSize : ℕ)
  | deviceOrdinalOverflow (baseDeviceOrdinal deviceOrdinalStep localRank : ℕ)
deriving DecidableEq, Repr

namespace TensorParallelTopology

/-- A result that does not fit into a `usize`. -/
def checked (value : ℕ) (error : ParallelTopologyError) : Except ParallelTopologyError ℕ :=
  if value < 2 ^ 64 then .ok value else .error error

def localRank (worldSize nodeRank localWorldSize firstGlobalRank baseDeviceOrdinal
    deviceOrdinalStep localRank : ℕ) : Except ParallelTopologyError TensorParallelRank := do
  let globalRank ← checked (firstGlobalRank + localRank)
    (.globalRankOverflow nodeRank localWorldSize)
  let offset ← checked (localRank * deviceOrdinalStep)
    (.deviceOrdinalOverflow baseDeviceOrdinal deviceOrdinalStep localRank)
  let deviceOrdinal ← checked (baseDeviceOrdinal + offset)
    (.deviceOrdinalOverflow baseDeviceOrdinal deviceOrdinalStep localRank)
  return { globalRank, localRank, worldSize, deviceOrdinal }

theorem globalRank_of_localRank
    {worldSize nodeRank localWorldSize first base deviceStep i : ℕ} {rank : TensorParallelRank}
    (h : localRank worldSize nodeRank localWorldSize first base deviceStep i = .ok rank) :
    rank.globalRank = first + i := by
  simp only [localRank, checked, bind, Except.bind, pure, Except.pure] at h
  split_ifs at h
  dsimp only at h
  split_ifs at h
  rw [← Except.ok.inj h]

theorem sorted_of_mapM
    {worldSize nodeRank localWorldSize first base deviceStep : ℕ} {ranks : List TensorParallelRank}
    (h : (List.range localWorldSize).mapM
      (localRank worldSize nodeRank localWorldSize first base deviceStep) = .ok ranks) :
    ranks.Pairwise fun r r' => r.globalRank < r'.globalRank := by
  have hranks : (List.range localWorldSize).map (first + ·) = ranks.map (·.globalRank) := by
    rw [← List.forall₂_eq_eq_eq, List.forall₂_map_left_iff, List.forall₂_map_right_iff]
    exact (mapM_eq_ok_iff.mp h).imp fun i rank hrank => (globalRank_of_localRank hrank).symm
  have hsorted : (ranks.map (·.globalRank)).Pairwise (· < ·) := by
    rw [← hranks]
    exact List.pairwise_lt_range.map _ fun _ _ hlt => Nat.add_lt_add_left hlt first
  exact List.pairwise_map.mp hsorted

/-- Source: `parallel.rs`, lines 43–110. -/
def new (worldSize nodeCount nodeRank baseDeviceOrdinal deviceOrdinalStep : ℕ) :
    Except ParallelTopologyError TensorParallelTopology :=
  if worldSize = 0 then .error .zeroWorldSize
  else if nodeCount = 0 then .error .zeroNodeCount
  else if nodeRank ≥ nodeCount then .error (.invalidNodeRank nodeRank nodeCount)
  else if ¬nodeCount ∣ worldSize then .error (.worldSizeNotDivisible worldSize nodeCount)
  else if deviceOrdinalStep = 0 then .error .zeroDeviceOrdinalStep
  else
    let localWorldSize := worldSize / nodeCount
    match checked (nodeRank * localWorldSize) (.globalRankOverflow nodeRank localWorldSize) with
    | .error error => .error error
    | .ok first =>
        match h : (List.range localWorldSize).mapM (localRank worldSize nodeRank localWorldSize
          first baseDeviceOrdinal deviceOrdinalStep) with
        | .error error => .error error
        | .ok localRanks =>
            .ok { worldSize, nodeCount, nodeRank, localRanks, sorted := sorted_of_mapM h }

end TensorParallelTopology

/-! ### The thread of a rank -/

/-- What a call of a worker comes to. -/
inductive Outcome (α : Type) where
  | ok (a : α)
  | failed (message : String)
  | panicked (message : String)

/-- A panic is caught and becomes an error. -/
def Outcome.result {α : Type} (what : String) : Outcome α → Except String α
  | .ok a => .ok a
  | .failed message => .error message
  | .panicked message => .error s!"{what} panicked: {message}"

/-- What the calls of a worker come to if a thread makes them in its next step. -/
structure Work (Output : Type) where
  initializer : Outcome Unit
  execute : Outcome Output
  shutdown : Outcome Unit

inductive RankCommand (Command : Type) where
  | execute (sequence : UInt64) (command : Command)
  | shutdown (sequence : UInt64)

inductive RankEvent (Output : Type) where
  | ready (rank : TensorParallelRank)
  | startupFailed (rank : TensorParallelRank) (message : String)
  | executed (rank : TensorParallelRank) (sequence : UInt64) (result : Except String Output)
  | stopped (rank : TensorParallelRank) (sequence : UInt64) (result : Except String Unit)

namespace RankEvent

variable {Output : Type}

def rank : RankEvent Output → TensorParallelRank
  | .ready rank | .startupFailed rank _ | .executed rank _ _ | .stopped rank _ _ => rank

def sequence : RankEvent Output → Option UInt64
  | .executed _ sequence _ | .stopped _ sequence _ => some sequence
  | .ready _ | .startupFailed _ _ => none

def name : RankEvent Output → String
  | .ready _ => "ready"
  | .startupFailed _ _ => "startup-failed"
  | .executed _ _ _ => "executed"
  | .stopped _ _ _ => "stopped"

end RankEvent

/-- Where a thread is. It has returned from its function before it drops its ends of the channels.
-/
inductive RankPhase (Command Output : Type) where
  | initializing
  | rejecting (message : String)
  | announcing
  | receiving
  | executing (sequence : UInt64) (command : Command)
  | reporting (sequence : UInt64) (result : Except String Output)
  | stopping (sequence : UInt64)
  | confirming (sequence : UInt64) (result : Except String Unit)
  | abandoning
  | returning
  | dropping
  | exited

/-- The thread of a rank, with its commands, what it has executed, whether it has a worker and how
often that was shut down. -/
structure RankThread (Command Output : Type) where
  rank : TensorParallelRank
  phase : RankPhase Command Output := .initializing
  commands : List (RankCommand Command) := []
  executed : List (Command × Except String Output) := []
  initialized : Bool := false
  shutdowns : ℕ := 0

namespace RankThread

variable {Command Output : Type}

/-- A step of `run_rank_worker` and the events that it sends. The group is gone if it is not
connected; then sends fail and there are no more commands.

Source: `parallel.rs`, lines 775–840. -/
def step (connected : Bool) (work : Work Output) (t : RankThread Command Output) :
    Option (RankThread Command Output × List (RankEvent Output)) :=
  match t.phase with
  | .initializing =>
      match work.initializer.result "initializer" with
      | .ok () => some ({ t with phase := .announcing, initialized := true }, [])
      | .error message => some ({ t with phase := .rejecting message }, [])
  | .rejecting message =>
      some ({ t with phase := .returning },
        if connected then [.startupFailed t.rank message] else [])
  | .announcing =>
      if connected then some ({ t with phase := .receiving }, [.ready t.rank])
      else some ({ t with phase := .abandoning }, [])
  | .receiving =>
      match t.commands with
      | .execute sequence command :: commands =>
          some ({ t with phase := .executing sequence command, commands }, [])
      | .shutdown sequence :: commands =>
          some ({ t with phase := .stopping sequence, commands }, [])
      | [] => if connected then none else some ({ t with phase := .abandoning }, [])
  | .executing sequence command =>
      let result := work.execute.result "worker"
      some ({ t with
        phase := .reporting sequence result
        executed := t.executed ++ [(command, result)] }, [])
  | .reporting sequence result =>
      if connected then some ({ t with phase := .receiving }, [.executed t.rank sequence result])
      else some ({ t with phase := .abandoning }, [])
  | .stopping sequence =>
      some ({ t with
        phase := .confirming sequence (work.shutdown.result "worker")
        shutdowns := t.shutdowns + 1 }, [])
  | .confirming sequence result =>
      some ({ t with phase := .returning },
        if connected then [.stopped t.rank sequence result] else [])
  | .abandoning => some ({ t with phase := .returning, shutdowns := t.shutdowns + 1 }, [])
  | .returning => some ({ t with phase := .dropping }, [])
  | .dropping => some ({ t with phase := .exited }, [])
  | .exited => none

/-- The thread can still send events. -/
def HoldsEvents (t : RankThread Command Output) : Bool :=
  match t.phase with
  | .dropping | .exited => false
  | _ => true

def HasExited (t : RankThread Command Output) : Bool :=
  match t.phase with
  | .exited => true
  | _ => false

/-- A command is sent to the thread, unless its receiver is gone. -/
def push (command : RankCommand Command) (t : RankThread Command Output) :
    Option (RankThread Command Output) :=
  if t.HasExited then none else some { t with commands := t.commands ++ [command] }

end RankThread

/-! ### The group -/

structure RankOutput (Output : Type) where
  rank : TensorParallelRank
  output : Output
deriving DecidableEq

structure RankFailure where
  rank : TensorParallelRank
  message : String
deriving DecidableEq, Repr

inductive WorkerGroupError where
  | threadSpawn (rank : TensorParallelRank) (message : String)
  | rankFailures (stage : String) (failures : List RankFailure)
  | eventChannelClosed (stage : String)
  | unexpectedEvent (stage detail : String)
  | alreadyShutdown
deriving DecidableEq, Repr

/-- The text of `SendError`. -/
def sendError : String := "sending on a closed channel"

/-- The text of an optional sequence number. -/
def debugSequence : Option UInt64 → String
  | some sequence => s!"Some({sequence})"
  | none => "None"

/-- Why `shutdown_inner` is called. -/
inductive Purpose where
  | launch (error : WorkerGroupError)
  | shutdown
  | drop

/-- Where the current call is. A group that is at rest waits for the next call. -/
inductive GroupPhase (Command Output : Type) where
  | launching
  | aborting (error : WorkerGroupError) (next : ℕ)
  | abortJoining (error : WorkerGroupError) (next : ℕ)
  | starting (left : ℕ) (failures : List RankFailure)
  | idle
  | executing (sequence : UInt64) (command : Command) (next expected : ℕ)
      (failures : List RankFailure)
  | collecting (sequence : UInt64) (command : Command) (left : ℕ)
      (outputs : List (RankOutput Output)) (failures : List RankFailure)
  | stopping (purpose : Purpose) (sequence : UInt64) (next expected : ℕ)
      (failures : List RankFailure)
  | draining (purpose : Purpose) (sequence : UInt64) (left : ℕ) (failures : List RankFailure)
  | joining (purpose : Purpose) (next : ℕ) (failures : List RankFailure)
  | gone

/-- The group with its threads, the events on their way, and the results of the calls so far. -/
structure WorkerGroup (Command Output : Type) where
  topology : TensorParallelTopology
  phase : GroupPhase Command Output := .launching
  threads : List (RankThread Command Output) := []
  events : List (RankEvent Output) := []
  nextSequence : UInt64 := 1
  isShutdown : Bool := false
  launched : Option (Except WorkerGroupError Unit) := none
  calls : List (Command × Except WorkerGroupError (List (RankOutput Output))) := []
  shutdownResults : List (Except WorkerGroupError Unit) := []

namespace WorkerGroup

variable {Command Output : Type} (g : WorkerGroup Command Output)

/-- All senders of events are gone. -/
def EventsClosed : Bool := g.threads.all (!·.HoldsEvents)

/-- The end of `shutdown_inner`. After a launch that has failed and after a drop the group is gone.

Source: `parallel.rs`, lines 692–700. -/
def finishShutdown (purpose : Purpose) (failures : List RankFailure) : WorkerGroup Command Output :=
  match purpose with
  | .launch error => { g with phase := .gone, launched := some (.error error) }
  | .drop => { g with phase := .gone }
  | .shutdown => { g with
      phase := .idle
      shutdownResults := g.shutdownResults ++
        [if failures = [] then .ok () else .error (.rankFailures "shutdown" failures)] }

/-- The beginning of `shutdown_inner`.

Source: `parallel.rs`, lines 645–650. -/
def beginShutdown (purpose : Purpose) : WorkerGroup Command Output :=
  if g.isShutdown then g.finishShutdown purpose []
  else { g with
    isShutdown := true
    phase := .stopping purpose g.nextSequence 0 0 []
    nextSequence := g.nextSequence + 1 }

/-- The end of `execute_all`. -/
def finishExecute (command : Command)
    (result : Except WorkerGroupError (List (RankOutput Output))) : WorkerGroup Command Output :=
  { g with phase := .idle, calls := g.calls ++ [(command, result)] }

/-- Send a command to the thread of the next rank: the threads afterwards, and whether it was sent.
-/
def send (next : ℕ) (t : RankThread Command Output) (command : RankCommand Command) :
    List (RankThread Command Output) × Bool :=
  match t.push command with
  | some t => (g.threads.set next t, true)
  | none => (g.threads, false)

/-- Outputs are returned in the order of the ranks. -/
def sortOutputs (outputs : List (RankOutput Output)) : List (RankOutput Output) :=
  outputs.mergeSort fun o o' => o.rank.globalRank ≤ o'.rank.globalRank

/-- One step of the current call. There is none while the call waits for an event or a thread.

Source: `parallel.rs`, lines 493–707. -/
def advance : Option (WorkerGroup Command Output) :=
  match g.phase with
  | .launching =>
      if g.threads.length < g.topology.localRanks.length then none
      else some { g with phase := .starting g.threads.length [] }
  | .aborting error next =>
      match g.threads[next]? with
      | some t => some { g with
          threads := (g.send next t (.shutdown 0)).1
          phase := .aborting error (next + 1) }
      | none => some { g with phase := .abortJoining error 0 }
  | .abortJoining error next =>
      match g.threads[next]? with
      | some t =>
          if t.HasExited then some { g with phase := .abortJoining error (next + 1) } else none
      | none => some { g with phase := .gone, launched := some (.error error) }
  | .starting 0 failures =>
      if failures = [] then some { g with phase := .idle, launched := some (.ok ()) }
      else some (g.beginShutdown (.launch (.rankFailures "startup" failures)))
  | .starting (left + 1) failures =>
      match g.events with
      | .ready _ :: events => some { g with events, phase := .starting left failures }
      | .startupFailed rank message :: events =>
          some { g with events, phase := .starting left (failures ++ [⟨rank, message⟩]) }
      | event :: events => some { g with
          events
          phase := .starting left
            (failures ++ [⟨event.rank, s!"unexpected startup event: {event.name}"⟩]) }
      | [] =>
          if g.EventsClosed then some (g.beginShutdown (.launch (.eventChannelClosed "startup")))
          else none
  | .idle => none
  | .executing sequence command next expected failures =>
      match g.threads[next]? with
      | some t =>
          let (threads, sent) := g.send next t (.execute sequence command)
          some { g with
            threads
            phase := if sent then .executing sequence command (next + 1) (expected + 1) failures
              else .executing sequence command (next + 1) expected
                (failures ++ [⟨t.rank, sendError⟩]) }
      | none => some { g with phase := .collecting sequence command expected [] failures }
  | .collecting _ command 0 outputs failures =>
      if failures = [] then some (g.finishExecute command (.ok (sortOutputs outputs)))
      else some (g.finishExecute command (.error (.rankFailures "execution" failures)))
  | .collecting sequence command (left + 1) outputs failures =>
      match g.events with
      | event :: events =>
          match event with
          | .executed rank response result =>
              if response = sequence then
                match result with
                | .ok output => some { g with
                    events
                    phase := .collecting sequence command left (outputs ++ [⟨rank, output⟩])
                      failures }
                | .error message => some { g with
                    events
                    phase := .collecting sequence command left outputs
                      (failures ++ [⟨rank, message⟩]) }
              else some (unexpected event sequence command events)
          | _ => some (unexpected event sequence command events)
      | [] =>
          if g.EventsClosed then
            some (g.finishExecute command (.error (.eventChannelClosed "execution")))
          else none
  | .stopping purpose sequence next expected failures =>
      match g.threads[next]? with
      | some t =>
          let (threads, sent) := g.send next t (.shutdown sequence)
          some { g with
            threads
            phase := if sent then .stopping purpose sequence (next + 1) (expected + 1) failures
              else .stopping purpose sequence (next + 1) expected
                (failures ++ [⟨t.rank, sendError⟩]) }
      | none => some { g with phase := .draining purpose sequence expected failures }
  | .draining purpose _ 0 failures => some { g with phase := .joining purpose 0 failures }
  | .draining purpose sequence (left + 1) failures =>
      match g.events with
      | event :: events => some { g with
          events
          phase := .draining purpose sequence left (failures ++ stopFailure event sequence) }
      | [] =>
          if g.EventsClosed then some { g with phase := .joining purpose 0 failures } else none
  | .joining purpose next failures =>
      match g.threads[next]? with
      | some t =>
          if t.HasExited then some { g with phase := .joining purpose (next + 1) failures }
          else none
      | none => some (g.finishShutdown purpose failures)
  | .gone => none
where
  /-- An event that does not belong to the call ends it. -/
  unexpected (event : RankEvent Output) (sequence : UInt64) (command : Command)
      (events : List (RankEvent Output)) : WorkerGroup Command Output :=
    { g with events }.finishExecute command <| .error <| .unexpectedEvent "execution"
      (s!"{event.name} from rank {event.rank.globalRank} for sequence " ++
        s!"{debugSequence event.sequence}, expected {sequence}")
  /-- What an event says about the shutdown of a rank. -/
  stopFailure (event : RankEvent Output) (sequence : UInt64) : List RankFailure :=
    let unexpected : RankFailure := ⟨event.rank,
      s!"unexpected {event.name} event for sequence {debugSequence event.sequence} during " ++
        s!"shutdown sequence {sequence}"⟩
    match event with
    | .stopped rank response result =>
        if response = sequence then
          match result with
          | .ok () => []
          | .error message => [⟨rank, message⟩]
        else [unexpected]
    | _ => [unexpected]

end WorkerGroup

/-! ### Steps -/

/-- The steps of a group and its threads. -/
inductive Action (Command Output : Type) where
  | spawn
  | spawnFails (message : String)
  | advance
  | work (i : ℕ) (work : Work Output)
  | executeAll (command : Command)
  | shutdown
  | drop

/-- The steps that belong to a call or a thread; the others are new calls. -/
def Action.IsInternal {Command Output : Type} : Action Command Output → Bool
  | .executeAll _ | .shutdown | .drop => false
  | _ => true

namespace WorkerGroup

variable {Command Output : Type} (g : WorkerGroup Command Output)

def IsOver : Bool :=
  match g.phase with
  | .gone => true
  | _ => false

/-- No call is in progress. -/
def AtRest : Bool :=
  match g.phase with
  | .idle | .gone => true
  | _ => false

/-- The rank whose thread is spawned next. -/
def nextRank? : Option TensorParallelRank :=
  match g.phase with
  | .launching => g.topology.localRanks[g.threads.length]?
  | _ => none

/-- The group is called when it is at rest. -/
def IsIdle : Bool :=
  match g.phase with
  | .idle => true
  | _ => false

/-- A step, if it can be taken. -/
def step : Action Command Output → Option (WorkerGroup Command Output)
  | .spawn => g.nextRank?.map fun rank => { g with threads := g.threads ++ [{ rank }] }
  | .spawnFails message =>
      g.nextRank?.map fun rank => { g with phase := .aborting (.threadSpawn rank message) 0 }
  | .advance => g.advance
  | .work i work => do
      let t ← g.threads[i]?
      let (t, events) ← t.step (!g.IsOver) work
      return { g with threads := g.threads.set i t, events := g.events ++ events }
  | .executeAll command =>
      if ¬g.IsIdle then none
      else if g.isShutdown then some (g.finishExecute command (.error .alreadyShutdown))
      else some { g with
        phase := .executing g.nextSequence command 0 0 []
        nextSequence := g.nextSequence + 1 }
  | .shutdown => if g.IsIdle then some (g.beginShutdown .shutdown) else none
  | .drop => if g.IsIdle then some (g.beginShutdown .drop) else none

end WorkerGroup

end SglangRs.TensorParallel
