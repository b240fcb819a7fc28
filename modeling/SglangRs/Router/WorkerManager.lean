import SglangRs.Router.Index
import SglangRs.Router.WorkerRegistry

/-!
# The worker manager

The manager (`workers/manager.rs`) takes discovery events from a channel. An added worker is
registered by a task of its own, which asks the worker for its details, enters it into the registry
and subscribes the KV event index to it; any other event is handled by the loop. Before the loop
handles an event of a worker it waits for the task of that worker that is still pending, if any, and
when the channel is closed it waits for all tasks.

The channel holds the events that are still to come. What a worker answers comes with its event, and
when it answers is when its task takes its step. The index takes its own steps in between; it is
that of `Router.Index`, and a call of `add_worker` or `remove_worker` is a call in flight there. The
state records the events that were handled.

## Main definitions

* `Router.ServerInfo`, `Router.resolve`: what introspection changes in a specification.
* `Router.RegisterTask`, `Router.Loop`: where the tasks and the loop stand.
* `Router.WorkerManager`, `WorkerManager.step`: the manager and its steps.
-/

namespace SglangRs.Router

/-- The role that a worker discloses. -/
inductive DisaggregationRole where
  | plain
  | prefill (bootstrapPort : UInt16)
  | decode
deriving DecidableEq, Repr

/-- What a worker answers. -/
structure ServerInfo where
  servedModelName : Option String
  eventConfig : Option EventConfig
  disaggregationRole : Option DisaggregationRole
deriving DecidableEq, Repr

/-- The specification after introspection.

Source: `manager.rs`, lines 222–255. -/
def resolve (spec : WorkerSpec) (info : ServerInfo) : WorkerSpec :=
  let named :=
    match info.servedModelName with
    | none => spec
    | some name => { spec with modelIds := [⟨name⟩] }
  match info.disaggregationRole with
  | none => named
  | some .plain => { named with mode := .plain, bootstrapPort := none }
  | some (.prefill port) => { named with mode := .prefill, bootstrapPort := some port }
  | some .decode => { named with mode := .decode, bootstrapPort := none }

@[simp] theorem resolve_id (spec : WorkerSpec) (info : ServerInfo) :
    (resolve spec info).id = spec.id := by
  rw [resolve]
  split <;> split <;> rfl

@[simp] theorem resolve_url (spec : WorkerSpec) (info : ServerInfo) :
    (resolve spec info).url = spec.url := by
  rw [resolve]
  split <;> split <;> rfl

/-- The worker an event is about. -/
def DiscoveryEvent.worker : DiscoveryEvent → WorkerId
  | .added spec => spec.id
  | .removed id | .modeChanged id _ => id

/-- An event with what the worker will answer if it was added. -/
abbrev Discovered := DiscoveryEvent × ServerInfo

/-- The event with the specification after introspection. -/
def Discovered.resolved : Discovered → DiscoveryEvent
  | (.added spec, info) => .added (resolve spec info)
  | (event, _) => event

/-- Where the task of an added worker stands. -/
inductive TaskStage where
  /-- The worker is being asked. -/
  | fetching
  /-- The worker was entered into the registry. -/
  | registered
  /-- `add_worker` of the index is under way. -/
  | indexing (call : ℕ)
  | finished
deriving DecidableEq, Repr

/-- The task of an added worker. -/
structure RegisterTask where
  spec : WorkerSpec
  info : ServerInfo
  stage : TaskStage
deriving DecidableEq, Repr

/-- Where the loop stands. -/
inductive Loop where
  | receiving
  /-- An event was received, and the loop waits for a task if there is one. -/
  | handling (event : DiscoveryEvent) (info : ServerInfo) (prev : Option ℕ)
  /-- `remove_worker` of the index is under way. -/
  | unsubscribing (call : ℕ)
  | draining
  | finished
deriving DecidableEq, Repr

structure WorkerManager where
  queue : List Discovered
  loop : Loop
  pending : List (WorkerId × ℕ)
  tasks : List RegisterTask
  nextCall : ℕ
  registry : WorkerRegistry
  index : IndexState
  handled : List Discovered

/-- A step of the manager, of one of its tasks or of the index. -/
inductive ManagerStep where
  | loop
  | register (task : ℕ)
  /-- The task calls `add_worker`, which asks the worker itself if there is no configuration yet. -/
  | subscribe (task : ℕ) (fetched : Option EventConfig)
  | returned (task : ℕ)
  | advance (call : ℕ) (order : IterationOrder) (drained : List (KvWorkerId × TaskId))
  | select (task : TaskId) (message : Option Message)
  | send (task : TaskId)
  | pump (order : IterationOrder) (now : ℕ)

namespace WorkerManager

def new (now : ℕ) (events : List Discovered) : WorkerManager where
  queue := events
  loop := .receiving
  pending := []
  tasks := []
  nextCall := 0
  registry := .empty
  index := .new now
  handled := []

variable (s : WorkerManager)

/-- The task has ended. -/
def isFinished (t : ℕ) : Bool := (s.tasks[t]?).all (·.stage = .finished)

def setStage (t : ℕ) (stage : TaskStage) : WorkerManager :=
  { s with tasks := s.tasks.modify t ({ · with stage }) }

/-- Receive an event. The handles of ended tasks are dropped, and that of the worker is taken out.

Source: `manager.rs`, lines 104–121, 147–151 and 179–183. -/
def receive (event : DiscoveryEvent) (info : ServerInfo)
    (queue : List Discovered) : WorkerManager :=
  let running := s.pending.filter fun p => !s.isFinished p.2
  { s with
    queue
    pending := running.filter (·.1 ≠ event.worker)
    loop := .handling event info ((running.find? (·.1 = event.worker)).map Prod.snd) }

/-- Handle an event. Looking up the URL of a removed worker and removing it is one step, since no
task is pending that could change the worker in between.

Source: `manager.rs`, lines 122–130, 152–165 and 184–199. -/
def handle (event : DiscoveryEvent) (info : ServerInfo) : WorkerManager :=
  let s := { s with loop := .receiving, handled := s.handled ++ [(event, info)] }
  match event with
  | .added spec =>
      { s with
        tasks := s.tasks ++ [⟨spec, info, .fetching⟩]
        pending := (spec.id, s.tasks.length) :: s.pending }
  | .removed id =>
      match s.registry.byId id with
      | none => { s with registry := s.registry.remove id }
      | some w =>
          { s with
            registry := s.registry.remove id
            index := s.index.step (.callRemove s.nextCall w.url)
            nextCall := s.nextCall + 1
            loop := .unsubscribing s.nextCall }
  | .modeChanged id mode => { s with registry := s.registry.changeMode id mode }

/-- The next step of the loop. -/
def loopStep : WorkerManager :=
  match s.loop, s.queue with
  | .receiving, (event, info) :: queue => s.receive event info queue
  | .receiving, [] => { s with loop := .draining }
  | .handling event info prev, _ => if prev.all s.isFinished then s.handle event info else s
  | .unsubscribing call, _ =>
      if s.index.calls call = none then { s with loop := .receiving } else s
  | .draining, _ =>
      if s.pending.all fun p => s.isFinished p.2 then { s with loop := .finished } else s
  | .finished, _ => s

/-- The answer of a worker has come: the worker is entered into the registry.

Source: `manager.rs`, lines 221–270. -/
def register (t : ℕ) : WorkerManager :=
  match s.tasks[t]? with
  | some ⟨spec, info, .fetching⟩ =>
      match s.registry.add (resolve spec info) with
      | (.ok (), registry) => { s with registry }.setStage t .registered
      | (.error _, registry) => { s with registry }.setStage t .finished
  | _ => s

/-- Source: `manager.rs`, lines 271–275, and `index.rs`, lines 168–190. -/
def subscribe (t : ℕ) (fetched : Option EventConfig) : WorkerManager :=
  match s.tasks[t]? with
  | some ⟨spec, info, .registered⟩ =>
      match info.eventConfig <|> fetched with
      | none => s.setStage t .finished
      | some cfg =>
          { s with
            index := s.index.step (.callAdd s.nextCall spec.url cfg)
            nextCall := s.nextCall + 1 }.setStage t (.indexing s.nextCall)
  | _ => s

/-- `add_worker` has returned. -/
def finish (t : ℕ) : WorkerManager :=
  match s.tasks[t]? with
  | some ⟨_, _, .indexing call⟩ => if s.index.calls call = none then s.setStage t .finished else s
  | _ => s

/-- A step of the index. -/
def indexStep (a : IndexStep) : WorkerManager := { s with index := s.index.step a }

def step (s : WorkerManager) : ManagerStep → WorkerManager
  | .loop => s.loopStep
  | .register t => s.register t
  | .subscribe t fetched => s.subscribe t fetched
  | .returned t => s.finish t
  | .advance call order drained => s.indexStep (.advance call order drained)
  | .select task message => s.indexStep (.select task message)
  | .send task => s.indexStep (.send task)
  | .pump order now => s.indexStep (.pump order now)

/-- The manager after a sequence of steps. -/
def run (s : WorkerManager) (steps : List ManagerStep) : WorkerManager := steps.foldl step s

/-- The channel is closed, and the manager has waited for all its tasks. -/
def Drained : Prop := s.loop = .finished

/-- The index has an entry for the URL or a subscriber for one of its ranks. -/
def Subscribed (url : String) : Prop :=
  s.index.workers url ≠ none ∨ ∃ h ∈ s.index.handles, h.1.url = url

/-- A worker with the URL is registered. -/
def Registered (url : String) : Prop := ∃ id w, s.registry.byId id = some w ∧ w.url = url

/-- The step does not reject a worker. -/
def Accepts (s : WorkerManager) : ManagerStep → Prop
  | .register t => ∀ spec info, s.tasks[t]? = some ⟨spec, info, .fetching⟩ →
      (s.registry.add (resolve spec info)).1 = .ok ()
  | _ => True

instance decidableAccepts : (a : ManagerStep) → Decidable (s.Accepts a)
  | .register t => decidable_of_iff (∀ task ∈ s.tasks[t]?, task.stage = .fetching →
      (s.registry.add (resolve task.spec task.info)).1 = .ok ())
      ⟨fun h _ _ hget => h _ hget rfl, fun h _ hget hstage => h _ _ (hstage ▸ hget)⟩
  | .loop | .subscribe _ _ | .returned _ | .advance _ _ _ | .select _ _ | .send _ | .pump _ _ =>
      isTrue trivial

/-- A worker that is entered into the registry does not take the place of one whose URL the index
knows and that no other worker has. -/
def KeepsUrls (s : WorkerManager) : ManagerStep → Prop
  | .register t => ∀ spec info w, s.tasks[t]? = some ⟨spec, info, .fetching⟩ →
      s.registry.byId spec.id = some w → w.url ≠ spec.url → s.Subscribed w.url →
        ∃ id w', id ≠ spec.id ∧ s.registry.byId id = some w' ∧ w'.url = w.url
  | _ => True

/-- A call of `remove_worker` does not drain the subscribers of a URL between the entry of the URL
and the start of its subscribers in a call of `add_worker` whose entry it has taken out. -/
def KeepsEntries (s : WorkerManager) : ManagerStep → Prop
  | .advance call _ _ => ∀ url ids, s.index.calls call = some (.remove url (.drain ids)) →
      ∀ call' cfg, s.index.calls call' = some (.add url cfg .subscribe) → s.index.workers url ≠ none
  | _ => True

/-- The registry takes an event, and the event is no worker that it rejects. -/
def Processes (r : WorkerRegistry) : DiscoveryEvent → Prop
  | .added spec => (r.add spec).1 = .ok ()
  | _ => True

instance decidableProcesses (r : WorkerRegistry) :
    (event : DiscoveryEvent) → Decidable (Processes r event)
  | .added spec => inferInstanceAs (Decidable ((r.add spec).1 = .ok ()))
  | .removed _ | .modeChanged _ _ => isTrue trivial

end WorkerManager

end SglangRs.Router
