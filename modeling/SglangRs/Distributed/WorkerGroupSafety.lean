import Mathlib.Data.List.Nodup
import Mathlib.Data.List.Perm.Subperm
import Mathlib.Data.List.Sort
import SglangRs.Distributed.WorkerGroup

/-!
# The protocol of a worker group

A call of a worker group expects as many events as it has sent commands, or as there are threads
when the group starts. Every thread sends exactly one event for its initialization and one for every
command that it reads, and the call takes them all. So nothing is left over for the next call.

A thread whose initializer has failed may still be sent the shutdown command: its receiver goes
after its event has been sent. It sends no event for it, and the call ends when the last thread has
dropped its sender.

## Main definitions

* `Starting`, `InCall`, `Untold`, `Told`: the thread of a rank while the group starts, during
  `execute_all`, and before and after it is told to stop.
* `Exchange`: events that answer a call, at most one of every rank.
* `WorkerGroup.Sound`: what holds in all runs.

## Main results

* `WorkerGroup.Exchange.callSound`: the outputs of a call without a failure.
* `WorkerGroup.Sound.step`: every step keeps the invariant.
-/

namespace SglangRs.TensorParallel

variable {Command Output : Type}

/-! ### The worker of a thread -/

namespace RankThread

variable {t t' : RankThread Command Output} {work : Work Output} {events : List (RankEvent Output)}

/-- A worker is shut down once, before the thread ends. -/
def WorkerSound (t : RankThread Command Output) : Prop :=
  match t.phase with
  | .initializing | .rejecting _ => t.initialized = false ∧ t.shutdowns = 0
  | .announcing | .receiving | .executing _ _ | .reporting _ _ | .stopping _ =>
      t.initialized = true ∧ t.shutdowns = 0
  | .confirming _ _ => t.initialized = true ∧ t.shutdowns = 1
  | .abandoning => False
  | .returning | .dropping | .exited => t.shutdowns = if t.initialized then 1 else 0

/-- What a step of a thread does while the group is there. -/
inductive Moves (t : RankThread Command Output) :
    RankThread Command Output → List (RankEvent Output) → Prop where
  | initializes (h : t.phase = .initializing) :
      t.Moves { t with phase := .announcing, initialized := true } []
  | initializeFails (message) (h : t.phase = .initializing) :
      t.Moves { t with phase := .rejecting message } []
  | reject (message) (h : t.phase = .rejecting message) :
      t.Moves { t with phase := .returning } [.startupFailed t.rank message]
  | announce (h : t.phase = .announcing) :
      t.Moves { t with phase := .receiving } [.ready t.rank]
  | receiveExecute (sequence command commands) (h : t.phase = .receiving)
      (hcommands : t.commands = .execute sequence command :: commands) :
      t.Moves { t with phase := .executing sequence command, commands } []
  | receiveShutdown (sequence commands) (h : t.phase = .receiving)
      (hcommands : t.commands = .shutdown sequence :: commands) :
      t.Moves { t with phase := .stopping sequence, commands } []
  | execute (sequence command result) (h : t.phase = .executing sequence command) :
      t.Moves { t with
        phase := .reporting sequence result
        executed := t.executed ++ [(command, result)] } []
  | report (sequence result) (h : t.phase = .reporting sequence result) :
      t.Moves { t with phase := .receiving } [.executed t.rank sequence result]
  | stop (sequence result) (h : t.phase = .stopping sequence) :
      t.Moves { t with phase := .confirming sequence result, shutdowns := t.shutdowns + 1 } []
  | confirm (sequence result) (h : t.phase = .confirming sequence result) :
      t.Moves { t with phase := .returning } [.stopped t.rank sequence result]
  | abandon (h : t.phase = .abandoning) :
      t.Moves { t with phase := .returning, shutdowns := t.shutdowns + 1 } []
  | dropEvents (h : t.phase = .returning) : t.Moves { t with phase := .dropping } []
  | dropCommands (h : t.phase = .dropping) : t.Moves { t with phase := .exited } []

theorem moves (h : t.step true work = some (t', events)) : t.Moves t' events := by
  obtain ⟨rank, phase, commands, executed, initialized, shutdowns⟩ := t
  cases phase <;> simp only [step, if_true] at h
  case initializing =>
    split at h <;> cases h
    exacts [.initializes rfl, .initializeFails _ rfl]
  case rejecting message => cases h; exact .reject message rfl
  case announcing => cases h; exact .announce rfl
  case receiving =>
    split at h <;> cases h
    exacts [.receiveExecute _ _ _ rfl rfl, .receiveShutdown _ _ rfl rfl]
  case executing sequence command => cases h; exact .execute sequence command _ rfl
  case reporting sequence result => cases h; exact .report sequence result rfl
  case stopping sequence => cases h; exact .stop sequence _ rfl
  case confirming sequence result => cases h; exact .confirm sequence result rfl
  case abandoning => cases h; exact .abandon rfl
  case returning => cases h; exact .dropEvents rfl
  case dropping => cases h; exact .dropCommands rfl
  case exited => cases h

theorem Moves.rank_eq (h : t.Moves t' events) : t'.rank = t.rank := by
  cases h <;> rfl

theorem Moves.executed_prefix (h : t.Moves t' events) : t.executed <+: t'.executed := by
  cases h with
  | execute => exact List.prefix_append _ _
  | _ => exact List.prefix_rfl

theorem Moves.workerSound (h : t.Moves t' events) (hsound : t.WorkerSound) : t'.WorkerSound := by
  obtain ⟨rank, phase, commands, executed, initialized, shutdowns⟩ := t
  cases h <;> rename_i hphase <;> cases hphase <;> simp_all [WorkerSound]

end RankThread

/-! ### Threads during the calls -/

/-- The rank has sent an event. -/
def Answers (answers : List (RankEvent Output)) (rank : TensorParallelRank) : Prop :=
  rank ∈ answers.map (·.rank)

theorem answers_append {answers events : List (RankEvent Output)} {rank : TensorParallelRank} :
    Answers (answers ++ events) rank ↔ Answers answers rank ∨ Answers events rank := by
  rw [Answers, List.map_append, List.mem_append]
  rfl

/-- The thread has returned from its function. -/
def RankThread.HasReturned (t : RankThread Command Output) : Prop :=
  match t.phase with
  | .returning | .dropping | .exited => True
  | _ => False

/-- While the group starts, a thread has not answered, or is ready, or has failed. -/
inductive Starting (answers : List (RankEvent Output)) (t : RankThread Command Output) : Prop where
  | pending
      (hphase : t.phase = .initializing ∨ t.phase = .announcing ∨
        ∃ message, t.phase = .rejecting message)
      (hcommands : t.commands = []) (hexecuted : t.executed = [])
      (hsilent : ¬Answers answers t.rank)
  | ready (hphase : t.phase = .receiving) (hcommands : t.commands = [])
      (hexecuted : t.executed = []) (hanswer : .ready t.rank ∈ answers)
  | failed (message) (hphase : t.HasReturned) (hanswer : .startupFailed t.rank message ∈ answers)

/-- During `execute_all` a thread has been asked to execute the command or not. It has executed the
commands of the earlier calls. -/
inductive InCall (earlier : List Command) (sequence : UInt64) (command : Command)
    (answers : List (RankEvent Output)) (t : RankThread Command Output) : Bool → Prop where
  | unasked (hphase : t.phase = .receiving) (hcommands : t.commands = [])
      (hexecuted : t.executed.map Prod.fst = earlier) (hsilent : ¬Answers answers t.rank) :
      InCall earlier sequence command answers t false
  | asked (hphase : t.phase = .receiving) (hcommands : t.commands = [.execute sequence command])
      (hexecuted : t.executed.map Prod.fst = earlier) (hsilent : ¬Answers answers t.rank) :
      InCall earlier sequence command answers t true
  | executing (hphase : t.phase = .executing sequence command) (hcommands : t.commands = [])
      (hexecuted : t.executed.map Prod.fst = earlier) (hsilent : ¬Answers answers t.rank) :
      InCall earlier sequence command answers t true
  | reporting (before result) (hphase : t.phase = .reporting sequence result)
      (hcommands : t.commands = []) (hexecuted : t.executed = before ++ [(command, result)])
      (hbefore : before.map Prod.fst = earlier) (hsilent : ¬Answers answers t.rank) :
      InCall earlier sequence command answers t true
  | answered (before result) (hphase : t.phase = .receiving)
      (hcommands : t.commands = []) (hexecuted : t.executed = before ++ [(command, result)])
      (hbefore : before.map Prod.fst = earlier)
      (hanswer : .executed t.rank sequence result ∈ answers) :
      InCall earlier sequence command answers t true

/-- A thread that has not been sent the shutdown command. -/
def Untold (t : RankThread Command Output) : Prop :=
  match t.phase with
  | .initializing | .announcing | .receiving | .rejecting _ => t.commands = []
  | .returning | .dropping | .exited => True
  | _ => False

/-- A thread that has been sent the shutdown command, or has ended already. -/
def Told (t : RankThread Command Output) : Prop :=
  match t.phase with
  | .initializing | .announcing | .receiving | .rejecting _ =>
      ∃ sequence, t.commands = [.shutdown sequence]
  | .stopping _ | .confirming _ _ | .returning | .dropping | .exited => True
  | _ => False

section Threads

variable {t t' : RankThread Command Output} {answers events : List (RankEvent Output)}

open RankThread

/-- An event of a step is the first answer of the rank. -/
def FirstAnswer (answers events : List (RankEvent Output)) (rank : TensorParallelRank) : Prop :=
  events = [] ∨ ∃ event, events = [event] ∧ event.rank = rank ∧ ¬Answers answers rank

theorem Starting.moves (h : Starting answers t) (hmove : t.Moves t' events) :
    Starting (answers ++ events) t' ∧ FirstAnswer answers events t.rank := by
  cases h with
  | pending hphase hcommands hexecuted hsilent =>
      cases hmove with
      | initializes => exact ⟨.pending (by simp) hcommands hexecuted (by simpa), .inl rfl⟩
      | initializeFails => exact ⟨.pending (by simp) hcommands hexecuted (by simpa), .inl rfl⟩
      | reject message => exact ⟨.failed message trivial (by simp), .inr ⟨_, rfl, rfl, hsilent⟩⟩
      | announce => exact ⟨.ready rfl hcommands hexecuted (by simp), .inr ⟨_, rfl, rfl, hsilent⟩⟩
      | _ => simp_all
  | ready hphase hcommands hexecuted hanswer => cases hmove <;> simp_all
  | failed message hphase hanswer =>
      cases hmove with
      | dropEvents => exact ⟨.failed message trivial (by simpa), .inl rfl⟩
      | dropCommands => exact ⟨.failed message trivial (by simpa), .inl rfl⟩
      | _ => simp_all [HasReturned]

theorem Starting.append (h : Starting answers t) (hevents : ¬Answers events t.rank) :
    Starting (answers ++ events) t := by
  cases h with
  | pending hphase hcommands hexecuted hsilent =>
      exact .pending hphase hcommands hexecuted (by simp [answers_append, hsilent, hevents])
  | ready hphase hcommands hexecuted hanswer =>
      exact .ready hphase hcommands hexecuted (List.mem_append_left _ hanswer)
  | failed message hphase hanswer => exact .failed message hphase (List.mem_append_left _ hanswer)

variable {earlier : List Command} {sequence : UInt64} {command : Command} {asked : Bool}

theorem InCall.moves (h : InCall earlier sequence command answers t asked)
    (hmove : t.Moves t' events) : InCall earlier sequence command (answers ++ events) t' asked ∧
      FirstAnswer answers events t.rank := by
  cases h with
  | unasked hphase hcommands hexecuted hsilent => cases hmove <;> simp_all
  | asked hphase hcommands hexecuted hsilent =>
      cases hmove with
      | receiveExecute sequence' command' commands _ hreceived =>
          obtain ⟨hhead, rfl⟩ := List.cons.inj (hcommands.symm.trans hreceived)
          obtain ⟨rfl, rfl⟩ := RankCommand.execute.inj hhead
          exact ⟨.executing rfl rfl hexecuted (by simpa), .inl rfl⟩
      | _ => simp_all
  | executing hphase hcommands hexecuted hsilent =>
      cases hmove with
      | execute sequence' command' result hexecuting =>
          obtain ⟨rfl, rfl⟩ := RankPhase.executing.inj (hphase.symm.trans hexecuting)
          exact ⟨.reporting _ result rfl hcommands rfl hexecuted (by simpa), .inl rfl⟩
      | _ => simp_all
  | reporting before result hphase hcommands hexecuted hbefore hsilent =>
      cases hmove with
      | report sequence' result' hreporting =>
          obtain ⟨rfl, rfl⟩ := RankPhase.reporting.inj (hphase.symm.trans hreporting)
          exact ⟨.answered before result rfl hcommands hexecuted hbefore (by simp),
            .inr ⟨_, rfl, rfl, hsilent⟩⟩
      | _ => simp_all
  | answered before result hphase hcommands hexecuted hbefore hanswer => cases hmove <;> simp_all

theorem InCall.append (h : InCall earlier sequence command answers t asked)
    (hevents : ¬Answers events t.rank) :
    InCall earlier sequence command (answers ++ events) t asked := by
  have hsilent (hno : ¬Answers answers t.rank) : ¬Answers (answers ++ events) t.rank := by
    simp [answers_append, hno, hevents]
  cases h with
  | unasked hphase hcommands hexecuted hno =>
      exact .unasked hphase hcommands hexecuted (hsilent hno)
  | asked hphase hcommands hexecuted hno => exact .asked hphase hcommands hexecuted (hsilent hno)
  | executing hphase hcommands hexecuted hno =>
      exact .executing hphase hcommands hexecuted (hsilent hno)
  | reporting before result hphase hcommands hexecuted hbefore hno =>
      exact .reporting before result hphase hcommands hexecuted hbefore (hsilent hno)
  | answered before result hphase hcommands hexecuted hbefore hanswer =>
      exact .answered before result hphase hcommands hexecuted hbefore
        (List.mem_append_left _ hanswer)

theorem Untold.moves (h : Untold t) (hmove : t.Moves t' events) : Untold t' := by
  obtain ⟨rank, phase, commands, executed, initialized, shutdowns⟩ := t
  cases hmove <;> rename_i hphase <;> cases hphase <;> simp_all [Untold]

theorem Told.moves (h : Told t) (hmove : t.Moves t' events) : Told t' := by
  obtain ⟨rank, phase, commands, executed, initialized, shutdowns⟩ := t
  cases hmove <;> rename_i hphase <;> cases hphase <;> simp_all [Told]

theorem Starting.untold (h : Starting answers t) : Untold t := by
  cases h with
  | pending hphase hcommands =>
      rcases hphase with h | h | ⟨message, h⟩ <;> simp [Untold, h, hcommands]
  | ready hphase hcommands => simp [Untold, hphase, hcommands]
  | failed message hphase =>
      obtain ⟨rank, phase, commands, executed, initialized, shutdowns⟩ := t
      cases phase <;> simp_all [Untold, HasReturned]

theorem Untold.push (h : Untold t) {sequence : UInt64} :
    Told ((t.push (.shutdown sequence)).getD t) := by
  obtain ⟨rank, phase, commands, executed, initialized, shutdowns⟩ := t
  cases phase <;> simp_all [Untold, Told, RankThread.push, HasExited]

/-- A thread that has been asked. -/
theorem InCall.push (h : InCall earlier sequence command answers t false) :
    ∃ t', t.push (.execute sequence command) = some t' ∧
      InCall earlier sequence command answers t' true := by
  cases h with
  | unasked hphase hcommands hexecuted hsilent =>
      refine ⟨{ t with commands := [.execute sequence command] }, ?_,
        .asked hphase rfl hexecuted hsilent⟩
      simp [RankThread.push, HasExited, hphase, hcommands]

end Threads

/-! ### The invariant -/

/-- The output of a rank. -/
def RankEvent.outputs : RankEvent Output → List (RankOutput Output)
  | .executed rank _ (.ok output) => [⟨rank, output⟩]
  | _ => []

/-- A rank has failed. -/
def RankEvent.IsFailure : RankEvent Output → Prop
  | .ready _ | .executed _ _ (.ok _) | .stopped _ _ (.ok _) => False
  | _ => True

namespace WorkerGroup

/-- The events of a call that have been received or are on their way: at most one of every rank. -/
structure Exchange (g : WorkerGroup Command Output) (received : List (RankEvent Output))
    (P : ℕ → List (RankEvent Output) → RankThread Command Output → Prop) : Prop where
  threads : ∀ i t, g.threads[i]? = some t → P i (received ++ g.events) t
  nodup : ((received ++ g.events).map (·.rank)).Nodup
  known : ∀ rank, Answers (received ++ g.events) rank → rank ∈ g.threads.map (·.rank)

/-- The threads keep a property when they take a step, and an answer is the first of its rank. -/
structure Closed (P : ℕ → List (RankEvent Output) → RankThread Command Output → Prop) : Prop where
  moves : ∀ i answers t t' events, P i answers t → t.Moves t' events →
    P i (answers ++ events) t' ∧ FirstAnswer answers events t.rank
  append : ∀ i answers events t, P i answers t → ¬Answers events t.rank →
    P i (answers ++ events) t

theorem closed_starting :
    Closed fun _ answers (t : RankThread Command Output) => Starting answers t where
  moves _ _ _ _ _ h hmove := h.moves hmove
  append _ _ _ _ h hevents := h.append hevents

theorem closed_inCall (earlier : List Command) (sequence : UInt64) (command : Command)
    (asked : ℕ → Bool) : Closed fun i answers (t : RankThread Command Output) =>
      InCall earlier sequence command answers t (asked i) where
  moves _ _ _ _ _ h hmove := h.moves hmove
  append _ _ _ _ h hevents := h.append hevents

/-- A property of all threads and their numbers. -/
def Each (threads : List (RankThread Command Output))
    (P : ℕ → RankThread Command Output → Prop) : Prop :=
  ∀ i t, threads[i]? = some t → P i t

/-- What holds of the threads and the events in each phase of a call. -/
def PhaseSound (g : WorkerGroup Command Output) : GroupPhase Command Output → Prop
  | .launching => g.calls = [] ∧ g.isShutdown = false ∧ Exchange g [] fun _ => Starting
  | .aborting _ next =>
      Each g.threads fun i t => if i < next then Told t else Untold t
  | .abortJoining _ next => Each g.threads fun i t => Told t ∧ (i < next → t.HasExited)
  | .starting left failures => g.calls = [] ∧ g.isShutdown = false ∧
      ∃ received, Exchange g received (fun _ => Starting) ∧
        left + received.length = g.threads.length ∧
          (failures = [] → ∀ event ∈ received, ¬event.IsFailure)
  | .idle =>
      if g.isShutdown then Each g.threads fun _ t => t.HasExited
      else g.events = [] ∧ Each g.threads fun _ t => t.phase = .receiving ∧ t.commands = [] ∧
        t.executed.map Prod.fst = g.calls.map Prod.fst
  | .executing sequence command next expected failures => g.isShutdown = false ∧
      next ≤ g.threads.length ∧ expected = next ∧ failures = [] ∧
        Exchange g [] fun i answers t =>
          InCall (g.calls.map Prod.fst) sequence command answers t (i < next)
  | .collecting sequence command left outputs failures => g.isShutdown = false ∧
      ∃ received, (Exchange g received fun _ answers t =>
          InCall (g.calls.map Prod.fst) sequence command answers t true) ∧
        left + received.length = g.threads.length ∧ outputs = received.flatMap (·.outputs) ∧
          (failures = [] → ∀ event ∈ received, ¬event.IsFailure)
  | .stopping _ _ next _ _ => g.isShutdown = true ∧
      Each g.threads fun i t => if i < next then Told t else Untold t
  | .draining _ _ _ _ => g.isShutdown = true ∧ Each g.threads fun _ t => Told t
  | .joining _ next _ => g.isShutdown = true ∧
      Each g.threads fun i t => Told t ∧ (i < next → t.HasExited)
  | .gone => Each g.threads fun _ t => t.HasExited

/-- All ranks of the node have a thread, after the launch. -/
def Spawned (g : WorkerGroup Command Output) : GroupPhase Command Output → Prop
  | .launching | .aborting _ _ | .abortJoining _ _ | .gone => True
  | _ => g.threads.map (·.rank) = g.topology.localRanks

/-- The result of the call with the given number: no event was unexpected, and the outputs are those
of the ranks, in order, each of the command of this call. -/
structure CallSound (topology : TensorParallelTopology) (threads : List (RankThread Command Output))
    (k : ℕ) (command : Command) (result : Except WorkerGroupError (List (RankOutput Output))) :
    Prop where
  expected : ∀ stage detail, result ≠ .error (.unexpectedEvent stage detail)
  ranks : ∀ outputs, result = .ok outputs → outputs.map (·.rank) = topology.localRanks
  executed : ∀ outputs, result = .ok outputs → Each threads fun i t =>
    ∀ o, outputs[i]? = some o → t.executed[k]? = some (command, .ok o.output)

/-- What holds of the threads and of the calls so far. -/
structure Settled (topology : TensorParallelTopology) (threads : List (RankThread Command Output))
    (calls : List (Command × Except WorkerGroupError (List (RankOutput Output)))) : Prop where
  ranks : threads.map (·.rank) <+: topology.localRanks
  workers : Each threads fun _ t => t.WorkerSound
  history : ∀ k command result, calls[k]? = some (command, result) →
    CallSound topology threads k command result

/-- What holds in all runs. -/
structure Sound (g : WorkerGroup Command Output) : Prop where
  settled : Settled g.topology g.threads g.calls
  spawned : g.Spawned g.phase
  phase : g.PhaseSound g.phase

/-! ### Steps of a thread -/

section Work

variable {g : WorkerGroup Command Output} {i : ℕ} {t t' : RankThread Command Output}
  {events : List (RankEvent Output)}

theorem nodup_localRanks (topology : TensorParallelTopology) : topology.localRanks.Nodup :=
  topology.sorted.imp fun hlt heq => absurd (congrArg (·.globalRank) heq) (Nat.ne_of_lt hlt)

theorem Settled.nodup {topology : TensorParallelTopology}
    {threads : List (RankThread Command Output)}
    {calls : List (Command × Except WorkerGroupError (List (RankOutput Output)))}
    (h : Settled topology threads calls) : (threads.map (·.rank)).Nodup :=
  (nodup_localRanks topology).sublist h.ranks.sublist

/-- The group after a step of a thread. -/
def afterWork (g : WorkerGroup Command Output) (i : ℕ) (t' : RankThread Command Output)
    (events : List (RankEvent Output)) : WorkerGroup Command Output :=
  { g with threads := g.threads.set i t', events := g.events ++ events }

section Set

variable {threads : List (RankThread Command Output)} {topology : TensorParallelTopology}
  {calls : List (Command × Except WorkerGroupError (List (RankOutput Output)))}

theorem map_rank_set (ht : threads[i]? = some t) (hrank : t'.rank = t.rank) :
    (threads.set i t').map (·.rank) = threads.map (·.rank) := by
  rw [List.map_set, hrank]
  refine List.ext_getElem? fun j => ?_
  rw [List.getElem?_set]
  split_ifs with hij hlt
  · rw [← hij, List.getElem?_map, ht]
    rfl
  · rw [List.getElem?_eq_none (by omega)]
  · rfl

theorem getElem?_set_eq {j : ℕ} {u : RankThread Command Output}
    (hu : (threads.set i t')[j]? = some u) : j = i ∧ u = t' ∨ j ≠ i ∧ threads[j]? = some u := by
  rw [List.getElem?_set] at hu
  split_ifs at hu with hij hlt
  · exact .inl ⟨hij.symm, (Option.some.inj hu).symm⟩
  · exact .inr ⟨Ne.symm hij, hu⟩

theorem rank_ne {j : ℕ} {u : RankThread Command Output}
    (hnodup : (threads.map (·.rank)).Nodup) (ht : threads[i]? = some t) (hu : threads[j]? = some u)
    (hij : j ≠ i) : u.rank ≠ t.rank := by
  intro heq
  have hi := (List.getElem?_eq_some_iff.mp ht).1
  refine hij ((List.getElem?_inj ?_ hnodup).mp ?_).symm
  · rwa [List.length_map]
  · rw [List.getElem?_map, List.getElem?_map, ht, hu, Option.map_some, Option.map_some, heq]

/-- One thread changes. -/
theorem Each.set {P : ℕ → RankThread Command Output → Prop} (h : Each threads P)
    (ht : threads[i]? = some t) (hnext : P i t → P i t') : Each (threads.set i t') P := by
  intro j u hu
  obtain ⟨rfl, rfl⟩ | ⟨-, hu⟩ := getElem?_set_eq hu
  · exact hnext (h _ t ht)
  · exact h j u hu

/-- One thread changes, and keeps what it has executed. -/
theorem Settled.set (h : Settled topology threads calls) (ht : threads[i]? = some t)
    (hrank : t'.rank = t.rank) (hworker : t.WorkerSound → t'.WorkerSound)
    (hexecuted : t.executed <+: t'.executed) : Settled topology (threads.set i t') calls where
  ranks := map_rank_set ht hrank ▸ h.ranks
  workers := h.workers.set ht hworker
  history k command result hk := by
    have hcall := h.history k command result hk
    refine ⟨hcall.expected, hcall.ranks, fun outputs hok => ?_⟩
    refine (hcall.executed outputs hok).set ht fun hdone o ho => ?_
    obtain ⟨more, hmore⟩ := hexecuted
    rw [← hmore, List.getElem?_append_left (List.getElem?_eq_some_iff.mp (hdone o ho)).1,
      hdone o ho]

end Set

theorem Exchange.work {received : List (RankEvent Output)}
    {P : ℕ → List (RankEvent Output) → RankThread Command Output → Prop}
    (h : Exchange g received P) (hP : Closed P) (hnodup : (g.threads.map (·.rank)).Nodup)
    (ht : g.threads[i]? = some t) (hmove : t.Moves t' events) :
    Exchange (g.afterWork i t' events) received P := by
  obtain ⟨hnext, hfirst⟩ := hP.moves i _ t t' events (h.threads i t ht) hmove
  constructor
  · intro j u hu
    rw [afterWork, ← List.append_assoc]
    obtain ⟨rfl, rfl⟩ | ⟨hij, hu⟩ := getElem?_set_eq hu
    · exact hnext
    · refine hP.append j _ events u (h.threads j u hu) ?_
      have hne := rank_ne hnodup ht hu hij
      obtain rfl | ⟨event, rfl, hrank, -⟩ := hfirst
      · exact List.not_mem_nil
      · simpa [Answers, hrank] using hne
  · rw [afterWork, ← List.append_assoc]
    obtain rfl | ⟨event, rfl, hrank, hnew⟩ := hfirst
    · rw [List.append_nil]
      exact h.nodup
    · rw [List.map_append, List.map_singleton, hrank, ← List.concat_eq_append]
      exact h.nodup.concat hnew
  · intro rank hrank
    rw [afterWork, ← List.append_assoc, answers_append] at hrank
    rw [afterWork, map_rank_set ht hmove.rank_eq]
    rcases hrank with hold | hnew
    · exact h.known rank hold
    · obtain rfl | ⟨event, rfl, hevent, -⟩ := hfirst
      · exact absurd hnew List.not_mem_nil
      · obtain rfl : rank = t.rank := by simpa [Answers, hevent] using hnew
        exact List.mem_map_of_mem (List.mem_of_getElem? ht)

theorem not_moves_of_hasExited (h : t.HasExited) (hmove : t.Moves t' events) : False := by
  cases hmove <;> simp_all [RankThread.HasExited]

theorem not_moves_of_receiving (hphase : t.phase = .receiving) (hcommands : t.commands = [])
    (hmove : t.Moves t' events) : False := by
  cases hmove <;> simp_all

/-- The phase of the call stays the same while a thread takes a step. -/
theorem PhaseSound.work {phase : GroupPhase Command Output} (h : g.PhaseSound phase)
    (hnodup : (g.threads.map (·.rank)).Nodup) (ht : g.threads[i]? = some t)
    (hmove : t.Moves t' events) : (g.afterWork i t' events).PhaseSound phase := by
  have hlength : (g.afterWork i t' events).threads.length = g.threads.length := List.length_set
  cases phase with
  | launching => exact ⟨h.1, h.2.1, h.2.2.work closed_starting hnodup ht hmove⟩
  | aborting error next =>
      refine Each.set h ht fun htold => ?_
      split_ifs at htold ⊢
      exacts [htold.moves hmove, htold.moves hmove]
  | abortJoining error next =>
      exact Each.set h ht fun htold =>
        ⟨htold.1.moves hmove, fun hlt => (not_moves_of_hasExited (htold.2 hlt) hmove).elim⟩
  | starting left failures =>
      obtain ⟨hcalls, hopen, received, hexchange, hleft, hfailures⟩ := h
      exact ⟨hcalls, hopen, received, hexchange.work closed_starting hnodup ht hmove,
        hlength ▸ hleft, hfailures⟩
  | idle =>
      simp only [PhaseSound] at h
      split_ifs at h with hshutdown
      · exact (not_moves_of_hasExited (h i t ht) hmove).elim
      · obtain ⟨hphase, hcommands, -⟩ := h.2 i t ht
        exact (not_moves_of_receiving hphase hcommands hmove).elim
  | executing sequence command next expected failures =>
      obtain ⟨hopen, hle, hexpected, hfailures, hexchange⟩ := h
      exact ⟨hopen, hlength ▸ hle, hexpected, hfailures,
        hexchange.work (closed_inCall _ _ _ _) hnodup ht hmove⟩
  | collecting sequence command left outputs failures =>
      obtain ⟨hopen, received, hexchange, hleft, houtputs, hfailures⟩ := h
      exact ⟨hopen, received, hexchange.work (closed_inCall _ _ _ fun _ => true) hnodup ht hmove,
        hlength ▸ hleft, houtputs, hfailures⟩
  | stopping purpose sequence next expected failures =>
      refine ⟨h.1, h.2.set ht fun htold => ?_⟩
      split_ifs at htold ⊢
      exacts [htold.moves hmove, htold.moves hmove]
  | draining purpose sequence left failures =>
      exact ⟨h.1, h.2.set ht fun htold => htold.moves hmove⟩
  | joining purpose next failures =>
      exact ⟨h.1, h.2.set ht fun htold =>
        ⟨htold.1.moves hmove, fun hlt => (not_moves_of_hasExited (htold.2 hlt) hmove).elim⟩⟩
  | gone => exact Each.set h ht fun hexited => (not_moves_of_hasExited hexited hmove).elim

theorem Sound.work (h : g.Sound) (ht : g.threads[i]? = some t) (hmove : t.Moves t' events) :
    (g.afterWork i t' events).Sound where
  settled := h.settled.set ht hmove.rank_eq hmove.workerSound hmove.executed_prefix
  spawned := by
    have hspawned := h.spawned
    change (g.afterWork i t' events).Spawned g.phase
    cases hphase : g.phase <;> rw [hphase] at hspawned <;> try trivial
    all_goals exact (map_rank_set ht hmove.rank_eq).trans hspawned
  phase := h.phase.work h.settled.nodup ht hmove

end Work

/-! ### The end of an exchange -/

section Exchange

variable {g : WorkerGroup Command Output} {received events : List (RankEvent Output)}
  {event : RankEvent Output} {P : ℕ → List (RankEvent Output) → RankThread Command Output → Prop}

/-- The call receives the next event. -/
theorem Exchange.receive (h : Exchange g received P) (hevents : g.events = event :: events)
    {phase : GroupPhase Command Output} :
    Exchange { g with events, phase } (received ++ [event]) P := by
  have heq : received ++ [event] ++ events = received ++ g.events := by simp [hevents]
  exact ⟨fun i t ht => heq ▸ h.threads i t ht, heq ▸ h.nodup, fun rank hrank =>
    h.known rank (heq ▸ hrank)⟩

/-- When as many events have been received as there are threads, all ranks have answered and no
event is left. -/
theorem Exchange.complete (h : Exchange g received P)
    (hlength : received.length = g.threads.length) :
    g.events = [] ∧ (received.map (·.rank)).Perm (g.threads.map (·.rank)) := by
  have hsub : (received ++ g.events).map (·.rank) ⊆ g.threads.map (·.rank) :=
    fun rank hrank => h.known rank hrank
  have hnil : g.events = [] := by
    have hle := (h.nodup.subperm hsub).length_le
    rw [List.length_map, List.length_map, List.length_append] at hle
    exact List.length_eq_zero_iff.mp (by omega)
  have hnodup := h.nodup
  rw [hnil, List.append_nil] at hsub hnodup
  refine ⟨hnil, (hnodup.subperm hsub).perm_of_length_le ?_⟩
  rw [List.length_map, List.length_map, hlength]

/-- Two events of one rank are the same. -/
theorem Exchange.event_eq (h : Exchange g received P) {event' : RankEvent Output}
    (hevent : event ∈ received ++ g.events) (hevent' : event' ∈ received ++ g.events)
    (hrank : event.rank = event'.rank) : event = event' :=
  List.inj_on_of_nodup_map h.nodup hevent hevent' hrank

variable {earlier : List Command} {sequence : UInt64} {command : Command}

/-- An event of a call is the answer of an asked thread. -/
theorem Exchange.executed (h : Exchange g received fun _ answers t =>
      InCall earlier sequence command answers t true)
    (hevent : event ∈ received ++ g.events) :
    ∃ (i : ℕ) (t : RankThread Command Output) (before : List (Command × Except String Output))
      (result : Except String Output), g.threads[i]? = some t ∧
      t.executed = before ++ [(command, result)] ∧ before.map Prod.fst = earlier ∧
        event = .executed t.rank sequence result := by
  have hanswers : Answers (received ++ g.events) event.rank := List.mem_map_of_mem hevent
  obtain ⟨t, hmem, hrank⟩ := List.mem_map.mp (h.known event.rank hanswers)
  obtain ⟨i, ht⟩ := List.mem_iff_getElem?.mp hmem
  rw [← hrank] at hanswers
  cases h.threads i t ht with
  | asked _ _ _ hsilent => exact absurd hanswers hsilent
  | executing _ _ _ hsilent => exact absurd hanswers hsilent
  | reporting _ _ _ _ _ _ hsilent => exact absurd hanswers hsilent
  | answered before result hphase hcommands hexecuted hbefore hanswer =>
      exact ⟨i, t, before, result, ht, hexecuted, hbefore, h.event_eq hevent hanswer hrank.symm⟩

/-- A thread of a complete exchange has executed the command. -/
theorem Exchange.answered (h : Exchange g received fun _ answers t =>
      InCall earlier sequence command answers t true)
    (hlength : received.length = g.threads.length) {i : ℕ} {t : RankThread Command Output}
    (ht : g.threads[i]? = some t) : t.phase = .receiving ∧ t.commands = [] ∧
      ∃ before result, t.executed = before ++ [(command, result)] ∧
        before.map Prod.fst = earlier ∧ .executed t.rank sequence result ∈ received := by
  obtain ⟨hnil, hperm⟩ := h.complete hlength
  have hanswers : Answers (received ++ g.events) t.rank := by
    rw [hnil, List.append_nil]
    exact hperm.mem_iff.mpr (List.mem_map_of_mem (List.mem_of_getElem? ht))
  cases h.threads i t ht with
  | asked _ _ _ hsilent => exact absurd hanswers hsilent
  | executing _ _ _ hsilent => exact absurd hanswers hsilent
  | reporting _ _ _ _ _ _ hsilent => exact absurd hanswers hsilent
  | answered before result hphase hcommands hexecuted hbefore hanswer =>
      rw [hnil, List.append_nil] at hanswer
      exact ⟨hphase, hcommands, before, result, hexecuted, hbefore, hanswer⟩

/-- The ranks of the outputs are those of the events, if none is a failure. -/
theorem map_rank_outputs (h : ∀ event ∈ received, ¬event.IsFailure)
    (hexecuted : ∀ event ∈ received, ∃ rank sequence result,
      event = RankEvent.executed rank sequence result) :
    (received.flatMap (·.outputs)).map (·.rank) = received.map (·.rank) := by
  induction received with
  | nil => rfl
  | cons event received ih =>
      obtain ⟨hok, hrest⟩ := List.forall_mem_cons.mp h
      obtain ⟨⟨rank, sequence, result, rfl⟩, hmore⟩ := List.forall_mem_cons.mp hexecuted
      cases result with
      | error message => exact absurd trivial hok
      | ok output =>
          rw [List.flatMap_cons, List.map_append, ih hrest hmore]
          rfl

/-- Sorted outputs of all ranks are in the order of the ranks. -/
theorem map_rank_sortOutputs {topology : TensorParallelTopology}
    {outputs : List (RankOutput Output)} (h : (outputs.map (·.rank)).Perm topology.localRanks) :
    (sortOutputs outputs).map (·.rank) = topology.localRanks := by
  refine @List.Perm.eq_of_pairwise _ (fun r r' => r.globalRank ≤ r'.globalRank) _ _
    (fun r r' hr hr' hle hle' => ?_) ?_ (topology.sorted.imp fun hlt => Nat.le_of_lt hlt)
    (((List.mergeSort_perm _ _).map _).trans h)
  · -- two ranks of the node with one number are the same
    have hmem : r ∈ topology.localRanks :=
      h.mem_iff.mp (((List.mergeSort_perm _ _).map _).mem_iff.mp hr)
    have hnodup : (topology.localRanks.map (·.globalRank)).Nodup :=
      List.pairwise_map.mpr (topology.sorted.imp Nat.ne_of_lt)
    exact List.inj_on_of_nodup_map hnodup hmem hr' (Nat.le_antisymm hle hle')
  · rw [List.pairwise_map]
    have hsorted := @List.pairwise_mergeSort (RankOutput Output)
      (fun o o' => decide (o.rank.globalRank ≤ o'.rank.globalRank))
      (fun _ _ _ => by simpa using Nat.le_trans) (fun _ _ => by simpa using Nat.le_total _ _)
      outputs
    exact hsorted.imp fun hle => by simpa using hle

end Exchange

/-! ### Steps of a shutdown -/

section Shutdown

variable {g g' : WorkerGroup Command Output} {purpose : Purpose} {failures : List RankFailure}

theorem send_cases (i : ℕ) (t : RankThread Command Output) (command : RankCommand Command) :
    t.HasExited ∧ g.send i t command = (g.threads, false) ∨
    t.HasExited = false ∧ g.send i t command =
      (g.threads.set i { t with commands := t.commands ++ [command] }, true) := by
  rw [send, RankThread.push]
  cases t.HasExited with
  | true => exact .inl ⟨rfl, rfl⟩
  | false => exact .inr ⟨rfl, rfl⟩

theorem Settled.send (h : Settled g.topology g.threads g.calls) {i : ℕ}
    {t : RankThread Command Output} (ht : g.threads[i]? = some t) (command : RankCommand Command) :
    Settled g.topology (g.send i t command).1 g.calls := by
  obtain ⟨-, heq⟩ | ⟨-, heq⟩ := g.send_cases i t command <;> rw [heq]
  · exact h
  · exact h.set ht rfl id List.prefix_rfl

theorem map_rank_send {i : ℕ} {t : RankThread Command Output} (ht : g.threads[i]? = some t)
    (command : RankCommand Command) :
    (g.send i t command).1.map (·.rank) = g.threads.map (·.rank) := by
  obtain ⟨-, heq⟩ | ⟨-, heq⟩ := g.send_cases i t command <;> rw [heq]
  exact map_rank_set ht rfl

/-- One more thread is told to stop. -/
theorem told_send {next : ℕ} {t : RankThread Command Output} (ht : g.threads[next]? = some t)
    (h : Each g.threads fun i t => if i < next then Told t else Untold t) (sequence : UInt64) :
    Each (g.send next t (.shutdown sequence)).1
      fun i t => if i < next + 1 then Told t else Untold t := by
  have huntold : Untold t := by simpa using h next t ht
  have htold : Told ((t.push (.shutdown sequence)).getD t) := huntold.push
  intro i u hu
  have hother (hne : i ≠ next) (hu : g.threads[i]? = some u) :
      if i < next + 1 then Told u else Untold u := by
    have hold : if i < next then Told u else Untold u := h i u hu
    split_ifs at hold ⊢ <;> first | exact hold | omega
  obtain ⟨hexited, heq⟩ | ⟨hexited, heq⟩ := g.send_cases next t (.shutdown sequence)
  · rw [heq] at hu
    by_cases hne : i = next
    · subst hne
      obtain rfl := Option.some.inj (ht.symm.trans hu)
      simpa [RankThread.push, hexited] using htold
    · exact hother hne hu
  · rw [heq] at hu
    obtain ⟨rfl, rfl⟩ | ⟨hne, hu⟩ := getElem?_set_eq hu
    · simpa [RankThread.push, hexited] using htold
    · exact hother hne hu

/-- All threads have been told to stop. -/
theorem told_of_none {threads : List (RankThread Command Output)} {next : ℕ}
    (hnone : threads[next]? = none)
    (h : Each threads fun i t => if i < next then Told t else Untold t) :
    Each threads fun _ t => Told t := by
  intro i t ht
  have hlt : i < next :=
    (List.getElem?_eq_some_iff.mp ht).1.trans_le (List.getElem?_eq_none_iff.mp hnone)
  simpa [hlt] using h i t ht

theorem exited_of_none {threads : List (RankThread Command Output)} {next : ℕ}
    (hnone : threads[next]? = none)
    (h : Each threads fun i t => Told t ∧ (i < next → t.HasExited)) :
    Each threads fun _ t => t.HasExited := by
  intro i t ht
  exact (h i t ht).2 <|
    (List.getElem?_eq_some_iff.mp ht).1.trans_le (List.getElem?_eq_none_iff.mp hnone)

/-- The call waits for one more thread. -/
theorem exited_succ {next : ℕ} {t : RankThread Command Output} (ht : g.threads[next]? = some t)
    (hexited : t.HasExited)
    (h : Each g.threads fun i t => Told t ∧ (i < next → t.HasExited)) :
    Each g.threads fun i t => Told t ∧ (i < next + 1 → t.HasExited) := by
  intro i u hu
  refine ⟨(h i u hu).1, fun hlt => ?_⟩
  rcases Nat.lt_succ_iff_lt_or_eq.mp hlt with hlt | rfl
  · exact (h i u hu).2 hlt
  · obtain rfl := Option.some.inj (ht.symm.trans hu)
    exact hexited

theorem Sound.finishShutdown (h : Settled g.topology g.threads g.calls)
    (hshutdown : g.isShutdown = true) (hspawned : g.threads.map (·.rank) = g.topology.localRanks)
    (hexited : Each g.threads fun _ t => t.HasExited) :
    (g.finishShutdown purpose failures).Sound := by
  cases purpose with
  | launch error => exact ⟨h, trivial, hexited⟩
  | drop => exact ⟨h, trivial, hexited⟩
  | shutdown =>
      refine ⟨h, hspawned, ?_⟩
      change if g.isShutdown then _ else _
      rw [if_pos hshutdown]
      exact hexited

/-- A shutdown begins when no thread has been told to stop. -/
theorem Sound.beginShutdown (h : Settled g.topology g.threads g.calls)
    (hspawned : g.threads.map (·.rank) = g.topology.localRanks)
    (hthreads : if g.isShutdown then Each g.threads fun _ t => t.HasExited
      else Each g.threads fun _ t => Untold t) : (g.beginShutdown purpose).Sound := by
  rw [WorkerGroup.beginShutdown]
  split_ifs with hshutdown
  · rw [if_pos hshutdown] at hthreads
    exact Sound.finishShutdown h hshutdown hspawned hthreads
  · rw [if_neg hshutdown] at hthreads
    exact ⟨h, hspawned, rfl, fun i t ht => by simpa using hthreads i t ht⟩

end Shutdown

/-! ### Steps of the launch -/

section Launch

variable {g g' : WorkerGroup Command Output}

theorem Sound.init (topology : TensorParallelTopology) :
    Sound ({ topology } : WorkerGroup Command Output) where
  settled := ⟨List.nil_prefix, fun _ _ h => by simp at h, fun _ _ _ h => by simp at h⟩
  spawned := trivial
  phase := ⟨rfl, rfl, fun _ _ h => by simp at h, List.nodup_nil,
    fun _ h => absurd h List.not_mem_nil⟩

theorem Each.append {threads : List (RankThread Command Output)} {t : RankThread Command Output}
    {P : ℕ → RankThread Command Output → Prop} (h : Each threads P) (ht : P threads.length t) :
    Each (threads ++ [t]) P := by
  intro i u hu
  rcases lt_or_ge i threads.length with hlt | hge
  · rw [List.getElem?_append_left hlt] at hu
    exact h i u hu
  · rw [List.getElem?_append_right hge, List.getElem?_singleton] at hu
    split_ifs at hu with hi
    obtain rfl := Option.some.inj hu
    obtain rfl : i = threads.length := by omega
    exact ht

theorem nextRank?_eq_some {rank : TensorParallelRank} (h : g.nextRank? = some rank) :
    g.phase = .launching ∧ g.topology.localRanks[g.threads.length]? = some rank := by
  rw [nextRank?] at h
  split at h
  · exact ⟨‹_›, h⟩
  · cases h

theorem Sound.spawn (h : g.Sound) {rank : TensorParallelRank} (hrank : g.nextRank? = some rank) :
    Sound { g with threads := g.threads ++ [({ rank } : RankThread Command Output)] } := by
  obtain ⟨hphase, hnext⟩ := nextRank?_eq_some hrank
  have hsound := h.phase
  rw [hphase] at hsound
  obtain ⟨hcalls, hopen, hexchange⟩ := hsound
  -- the ranks of the threads are the first ones of the node
  have hranks : (g.threads ++ [({ rank } : RankThread Command Output)]).map (·.rank) <+:
      g.topology.localRanks := by
    obtain ⟨more, hmore⟩ := h.settled.ranks
    rw [← hmore, List.getElem?_append_right (by simp), List.length_map, Nat.sub_self] at hnext
    cases more with
    | nil => cases hnext
    | cons first more =>
        obtain rfl : first = rank := by simpa using hnext
        exact ⟨more, by rw [← hmore]; simp⟩
  have hnew : rank ∉ g.threads.map (·.rank) := by
    have hnodup := (nodup_localRanks g.topology).sublist hranks.sublist
    rw [List.map_append, List.nodup_append'] at hnodup
    exact fun hmem => hnodup.2.2 hmem (by simp)
  refine ⟨⟨hranks, h.settled.workers.append ⟨rfl, rfl⟩, fun k command result hk => ?_⟩, ?_, ?_⟩
  · rw [hcalls] at hk
    simp at hk
  · change Spawned _ g.phase
    rw [hphase]
    trivial
  · change PhaseSound _ g.phase
    rw [hphase]
    refine ⟨hcalls, hopen, ?_, hexchange.nodup, fun rank' hrank' => ?_⟩
    · exact Each.append hexchange.threads (.pending (.inl rfl) rfl rfl fun hanswers =>
        hnew (hexchange.known rank hanswers))
    · rw [List.map_append]
      exact List.mem_append_left _ (hexchange.known rank' hrank')

theorem Sound.spawnFails (h : g.Sound) {rank : TensorParallelRank}
    (hrank : g.nextRank? = some rank) (message : String) :
    Sound { g with phase := .aborting (.threadSpawn rank message) 0 } := by
  have hsound := h.phase
  rw [(nextRank?_eq_some hrank).1] at hsound
  refine ⟨h.settled, trivial, fun i t ht => ?_⟩
  simpa using (hsound.2.2.threads i t ht).untold

/-- The end of the startup: all ranks are ready, or the group is shut down. -/
theorem Sound.started (h : g.Sound) {failures : List RankFailure}
    (hphase : g.phase = .starting 0 failures) (hstep : g.advance = some g') : g'.Sound := by
  have hsound := h.phase
  have hspawned := h.spawned
  rw [hphase] at hsound hspawned
  obtain ⟨hcalls, hopen, received, hexchange, hlength, hfailures⟩ := hsound
  rw [Nat.zero_add] at hlength
  obtain ⟨hnil, hperm⟩ := hexchange.complete hlength
  simp only [advance, hphase] at hstep
  split_ifs at hstep with hnone
  · obtain rfl := Option.some.inj hstep
    refine ⟨h.settled, hspawned, ?_⟩
    change if g.isShutdown then _ else _
    rw [hopen, if_neg (by simp)]
    refine ⟨hnil, fun i t ht => ?_⟩
    have hanswers : Answers (received ++ g.events) t.rank := by
      rw [hnil, List.append_nil]
      exact hperm.mem_iff.mpr (List.mem_map_of_mem (List.mem_of_getElem? ht))
    cases hexchange.threads i t ht with
    | pending _ _ _ hsilent => exact absurd hanswers hsilent
    | ready hreceiving hcommands hexecuted =>
        exact ⟨hreceiving, hcommands, by rw [hexecuted, hcalls]; rfl⟩
    | failed message _ hanswer =>
        rw [hnil, List.append_nil] at hanswer
        exact absurd trivial (hfailures hnone _ hanswer)
  · obtain rfl := Option.some.inj hstep
    refine Sound.beginShutdown h.settled hspawned ?_
    rw [hopen, if_neg (by simp)]
    exact fun i t ht => (hexchange.threads i t ht).untold

/-- One event of the startup. -/
theorem Sound.starting (h : g.Sound) {left : ℕ} {failures : List RankFailure}
    (hphase : g.phase = .starting (left + 1) failures) (hstep : g.advance = some g') :
    g'.Sound := by
  have hsound := h.phase
  have hspawned := h.spawned
  rw [hphase] at hsound hspawned
  obtain ⟨hcalls, hopen, received, hexchange, hlength, hfailures⟩ := hsound
  -- the call goes on with one more event
  have hnext {event : RankEvent Output} {events failures'} (hevents : g.events = event :: events)
      (hfailures' : failures' = [] → failures = [] ∧ ¬event.IsFailure) :
      Sound { g with events, phase := .starting left failures' } := by
    refine ⟨h.settled, hspawned, hcalls, hopen, received ++ [event], hexchange.receive hevents, ?_,
      fun hnone => ?_⟩
    · rw [List.length_append, List.length_singleton, ← hlength]
      omega
    · obtain ⟨hnone, hok⟩ := hfailures' hnone
      exact List.forall_mem_append.mpr
        ⟨hfailures hnone, List.forall_mem_singleton.mpr hok⟩
  simp only [advance, hphase] at hstep
  split at hstep
  · rename_i hevents
    obtain rfl := Option.some.inj hstep
    exact hnext hevents fun hnone => ⟨hnone, id⟩
  · rename_i hevents
    obtain rfl := Option.some.inj hstep
    exact hnext hevents fun hnone => by simp at hnone
  · rename_i hevents
    obtain rfl := Option.some.inj hstep
    exact hnext hevents fun hnone => by simp at hnone
  · split_ifs at hstep
    obtain rfl := Option.some.inj hstep
    refine Sound.beginShutdown h.settled hspawned ?_
    rw [hopen, if_neg (by simp)]
    exact fun i t ht => (hexchange.threads i t ht).untold

end Launch

/-! ### Steps of `execute_all` -/

section Execute

variable {g g' : WorkerGroup Command Output} {sequence : UInt64} {command : Command}

/-- The next thread is asked to execute the command. -/
theorem Exchange.ask {next : ℕ} {t t' : RankThread Command Output}
    {phase : GroupPhase Command Output} (h : Exchange g [] fun i answers t =>
      InCall (g.calls.map Prod.fst) sequence command answers t (i < next))
    (ht : g.threads[next]? = some t)
    (hasked : InCall (g.calls.map Prod.fst) sequence command g.events t' true)
    (hrank : t'.rank = t.rank) :
    Exchange { g with threads := g.threads.set next t', phase } [] fun i answers t =>
      InCall (g.calls.map Prod.fst) sequence command answers t (i < next + 1) := by
  refine ⟨fun i u hu => ?_, h.nodup, fun rank hanswers => ?_⟩
  · obtain ⟨rfl, rfl⟩ | ⟨hne, hu⟩ := getElem?_set_eq hu
    · simpa using hasked
    · have hold := h.threads i u hu
      have hiff : i < next ↔ i < next + 1 := by omega
      simpa only [hiff] using hold
  · exact (map_rank_set ht hrank).symm ▸ h.known rank hanswers

theorem Sound.executing (h : g.Sound) {next expected : ℕ} {failures : List RankFailure}
    (hphase : g.phase = .executing sequence command next expected failures)
    (hstep : g.advance = some g') : g'.Sound := by
  have hsound := h.phase
  have hspawned := h.spawned
  rw [hphase] at hsound hspawned
  obtain ⟨hopen, hle, rfl, rfl, hexchange⟩ := hsound
  simp only [advance, hphase] at hstep
  split at hstep
  · rename_i t ht
    have hunasked : InCall (g.calls.map Prod.fst) sequence command ([] ++ g.events) t false := by
      simpa using hexchange.threads _ t ht
    obtain ⟨t', hpush, hasked⟩ := hunasked.push
    obtain ⟨hexited, heq⟩ | ⟨hexited, heq⟩ := g.send_cases expected t (.execute sequence command)
    · simp [RankThread.push, hexited] at hpush
    · have ht' : t' = { t with commands := t.commands ++ [.execute sequence command] } := by
        simpa [RankThread.push, hexited] using hpush.symm
      have hsettled := h.settled.send ht (.execute sequence command)
      have hranks := map_rank_send ht (.execute sequence command)
      rw [heq] at hstep hsettled hranks
      obtain rfl := Option.some.inj hstep
      refine ⟨hsettled, hranks.trans hspawned, hopen, ?_, rfl, rfl, ?_⟩
      · rw [List.length_set]
        exact (List.getElem?_eq_some_iff.mp ht).1
      · exact hexchange.ask ht (ht' ▸ hasked) rfl
  · rename_i hnone
    obtain rfl := Option.some.inj hstep
    have hall : expected = g.threads.length :=
      Nat.le_antisymm hle (List.getElem?_eq_none_iff.mp hnone)
    refine ⟨h.settled, hspawned, hopen, [], ⟨fun i t ht => ?_, hexchange.nodup, hexchange.known⟩,
      hall, rfl, fun _ => List.forall_mem_nil _⟩
    have hlt : i < expected := hall ▸ (List.getElem?_eq_some_iff.mp ht).1
    simpa [hlt] using hexchange.threads i t ht

/-- A call is recorded with its result. -/
theorem Settled.record {topology : TensorParallelTopology}
    {threads : List (RankThread Command Output)}
    {calls : List (Command × Except WorkerGroupError (List (RankOutput Output)))}
    (h : Settled topology threads calls)
    {result : Except WorkerGroupError (List (RankOutput Output))}
    (hresult : CallSound topology threads calls.length command result) :
    Settled topology threads (calls ++ [(command, result)]) := by
  refine ⟨h.ranks, h.workers, fun k command' result' hk => ?_⟩
  rcases lt_or_ge k calls.length with hlt | hge
  · rw [List.getElem?_append_left hlt] at hk
    exact h.history k command' result' hk
  · rw [List.getElem?_append_right hge, List.getElem?_singleton] at hk
    split_ifs at hk
    obtain ⟨rfl, rfl⟩ := Prod.mk.inj (Option.some.inj hk)
    obtain rfl : k = calls.length := by omega
    exact hresult

/-- A call whose events have all been received ends. -/
theorem Sound.finishExecute (h : g.Sound) {received : List (RankEvent Output)}
    (hspawned : g.threads.map (·.rank) = g.topology.localRanks) (hopen : g.isShutdown = false)
    (hexchange : Exchange g received fun _ answers t =>
      InCall (g.calls.map Prod.fst) sequence command answers t true)
    (hlength : received.length = g.threads.length)
    {result : Except WorkerGroupError (List (RankOutput Output))}
    (hresult : CallSound g.topology g.threads g.calls.length command result) :
    (g.finishExecute command result).Sound := by
  refine ⟨h.settled.record hresult, hspawned, ?_⟩
  change if g.isShutdown then _ else _
  rw [hopen, if_neg (by simp)]
  refine ⟨(hexchange.complete hlength).1, fun i t ht => ?_⟩
  obtain ⟨hphase, hcommands, before, result', hexecuted, hbefore, -⟩ :=
    hexchange.answered hlength ht
  refine ⟨hphase, hcommands, ?_⟩
  change _ = (g.calls ++ [(command, result)]).map Prod.fst
  rw [hexecuted, List.map_append, List.map_append, hbefore]
  rfl

/-- Outputs without a failure are those of all ranks. -/
theorem Exchange.callSound (hspawned : g.threads.map (·.rank) = g.topology.localRanks)
    {received : List (RankEvent Output)}
    (hexchange : Exchange g received fun _ answers t =>
      InCall (g.calls.map Prod.fst) sequence command answers t true)
    (hlength : received.length = g.threads.length)
    (hok : ∀ event ∈ received, ¬event.IsFailure) :
    CallSound g.topology g.threads g.calls.length command
      (.ok (sortOutputs (received.flatMap (·.outputs)))) := by
  have hexecuted (event : RankEvent Output) (hevent : event ∈ received) :=
    hexchange.executed (List.mem_append_left g.events hevent)
  have hranks : (sortOutputs (received.flatMap (·.outputs))).map (·.rank) =
      g.topology.localRanks := by
    refine map_rank_sortOutputs ?_
    rw [map_rank_outputs hok fun event hevent => ?_, ← hspawned]
    · exact (hexchange.complete hlength).2
    · obtain ⟨i, t, before, result, -, -, -, rfl⟩ := hexecuted event hevent
      exact ⟨_, _, _, rfl⟩
  refine ⟨nofun, ?_, ?_⟩
  · rintro _ ⟨⟩
    exact hranks
  · rintro _ ⟨⟩ i t ht o ho
    have hrank : o.rank = t.rank := by
      have hi := congrArg (·[i]?) (hranks.trans hspawned.symm)
      simpa [ht, ho] using hi
    -- the output is that of an event of the rank
    obtain ⟨event, hevent, hoevent⟩ := List.mem_flatMap.mp
      ((List.mergeSort_perm _ _).mem_iff.mp (List.mem_of_getElem? ho))
    obtain ⟨-, -, before, result, hexec, hbefore, hanswer⟩ := hexchange.answered hlength ht
    obtain ⟨j, u, -, result', -, -, -, rfl⟩ := hexecuted event hevent
    cases result' with
    | error message => cases hoevent
    | ok output =>
        obtain rfl : o = ⟨u.rank, output⟩ := List.mem_singleton.mp hoevent
        have heq := hexchange.event_eq (List.mem_append_left g.events hevent)
          (List.mem_append_left g.events hanswer) hrank
        obtain ⟨-, -, rfl⟩ := RankEvent.executed.inj heq
        have hcount : before.length = g.calls.length := by
          have hlengths := congrArg List.length hbefore
          rwa [List.length_map, List.length_map] at hlengths
        rw [hexec, List.getElem?_append_right hcount.le, hcount, Nat.sub_self]
        rfl

theorem callSound_error {topology : TensorParallelTopology}
    {threads : List (RankThread Command Output)} {k : ℕ} {error : WorkerGroupError}
    (herror : ∀ stage detail, error ≠ .unexpectedEvent stage detail) :
    CallSound topology threads k command (.error error) :=
  ⟨fun stage detail heq => herror stage detail (Except.error.inj heq), nofun, nofun⟩

/-- The end of `execute_all`. -/
theorem Sound.collected (h : g.Sound) {outputs : List (RankOutput Output)}
    {failures : List RankFailure}
    (hphase : g.phase = .collecting sequence command 0 outputs failures)
    (hstep : g.advance = some g') : g'.Sound := by
  have hsound := h.phase
  have hspawned := h.spawned
  rw [hphase] at hsound hspawned
  obtain ⟨hopen, received, hexchange, hlength, rfl, hfailures⟩ := hsound
  rw [Nat.zero_add] at hlength
  simp only [advance, hphase] at hstep
  split_ifs at hstep with hnone
  all_goals
    obtain rfl := Option.some.inj hstep
    refine h.finishExecute hspawned hopen hexchange hlength ?_
  · exact hexchange.callSound hspawned hlength (hfailures hnone)
  · exact callSound_error nofun

/-- A thread that has not been told to stop can send events. -/
theorem InCall.holdsEvents {earlier : List Command} {answers : List (RankEvent Output)}
    {t : RankThread Command Output} {asked : Bool}
    (h : InCall earlier sequence command answers t asked) : t.HoldsEvents := by
  cases h <;> rename_i hphase _ _ _ <;> simp_all [RankThread.HoldsEvents]

/-- One event of `execute_all`. -/
theorem Sound.collecting (h : g.Sound) {left : ℕ} {outputs : List (RankOutput Output)}
    {failures : List RankFailure}
    (hphase : g.phase = .collecting sequence command (left + 1) outputs failures)
    (hstep : g.advance = some g') : g'.Sound := by
  have hsound := h.phase
  have hspawned := h.spawned
  rw [hphase] at hsound hspawned
  obtain ⟨hopen, received, hexchange, hlength, rfl, hfailures⟩ := hsound
  simp only [advance, hphase] at hstep
  cases hevents : g.events with
  | nil =>
      -- the channel is open
      rw [hevents] at hstep
      dsimp only at hstep
      split_ifs at hstep with hclosed
      have hpos : 0 < g.threads.length := by omega
      have ht : g.threads[0]? = some g.threads[0] := List.getElem?_eq_getElem hpos
      have hholds := InCall.holdsEvents (hexchange.threads 0 _ ht)
      have hclosed' := List.all_eq_true.mp hclosed _ (List.mem_of_getElem? ht)
      simp [hholds] at hclosed'
  | cons event events =>
      have hmem : event ∈ received ++ g.events := by simp [hevents]
      obtain ⟨i, t, before, result, -, -, -, rfl⟩ := hexchange.executed hmem
      rw [hevents] at hstep
      have hcount : left + (received ++ [RankEvent.executed t.rank sequence result]).length =
          g.threads.length := by
        rw [List.length_append, List.length_singleton, ← hlength]
        omega
      cases result with
      | ok output =>
          simp only [if_true] at hstep
          obtain rfl := Option.some.inj hstep
          refine ⟨h.settled, hspawned, hopen, _, hexchange.receive hevents, hcount, ?_,
            fun hnone => ?_⟩
          · rw [List.flatMap_append]
            rfl
          · exact List.forall_mem_append.mpr
              ⟨hfailures hnone, List.forall_mem_singleton.mpr id⟩
      | error message =>
          simp only [if_true] at hstep
          obtain rfl := Option.some.inj hstep
          refine ⟨h.settled, hspawned, hopen, _, hexchange.receive hevents, hcount, ?_,
            fun hnone => ?_⟩
          · rw [List.flatMap_append]
            exact (List.append_nil _).symm
          · simp at hnone

end Execute

/-! ### All steps -/

section Step

variable {g g' : WorkerGroup Command Output}

theorem Sound.advance (h : g.Sound) (hstep : g.advance = some g') : g'.Sound := by
  have hsound := h.phase
  have hspawned := h.spawned
  cases hphase : g.phase with
  | launching =>
      rw [hphase] at hsound
      simp only [WorkerGroup.advance, hphase] at hstep
      split_ifs at hstep with hless
      obtain rfl := Option.some.inj hstep
      have hall : g.threads.map (·.rank) = g.topology.localRanks :=
        h.settled.ranks.eq_of_length_le (by rw [List.length_map]; omega)
      obtain ⟨hcalls, hopen, hexchange⟩ := hsound
      exact ⟨h.settled, hall, hcalls, hopen, [],
        ⟨hexchange.threads, hexchange.nodup, hexchange.known⟩, rfl, fun _ => List.forall_mem_nil _⟩
  | aborting error next =>
      rw [hphase] at hsound
      simp only [WorkerGroup.advance, hphase] at hstep
      split at hstep <;> obtain rfl := Option.some.inj hstep
      · rename_i t ht
        exact ⟨h.settled.send ht _, trivial, told_send ht hsound 0⟩
      · rename_i hnone
        exact ⟨h.settled, trivial, fun i t ht =>
          ⟨told_of_none hnone hsound i t ht, fun hlt => absurd hlt (Nat.not_lt_zero i)⟩⟩
  | abortJoining error next =>
      rw [hphase] at hsound
      simp only [WorkerGroup.advance, hphase] at hstep
      split at hstep
      · rename_i t ht
        split_ifs at hstep with hexited
        obtain rfl := Option.some.inj hstep
        exact ⟨h.settled, trivial, exited_succ ht hexited hsound⟩
      · rename_i hnone
        obtain rfl := Option.some.inj hstep
        exact ⟨h.settled, trivial, exited_of_none hnone hsound⟩
  | starting left failures =>
      cases left with
      | zero => exact h.started hphase hstep
      | succ left => exact h.starting hphase hstep
  | idle =>
      simp only [WorkerGroup.advance, hphase] at hstep
      cases hstep
  | executing sequence command next expected failures => exact h.executing hphase hstep
  | collecting sequence command left outputs failures =>
      cases left with
      | zero => exact h.collected hphase hstep
      | succ left => exact h.collecting hphase hstep
  | stopping purpose sequence next expected failures =>
      rw [hphase] at hsound hspawned
      simp only [WorkerGroup.advance, hphase] at hstep
      split at hstep <;> obtain rfl := Option.some.inj hstep
      · rename_i t ht
        refine ⟨h.settled.send ht _, ?_, ?_⟩
        · dsimp only
          split <;> exact (map_rank_send ht _).trans hspawned
        · dsimp only
          split <;> exact ⟨hsound.1, told_send ht hsound.2 sequence⟩
      · rename_i hnone
        exact ⟨h.settled, hspawned, hsound.1, told_of_none hnone hsound.2⟩
  | draining purpose sequence left failures =>
      rw [hphase] at hsound hspawned
      have hjoining (failures' : List RankFailure) :
          Sound { g with phase := .joining purpose 0 failures' } :=
        ⟨h.settled, hspawned, hsound.1, fun i t ht =>
          ⟨hsound.2 i t ht, fun hlt => absurd hlt (Nat.not_lt_zero i)⟩⟩
      cases left with
      | zero =>
          simp only [WorkerGroup.advance, hphase] at hstep
          exact Option.some.inj hstep ▸ hjoining failures
      | succ left =>
          simp only [WorkerGroup.advance, hphase] at hstep
          split at hstep
          · obtain rfl := Option.some.inj hstep
            exact ⟨h.settled, hspawned, hsound⟩
          · split_ifs at hstep
            exact Option.some.inj hstep ▸ hjoining failures
  | joining purpose next failures =>
      rw [hphase] at hsound hspawned
      simp only [WorkerGroup.advance, hphase] at hstep
      split at hstep
      · rename_i t ht
        split_ifs at hstep with hexited
        obtain rfl := Option.some.inj hstep
        exact ⟨h.settled, hspawned, hsound.1, exited_succ ht hexited hsound.2⟩
      · rename_i hnone
        obtain rfl := Option.some.inj hstep
        exact Sound.finishShutdown h.settled hsound.1 hspawned (exited_of_none hnone hsound.2)
  | gone =>
      simp only [WorkerGroup.advance, hphase] at hstep
      cases hstep

theorem isIdle_iff : g.IsIdle = true ↔ g.phase = .idle := by
  rw [IsIdle]
  split <;> simp_all

/-- A thread that takes a step. -/
theorem Sound.step_work (h : g.Sound) {i : ℕ} {work : Work Output}
    (hstep : g.step (.work i work) = some g') : g'.Sound := by
  cases ht : g.threads[i]? with
  | none => simp [step, ht] at hstep
  | some t =>
      have hsound := h.phase
      cases hover : g.IsOver with
      | true =>
          -- all threads have ended
          have hexited : t.HasExited := by
            cases hphase : g.phase <;> simp_all [IsOver]
            exact hsound i t ht
          have hnone : t.step false work = none := by
            obtain ⟨rank, phase, commands, executed, initialized, shutdowns⟩ := t
            cases phase <;> simp_all [RankThread.HasExited, RankThread.step]
          simp [step, ht, hover, hnone] at hstep
      | false =>
          cases hwork : t.step true work with
          | none => simp [step, ht, hover, hwork] at hstep
          | some next =>
              have hg' : g.afterWork i next.1 next.2 = g' := by
                simpa [step, ht, hover, hwork, afterWork] using hstep
              exact hg' ▸ h.work ht (RankThread.moves hwork)

/-- A new call of `execute_all`. -/
theorem Sound.executeAll (h : g.Sound) {command : Command}
    (hstep : g.step (.executeAll command) = some g') : g'.Sound := by
  have hsound := h.phase
  have hspawned := h.spawned
  simp only [step] at hstep
  split_ifs at hstep with hidle hshutdown
  all_goals
    rw [isIdle_iff] at hidle
    rw [hidle] at hsound hspawned
    obtain rfl := Option.some.inj hstep
    simp only [PhaseSound, hshutdown, if_true, if_false, Bool.false_eq_true] at hsound
  · refine ⟨h.settled.record (callSound_error nofun), hspawned, ?_⟩
    change if g.isShutdown then _ else _
    rw [if_pos hshutdown]
    exact hsound
  · obtain ⟨hevents, hthreads⟩ := hsound
    have hsilent (rank : TensorParallelRank) : ¬Answers ([] ++ g.events) rank := by
      simp [hevents, Answers]
    refine ⟨h.settled, hspawned, by simpa using hshutdown, Nat.zero_le _, rfl, rfl,
      fun i t ht => ?_, by simp [hevents], fun rank hrank => absurd hrank (hsilent rank)⟩
    obtain ⟨hphase, hcommands, hexecuted⟩ := hthreads i t ht
    simpa using InCall.unasked hphase hcommands hexecuted (hsilent t.rank)

/-- A new call of `shutdown`, or the drop of the group. -/
theorem Sound.beginShutdown_of_idle (h : g.Sound) (hidle : g.IsIdle) {purpose : Purpose} :
    (g.beginShutdown purpose).Sound := by
  have hsound := h.phase
  have hspawned := h.spawned
  rw [isIdle_iff] at hidle
  rw [hidle] at hsound hspawned
  refine Sound.beginShutdown h.settled hspawned ?_
  simp only [PhaseSound] at hsound
  split_ifs at hsound ⊢
  · exact hsound
  · intro i t ht
    obtain ⟨hphase, hcommands, -⟩ := hsound.2 i t ht
    simp [Untold, hphase, hcommands]

/-- Every step keeps the invariant. -/
theorem Sound.step (h : g.Sound) {a : Action Command Output} (hstep : g.step a = some g') :
    g'.Sound := by
  cases a with
  | spawn =>
      obtain ⟨rank, hrank, rfl⟩ := Option.map_eq_some_iff.mp hstep
      exact h.spawn hrank
  | spawnFails message =>
      obtain ⟨rank, hrank, rfl⟩ := Option.map_eq_some_iff.mp hstep
      exact h.spawnFails hrank message
  | advance => exact h.advance hstep
  | work i work => exact h.step_work hstep
  | executeAll command => exact h.executeAll hstep
  | shutdown | drop =>
      simp only [WorkerGroup.step] at hstep
      split_ifs at hstep with hidle
      exact Option.some.inj hstep ▸ h.beginShutdown_of_idle hidle

end Step

end WorkerGroup

end SglangRs.TensorParallel
