import SglangRs.Distributed.WorkerGroupSafety

/-!
# Calls of a worker group end

A call waits for events or for threads to end. While it waits there is a thread that can take a
step: one that has not answered, or one that has been told to stop. Every step brings the call and
the threads closer to their end, so that a call ends however the threads are scheduled.

## Main definitions

* `WorkerGroup.measure`: how many steps the call and the threads can still take.
* `WorkerGroup.run`: a run from the launch of a group.

## Main results

* `WorkerGroup.Sound.progress`: a call in progress can go on.
* `WorkerGroup.measure_lt`: there are finitely many steps until the next call.
* `worker_group_protocol`: outputs, events and shutdowns in all runs.
-/

namespace SglangRs.TensorParallel

variable {Command Output : Type}

/-! ### A call can go on -/

/-- A thread waits if it has ended, or has no command. -/
theorem RankThread.exists_step {t : RankThread Command Output} (work : Work Output)
    (hexited : t.HasExited = false) (hcommands : t.phase = .receiving → t.commands ≠ []) :
    ∃ next, t.step true work = some next := by
  obtain ⟨rank, phase, commands, executed, initialized, shutdowns⟩ := t
  cases phase with
  | initializing =>
      simp only [step]
      split <;> exact ⟨_, rfl⟩
  | receiving =>
      cases commands with
      | nil => exact absurd rfl (hcommands rfl)
      | cons command commands => cases command <;> exact ⟨_, rfl⟩
  | exited => cases hexited
  | _ => exact ⟨_, rfl⟩

theorem Told.exists_step {t : RankThread Command Output} (h : Told t) (work : Work Output)
    (hexited : t.HasExited = false) : ∃ next, t.step true work = some next := by
  refine t.exists_step work hexited fun hphase => ?_
  rw [Told, hphase] at h
  obtain ⟨sequence, hcommands⟩ := h
  simp [hcommands]

namespace WorkerGroup

variable {g g' : WorkerGroup Command Output}

/-- A call or a thread can take a step. -/
def CanStep (g : WorkerGroup Command Output) : Prop :=
  ∃ a g', Action.IsInternal a ∧ g.step a = some g'

theorem canStep_of_advance (h : g.advance.isSome) : g.CanStep := by
  obtain ⟨g', hg'⟩ := Option.isSome_iff_exists.mp h
  exact ⟨.advance, g', rfl, hg'⟩

theorem canStep_of_work (work : Work Output) {i : ℕ} {t : RankThread Command Output}
    (hover : g.IsOver = false) (ht : g.threads[i]? = some t)
    (hstep : ∃ next, t.step true work = some next) : g.CanStep := by
  obtain ⟨next, hnext⟩ := hstep
  refine ⟨.work i work, g.afterWork i next.1 next.2, rfl, ?_⟩
  simp [step, ht, hover, hnext, afterWork]

/-- What the calls of a worker may come to. -/
def someWork : Work Output := ⟨.ok (), .failed "", .ok ()⟩

/-- A call that waits for events has not had one from every rank. -/
theorem Exchange.exists_silent {received : List (RankEvent Output)}
    {P : ℕ → List (RankEvent Output) → RankThread Command Output → Prop}
    (hnodup : (g.threads.map (·.rank)).Nodup) (hexchange : Exchange g received P)
    (hevents : g.events = []) (hlength : received.length < g.threads.length) :
    ∃ i t, g.threads[i]? = some t ∧ P i received t ∧ ¬Answers received t.rank := by
  by_contra hnone
  have hsub : g.threads.map (·.rank) ⊆ received.map (·.rank) := by
    intro rank hrank
    obtain ⟨t, hmem, rfl⟩ := List.mem_map.mp hrank
    obtain ⟨i, ht⟩ := List.mem_iff_getElem?.mp hmem
    by_contra hsilent
    have hthread := hexchange.threads i t ht
    rw [hevents, List.append_nil] at hthread
    exact hnone ⟨i, t, ht, hthread, hsilent⟩
  have hle := (hnodup.subperm hsub).length_le
  rw [List.length_map, List.length_map] at hle
  omega

theorem canStep_starting {received : List (RankEvent Output)} (hover : g.IsOver = false)
    (hnodup : (g.threads.map (·.rank)).Nodup) (hexchange : Exchange g received fun _ => Starting)
    (hevents : g.events = []) (hlength : received.length < g.threads.length) : g.CanStep := by
  obtain ⟨i, t, ht, hstarting, hsilent⟩ := hexchange.exists_silent hnodup hevents hlength
  cases hstarting with
  | pending hphase =>
      refine canStep_of_work someWork hover ht (t.exists_step _ ?_ fun hreceiving => ?_)
      · rcases hphase with h | h | ⟨message, h⟩ <;> simp [RankThread.HasExited, h]
      · simp [hreceiving] at hphase
  | ready _ _ _ hanswer => exact absurd (List.mem_map_of_mem hanswer) hsilent
  | failed _ _ hanswer => exact absurd (List.mem_map_of_mem hanswer) hsilent

theorem canStep_collecting {received : List (RankEvent Output)} {earlier : List Command}
    {sequence : UInt64} {command : Command} (hover : g.IsOver = false)
    (hnodup : (g.threads.map (·.rank)).Nodup)
    (hexchange : Exchange g received fun _ answers t =>
      InCall earlier sequence command answers t true)
    (hevents : g.events = []) (hlength : received.length < g.threads.length) : g.CanStep := by
  obtain ⟨i, t, ht, hcall, hsilent⟩ := hexchange.exists_silent hnodup hevents hlength
  refine canStep_of_work someWork hover ht (t.exists_step _ ?_ fun hreceiving => ?_)
  · cases hcall <;> rename_i hphase _ _ _ <;> simp_all [RankThread.HasExited]
  · cases hcall with
    | asked _ hcommands => simp [hcommands]
    | answered _ _ _ _ _ _ hanswer => exact absurd (List.mem_map_of_mem hanswer) hsilent
    | executing hphase => simp [hreceiving] at hphase
    | reporting _ _ hphase => simp [hreceiving] at hphase

/-- The call waits for a thread that has been told to stop. -/
theorem canStep_joining {next : ℕ} {t : RankThread Command Output} (hover : g.IsOver = false)
    (ht : g.threads[next]? = some t) (htold : Told t) (hexited : ¬t.HasExited) : g.CanStep :=
  canStep_of_work someWork hover ht (htold.exists_step _ (by simpa using hexited))

/-- A thread that can still send events has not ended. -/
theorem canStep_draining (hover : g.IsOver = false) (htold : Each g.threads fun _ t => Told t)
    (hopen : ¬g.EventsClosed) : g.CanStep := by
  rw [EventsClosed, List.all_eq_true] at hopen
  obtain ⟨t, hmem, hholds⟩ : ∃ t ∈ g.threads, ¬(!t.HoldsEvents) = true := by
    simpa using hopen
  obtain ⟨i, ht⟩ := List.mem_iff_getElem?.mp hmem
  refine canStep_joining hover ht (htold i t ht) fun hexited => hholds ?_
  obtain ⟨rank, phase, commands, executed, initialized, shutdowns⟩ := t
  cases phase <;> simp_all [RankThread.HasExited, RankThread.HoldsEvents]

/-- **A call in progress can go on**: it does not wait for an event that no thread will send, nor
for a thread that will not end. -/
theorem Sound.progress (h : g.Sound) (hcall : g.AtRest = false) : g.CanStep := by
  have hsound := h.phase
  have hover : g.IsOver = false := by
    cases hphase : g.phase <;> simp_all [AtRest, IsOver]
  have hnodup := h.settled.nodup
  cases hphase : g.phase with
  | launching =>
      cases hnext : g.topology.localRanks[g.threads.length]? with
      | some rank => exact ⟨.spawn, _, rfl, by
          rw [WorkerGroup.step, nextRank?, hphase, hnext]
          rfl⟩
      | none =>
          have hlength := List.getElem?_eq_none_iff.mp hnext
          refine canStep_of_advance ?_
          simp only [WorkerGroup.advance, hphase]
          rw [if_neg (by omega)]
          rfl
  | aborting error next =>
      cases ht : g.threads[next]? <;>
        exact canStep_of_advance (by simp [WorkerGroup.advance, hphase, ht])
  | abortJoining error next =>
      rw [hphase] at hsound
      cases ht : g.threads[next]? with
      | none => exact canStep_of_advance (by simp [WorkerGroup.advance, hphase, ht])
      | some t =>
          by_cases hexited : t.HasExited
          · exact canStep_of_advance (by simp [WorkerGroup.advance, hphase, ht, hexited])
          · exact canStep_joining hover ht (hsound next t ht).1 hexited
  | starting left failures =>
      rw [hphase] at hsound
      obtain ⟨-, -, received, hexchange, hlength, -⟩ := hsound
      cases left with
      | zero =>
          by_cases hnone : failures = [] <;>
            exact canStep_of_advance (by simp [WorkerGroup.advance, hphase, hnone])
      | succ left =>
          cases hevents : g.events with
          | nil => exact canStep_starting hover hnodup hexchange hevents (by omega)
          | cons event events =>
              cases event <;>
                exact canStep_of_advance (by simp [WorkerGroup.advance, hphase, hevents])
  | idle => simp [AtRest, hphase] at hcall
  | executing sequence command next expected failures =>
      cases ht : g.threads[next]? <;>
        exact canStep_of_advance (by simp [WorkerGroup.advance, hphase, ht])
  | collecting sequence command left outputs failures =>
      rw [hphase] at hsound
      obtain ⟨-, received, hexchange, hlength, -⟩ := hsound
      cases left with
      | zero =>
          by_cases hnone : failures = [] <;>
            exact canStep_of_advance (by simp [WorkerGroup.advance, hphase, hnone])
      | succ left =>
          cases hevents : g.events with
          | nil => exact canStep_collecting hover hnodup hexchange hevents (by omega)
          | cons event events =>
              have hmem : event ∈ received ++ g.events := by simp [hevents]
              obtain ⟨i, t, before, result, -, -, -, rfl⟩ := hexchange.executed hmem
              cases result <;>
                exact canStep_of_advance (by
                  simp [WorkerGroup.advance, hphase, hevents])
  | stopping purpose sequence next expected failures =>
      cases ht : g.threads[next]? <;>
        exact canStep_of_advance (by simp [WorkerGroup.advance, hphase, ht])
  | draining purpose sequence left failures =>
      rw [hphase] at hsound
      cases left with
      | zero => exact canStep_of_advance (by simp [WorkerGroup.advance, hphase])
      | succ left =>
          cases hevents : g.events with
          | nil =>
              by_cases hclosed : g.EventsClosed
              · exact canStep_of_advance (by
                  simp [WorkerGroup.advance, hphase, hevents, hclosed])
              · exact canStep_draining hover hsound.2 hclosed
          | cons event events =>
              exact canStep_of_advance (by simp [WorkerGroup.advance, hphase, hevents])
  | joining purpose next failures =>
      rw [hphase] at hsound
      cases ht : g.threads[next]? with
      | none => exact canStep_of_advance (by simp [WorkerGroup.advance, hphase, ht])
      | some t =>
          by_cases hexited : t.HasExited
          · exact canStep_of_advance (by simp [WorkerGroup.advance, hphase, ht, hexited])
          · exact canStep_joining hover ht (hsound.2 next t ht).1 hexited
  | gone => simp [AtRest, hphase] at hcall

end WorkerGroup

/-! ### A call ends -/

def RankCommand.weight : RankCommand Command → ℕ
  | .execute _ _ => 3
  | .shutdown _ => 1

def RankPhase.weight : RankPhase Command Output → ℕ
  | .exited => 0
  | .dropping => 1
  | .returning => 2
  | .confirming _ _ | .rejecting _ | .abandoning => 3
  | .stopping _ => 4
  | .receiving => 5
  | .announcing | .reporting _ _ => 6
  | .initializing | .executing _ _ => 7

namespace RankThread

/-- How many steps a thread can still take. -/
def weight (t : RankThread Command Output) : ℕ :=
  t.phase.weight + (t.commands.map RankCommand.weight).sum

theorem weight_lt {t t' : RankThread Command Output} {connected : Bool} {work : Work Output}
    {events : List (RankEvent Output)} (h : t.step connected work = some (t', events)) :
    t'.weight < t.weight := by
  obtain ⟨rank, phase, commands, executed, initialized, shutdowns⟩ := t
  cases phase with
  | initializing =>
      simp only [step] at h
      split at h <;> cases h <;> simp [weight, RankPhase.weight]
  | announcing | reporting =>
      simp only [step] at h
      split_ifs at h <;> cases h <;> simp [weight, RankPhase.weight]
  | receiving =>
      simp only [step] at h
      split at h
      · cases h
        simp only [weight, RankPhase.weight, List.map_cons, List.sum_cons, RankCommand.weight]
        omega
      · cases h
        simp only [weight, RankPhase.weight, List.map_cons, List.sum_cons, RankCommand.weight]
        omega
      · split_ifs at h
        cases h
        simp [weight, RankPhase.weight]
  | exited => cases h
  | _ =>
      cases h
      simp [weight, RankPhase.weight]

theorem weight_push (t : RankThread Command Output) (command : RankCommand Command) :
    weight { t with commands := t.commands ++ [command] } = t.weight + command.weight := by
  simp only [weight, List.map_append, List.sum_append, List.map_singleton, List.sum_singleton]
  omega

end RankThread

/-- How many steps a call can still take, by the number of ranks of the node and of threads. -/
def GroupPhase.weight (ranks threads : ℕ) : GroupPhase Command Output → ℕ
  | .idle | .gone => 0
  | .joining _ next _ | .abortJoining _ next => (threads - next) + 1
  | .draining _ _ left _ => left + threads + 2
  | .stopping _ _ next expected _ => 3 * (threads - next) + expected + threads + 3
  | .aborting _ next => 3 * (threads - next) + threads + 3
  | .collecting _ _ left _ _ => left + 2
  | .executing _ _ next expected _ => 5 * (threads - next) + expected + 3
  | .starting left _ => left + 4 * threads + 4
  | .launching => 13 * (ranks - threads) + 5 * threads + 5

namespace WorkerGroup

variable {g g' : WorkerGroup Command Output}

/-- How many steps the call and the threads can still take. -/
def measure (g : WorkerGroup Command Output) : ℕ :=
  g.phase.weight g.topology.localRanks.length g.threads.length +
    (g.threads.map RankThread.weight).sum

theorem sum_weight_set {threads : List (RankThread Command Output)} {i : ℕ}
    {t : RankThread Command Output} (ht : threads[i]? = some t) (t' : RankThread Command Output) :
    ((threads.set i t').map RankThread.weight).sum + t.weight =
      (threads.map RankThread.weight).sum + t'.weight := by
  induction threads generalizing i with
  | nil => simp at ht
  | cons u threads ih =>
      cases i with
      | zero =>
          obtain rfl : u = t := by simpa using ht
          simp only [List.set_cons_zero, List.map_cons, List.sum_cons]
          omega
      | succ i =>
          have hrest := ih (i := i) (by simpa using ht)
          simp only [List.set_cons_succ, List.map_cons, List.sum_cons]
          omega

theorem sum_weight_send {i : ℕ} {t : RankThread Command Output} (ht : g.threads[i]? = some t)
    (command : RankCommand Command) :
    (g.send i t command).1.length = g.threads.length ∧
      ((g.send i t command).1.map RankThread.weight).sum ≤
        (g.threads.map RankThread.weight).sum + command.weight := by
  obtain ⟨-, heq⟩ | ⟨-, heq⟩ := g.send_cases i t command <;> rw [heq]
  · exact ⟨rfl, Nat.le_add_right _ _⟩
  · have hsum := sum_weight_set ht { t with commands := t.commands ++ [command] }
    rw [RankThread.weight_push] at hsum
    refine ⟨List.length_set, ?_⟩
    dsimp only
    omega

theorem measure_beginShutdown (purpose : Purpose) : (g.beginShutdown purpose).measure ≤
    4 * g.threads.length + 3 + (g.threads.map RankThread.weight).sum := by
  rw [beginShutdown]
  split_ifs
  · cases purpose <;> simp only [measure, finishShutdown, GroupPhase.weight] <;> omega
  · simp only [measure, GroupPhase.weight]
    omega

theorem measure_advance (h : g.advance = some g') : g'.measure < g.measure := by
  cases hphase : g.phase with
  | launching =>
      simp only [WorkerGroup.advance, hphase] at h
      split_ifs at h
      obtain rfl := Option.some.inj h
      simp only [measure, hphase, GroupPhase.weight]
      omega
  | aborting error next =>
      simp only [WorkerGroup.advance, hphase] at h
      split at h <;> obtain rfl := Option.some.inj h
      · rename_i t ht
        obtain ⟨hlength, hsum⟩ := sum_weight_send ht (.shutdown 0)
        have hlt := (List.getElem?_eq_some_iff.mp ht).1
        simp only [RankCommand.weight] at hsum
        simp only [measure, hphase, GroupPhase.weight, hlength]
        omega
      · simp only [measure, hphase, GroupPhase.weight]
        omega
  | abortJoining error next =>
      simp only [WorkerGroup.advance, hphase] at h
      split at h
      · rename_i t ht
        have hlt := (List.getElem?_eq_some_iff.mp ht).1
        split_ifs at h
        obtain rfl := Option.some.inj h
        simp only [measure, hphase, GroupPhase.weight]
        omega
      · obtain rfl := Option.some.inj h
        simp only [measure, hphase, GroupPhase.weight]
        omega
  | starting left failures =>
      cases left with
      | zero =>
          simp only [WorkerGroup.advance, hphase] at h
          split_ifs at h <;> obtain rfl := Option.some.inj h
          · simp only [measure, hphase, GroupPhase.weight]
            omega
          · refine (measure_beginShutdown _).trans_lt ?_
            simp only [measure, hphase, GroupPhase.weight]
            omega
      | succ left =>
          simp only [WorkerGroup.advance, hphase] at h
          split at h
          case h_4 =>
            split_ifs at h
            obtain rfl := Option.some.inj h
            refine (measure_beginShutdown _).trans_lt ?_
            simp only [measure, hphase, GroupPhase.weight]
            omega
          all_goals
            obtain rfl := Option.some.inj h
            simp only [measure, hphase, GroupPhase.weight]
            omega
  | idle =>
      simp only [WorkerGroup.advance, hphase] at h
      cases h
  | executing sequence command next expected failures =>
      simp only [WorkerGroup.advance, hphase] at h
      split at h <;> obtain rfl := Option.some.inj h
      · rename_i t ht
        obtain ⟨hlength, hsum⟩ := sum_weight_send ht (.execute sequence command)
        have hlt := (List.getElem?_eq_some_iff.mp ht).1
        simp only [RankCommand.weight] at hsum
        simp only [measure, hphase]
        split <;> simp only [GroupPhase.weight, hlength] <;> omega
      · rename_i hnone
        have hle := List.getElem?_eq_none_iff.mp hnone
        simp only [measure, hphase, GroupPhase.weight]
        omega
  | collecting sequence command left outputs failures =>
      have hfinish {events : List (RankEvent Output)}
          {result : Except WorkerGroupError (List (RankOutput Output))} :
          (finishExecute { g with events } command result).measure < g.measure := by
        simp only [measure, finishExecute, hphase, GroupPhase.weight]
        omega
      cases left with
      | zero =>
          simp only [WorkerGroup.advance, hphase] at h
          split_ifs at h <;> exact Option.some.inj h ▸ hfinish
      | succ left =>
          simp only [WorkerGroup.advance, hphase] at h
          split at h
          · split at h
            · split_ifs at h
              · split at h <;> obtain rfl := Option.some.inj h <;>
                  simp only [measure, hphase, GroupPhase.weight] <;> omega
              · exact Option.some.inj h ▸ hfinish
            · exact Option.some.inj h ▸ hfinish
          · split_ifs at h
            exact Option.some.inj h ▸ hfinish
  | stopping purpose sequence next expected failures =>
      simp only [WorkerGroup.advance, hphase] at h
      split at h <;> obtain rfl := Option.some.inj h
      · rename_i t ht
        obtain ⟨hlength, hsum⟩ := sum_weight_send ht (.shutdown sequence)
        have hlt := (List.getElem?_eq_some_iff.mp ht).1
        simp only [RankCommand.weight] at hsum
        simp only [measure, hphase]
        split <;> simp only [GroupPhase.weight, hlength] <;> omega
      · simp only [measure, hphase, GroupPhase.weight]
        omega
  | draining purpose sequence left failures =>
      cases left with
      | zero =>
          simp only [WorkerGroup.advance, hphase] at h
          obtain rfl := Option.some.inj h
          simp only [measure, hphase, GroupPhase.weight]
          omega
      | succ left =>
          simp only [WorkerGroup.advance, hphase] at h
          split at h
          · obtain rfl := Option.some.inj h
            simp only [measure, hphase, GroupPhase.weight]
            omega
          · split_ifs at h
            obtain rfl := Option.some.inj h
            simp only [measure, hphase, GroupPhase.weight]
            omega
  | joining purpose next failures =>
      simp only [WorkerGroup.advance, hphase] at h
      split at h
      · rename_i t ht
        have hlt := (List.getElem?_eq_some_iff.mp ht).1
        split_ifs at h
        obtain rfl := Option.some.inj h
        simp only [measure, hphase, GroupPhase.weight]
        omega
      · obtain rfl := Option.some.inj h
        cases purpose <;> simp only [measure, finishShutdown, hphase, GroupPhase.weight] <;> omega
  | gone =>
      simp only [WorkerGroup.advance, hphase] at h
      cases h

/-- Every step of a call or a thread brings them closer to their end. -/
theorem measure_lt {a : Action Command Output} (ha : a.IsInternal) (h : g.step a = some g') :
    g'.measure < g.measure := by
  cases a with
  | spawn =>
      obtain ⟨rank, hrank, rfl⟩ := Option.map_eq_some_iff.mp h
      obtain ⟨hphase, hnext⟩ := nextRank?_eq_some hrank
      have hlt := (List.getElem?_eq_some_iff.mp hnext).1
      simp only [measure, hphase, GroupPhase.weight, List.length_append, List.length_singleton,
        List.map_append, List.sum_append, List.map_singleton, List.sum_singleton,
        RankThread.weight, RankPhase.weight, List.map_nil, List.sum_nil]
      omega
  | spawnFails message =>
      obtain ⟨rank, hrank, rfl⟩ := Option.map_eq_some_iff.mp h
      obtain ⟨hphase, hnext⟩ := nextRank?_eq_some hrank
      simp only [measure, hphase, GroupPhase.weight]
      omega
  | advance => exact measure_advance h
  | work i work =>
      cases ht : g.threads[i]? with
      | none => simp [step, ht] at h
      | some t =>
          cases hwork : t.step (!g.IsOver) work with
          | none => simp [step, ht, hwork] at h
          | some next =>
              have hg' : g.afterWork i next.1 next.2 = g' := by
                simpa [step, ht, hwork, afterWork] using h
              have hlt := RankThread.weight_lt hwork
              have hsum := sum_weight_set ht next.1
              rw [← hg']
              simp only [measure, afterWork, List.length_set]
              omega
  | executeAll | shutdown | drop => cases ha

/-! ### Runs -/

/-- Steps of the call and the threads, one after the other. -/
def Takes : WorkerGroup Command Output → List (Action Command Output) → Prop
  | _, [] => True
  | g, a :: as => ∃ g', Action.IsInternal a ∧ g.step a = some g' ∧ Takes g' as

theorem length_le_of_takes {as : List (Action Command Output)} (h : g.Takes as) :
    as.length ≤ g.measure := by
  induction as generalizing g with
  | nil => exact Nat.zero_le _
  | cons a as ih =>
      obtain ⟨g', ha, hstep, hrest⟩ := h
      exact (ih hrest).trans_lt (measure_lt ha hstep)

/-- A run from the launch of a group. Steps that cannot be taken are skipped. -/
def run (topology : TensorParallelTopology) (as : List (Action Command Output)) :
    WorkerGroup Command Output :=
  as.foldl (fun g a => (g.step a).getD g) { topology }

theorem sound_run (topology : TensorParallelTopology) (as : List (Action Command Output)) :
    (run topology as).Sound := by
  refine List.foldlRecOn as _ (Sound.init topology) fun g h a _ => ?_
  cases hstep : g.step a with
  | none => exact h
  | some g' => exact h.step hstep

/-- The protocol of a worker group. -/
structure FollowsProtocol (g : WorkerGroup Command Output) : Prop where
  /-- A call that succeeds returns one output for each rank of the node, in order, which the rank
  has produced for the command of this call. -/
  outputs : ∀ (k : ℕ) command (outputs : List (RankOutput Output)),
    g.calls[k]? = some (command, .ok outputs) → outputs.map (·.rank) = g.topology.localRanks ∧
      Each g.threads fun i t => ∃ o, outputs[i]? = some o ∧ o.rank = t.rank ∧
        t.executed[k]? = some (command, .ok o.output)
  /-- Between the calls every rank has executed the commands of the calls so far. -/
  executed : g.IsIdle → g.isShutdown = false →
    Each g.threads fun _ t => t.executed.map Prod.fst = g.calls.map Prod.fst
  /-- No call has received an unexpected event. -/
  expected : ∀ (k : ℕ) command (result : Except WorkerGroupError (List (RankOutput Output))),
    g.calls[k]? = some (command, result) →
      ∀ stage detail, result ≠ .error (.unexpectedEvent stage detail)
  /-- A call in progress can go on. -/
  progress : g.AtRest = false → g.CanStep
  /-- The call and the threads take finitely many steps until the next call. -/
  ends : ∃ bound, ∀ as, g.Takes as → as.length ≤ bound
  /-- A worker is shut down at most once. -/
  once : Each g.threads fun _ t => t.shutdowns ≤ if t.initialized then 1 else 0
  /-- When the group is shut down or gone, every worker has been shut down. -/
  shutdowns : g.IsOver ∨ g.IsIdle ∧ g.isShutdown →
    Each g.threads fun _ t => t.HasExited ∧ t.shutdowns = if t.initialized then 1 else 0

theorem Sound.followsProtocol (h : g.Sound) : g.FollowsProtocol where
  outputs k command outputs hk := by
    have hcall := h.settled.history k command _ hk
    have hranks := hcall.ranks outputs rfl
    refine ⟨hranks, fun i t ht => ?_⟩
    obtain ⟨more, hmore⟩ := h.settled.ranks
    have hi : i < g.threads.length := (List.getElem?_eq_some_iff.mp ht).1
    have hrank := congrArg (·[i]?) (hranks.trans hmore.symm)
    simp only [List.getElem?_map] at hrank
    rw [List.getElem?_append_left (by simpa using hi), List.getElem?_map, ht] at hrank
    obtain ⟨o, ho, horank⟩ := Option.map_eq_some_iff.mp hrank
    exact ⟨o, ho, horank, hcall.executed outputs rfl i t ht o ho⟩
  executed hidle hopen i t ht := by
    have hsound := h.phase
    rw [isIdle_iff.mp hidle] at hsound
    simp only [PhaseSound, hopen] at hsound
    exact (hsound.2 i t ht).2.2
  expected k command result hk := (h.settled.history k command result hk).expected
  progress := h.progress
  ends := ⟨g.measure, fun _ => length_le_of_takes⟩
  once i t ht := by
    have hworker := h.settled.workers i t ht
    obtain ⟨rank, phase, commands, executed, initialized, shutdowns⟩ := t
    cases phase <;> simp_all [RankThread.WorkerSound]
  shutdowns hend i t ht := by
    have hsound := h.phase
    have hexited : t.HasExited := by
      rcases hend with hover | ⟨hidle, hshutdown⟩
      · cases hphase : g.phase <;> simp_all [IsOver]
        exact hsound i t ht
      · rw [isIdle_iff.mp hidle] at hsound
        simp only [PhaseSound, hshutdown, if_true] at hsound
        exact hsound i t ht
    have hworker := h.settled.workers i t ht
    obtain ⟨rank, phase, commands, executed, initialized, shutdowns⟩ := t
    cases phase <;> simp_all [RankThread.WorkerSound, RankThread.HasExited]

end WorkerGroup

open WorkerGroup

/-- **A worker group follows its protocol in all runs**: for every node, every sequence of calls,
every interleaving of the threads, and whatever the calls of the workers come to. -/
theorem worker_group_protocol (topology : TensorParallelTopology)
    (as : List (Action Command Output)) : (run topology as).FollowsProtocol :=
  (sound_run topology as).followsProtocol

end SglangRs.TensorParallel
