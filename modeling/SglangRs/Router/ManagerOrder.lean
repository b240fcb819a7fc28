import SglangRs.Router.WorkerManager

/-!
# The order of discovery events

The tasks of different workers overtake each other, but those of one worker do not: the loop waits
for the pending task of a worker before it handles the next event of that worker. As the entry of a
worker depends only on the events of that worker, as long as none is rejected, the registry ends up
as if the events had been handled one by one.

## Main definitions

* `Router.applyEntry`: what an event does to the entry of a worker.
* `WorkerManager.OneTask`: no worker has two tasks at work.
* `WorkerManager.Linear`: the registry is what the events handled so far make of it, but for the
  workers that are still being asked.

## Main results

* `WorkerManager.OneTask.step`, `WorkerManager.Linear.step`: every step keeps these.
-/

namespace SglangRs.Router

/-- What an event does to the entry of a worker. -/
def applyEntry (id : WorkerId) (entry : Option Worker) : DiscoveryEvent → Option Worker
  | .added spec => if id = spec.id then some (.new spec) else entry
  | .removed id' => if id = id' then none else entry
  | .modeChanged id' mode => if id = id' then entry.map (·.setMode mode) else entry

/-- The entry of a worker after a sequence of events. -/
def entryAfter (id : WorkerId) (events : List Discovered) : Option Worker :=
  (events.map Discovered.resolved).foldl (applyEntry id) none

theorem entryAfter_concat (id : WorkerId) (events : List Discovered) (d : Discovered) :
    entryAfter id (events ++ [d]) = applyEntry id (entryAfter id events) d.resolved := by
  rw [entryAfter, List.map_append, List.foldl_append]
  rfl

@[simp] theorem worker_resolved (d : Discovered) : d.resolved.worker = d.1.worker := by
  obtain ⟨event, info⟩ := d
  cases event with
  | added spec => exact resolve_id spec info
  | removed id => rfl
  | modeChanged id mode => rfl

/-- An event of another worker does not matter. -/
theorem applyEntry_of_ne {id : WorkerId} {e : DiscoveryEvent} (h : id ≠ e.worker)
    (entry : Option Worker) : applyEntry id entry e = entry := by
  cases e <;> exact if_neg h

namespace WorkerRegistry

variable {r : WorkerRegistry}

theorem byId_remove (id id' : WorkerId) :
    (r.remove id).byId id' = if id' = id then none else r.byId id' :=
  byId_removeLocked id id'

theorem byId_changeMode_eq (id : WorkerId) (mode : WorkerMode) (id' : WorkerId) :
    (r.changeMode id mode).byId id' =
      if id' = id then (r.byId id).map (·.setMode mode) else r.byId id' := by
  cases hw : r.byId id with
  | none =>
      rw [changeMode_of_none hw]
      by_cases heq : id' = id
      · rw [if_pos heq, heq, hw, Option.map_none]
      · rw [if_neg heq]
  | some w => rw [byId_changeMode hw, Option.map_some]

theorem byId_add {spec : WorkerSpec} (h : (r.add spec).1 = .ok ()) (id : WorkerId) :
    (r.add spec).2.byId id = if id = spec.id then some (.new spec) else r.byId id := by
  obtain ⟨e, heq⟩ | ⟨heq, -⟩ := r.add_cases spec
  · rw [heq] at h
    cases h
  · rw [heq]
    exact byId_insert ..

/-- The entry of a worker after an event that is not rejected. -/
theorem byId_apply {e : DiscoveryEvent} (h : WorkerManager.Processes r e) (id : WorkerId) :
    (r.apply e).byId id = applyEntry id (r.byId id) e := by
  cases e with
  | added spec => exact byId_add h id
  | removed id' => exact byId_remove id' id
  | modeChanged id' mode =>
      refine (byId_changeMode_eq id' mode id).trans ?_
      by_cases heq : id = id'
      · rw [if_pos heq, applyEntry, if_pos heq, heq]
      · rw [if_neg heq, applyEntry, if_neg heq]

theorem byId_run {events : List DiscoveryEvent} {r : WorkerRegistry}
    (h : Transition.Along WorkerRegistry.apply WorkerManager.Processes r events) (id : WorkerId) :
    (r.run events).byId id = events.foldl (applyEntry id) (r.byId id) := by
  induction events generalizing r with
  | nil => rfl
  | cons e events ih =>
      refine (ih h.2).trans ?_
      rw [byId_apply h.1, List.foldl_cons]

end WorkerRegistry

namespace WorkerManager

variable {s : WorkerManager}

/-- The task is at work. -/
def Working (s : WorkerManager) (t : ℕ) (task : RegisterTask) : Prop :=
  s.tasks[t]? = some task ∧ task.stage ≠ .finished

/-- No worker has two tasks at work: a task at work is pending, or the loop waits for it before it
handles an event of its worker. -/
structure OneTask (s : WorkerManager) : Prop where
  pending : ∀ t task, s.Working t task → (task.spec.id, t) ∈ s.pending ∨
    ∃ event info, s.loop = .handling event info (some t) ∧ event.worker = task.spec.id
  nodup : (s.pending.map Prod.fst).Nodup
  apart : ∀ event info prev, s.loop = .handling event info prev →
    event.worker ∉ s.pending.map Prod.fst
  bounded : ∀ p ∈ s.pending, p.2 < s.tasks.length
  drained : s.loop = .finished → ∀ t task, ¬ s.Working t task

theorem not_isFinished {t : ℕ} {task : RegisterTask} (h : s.Working t task) :
    s.isFinished t = false := by
  rw [isFinished, h.1]
  simpa using h.2

/-- Two tasks at work have different workers. -/
theorem OneTask.unique (h : s.OneTask) {t t' : ℕ} {task task' : RegisterTask}
    (ht : s.Working t task) (ht' : s.Working t' task') (hid : task.spec.id = task'.spec.id) :
    t = t' := by
  have hkey : ∀ {id : WorkerId} {n : ℕ}, (id, n) ∈ s.pending → id ∈ s.pending.map Prod.fst :=
    fun hmem => List.mem_map_of_mem hmem
  obtain hp | ⟨event, info, hloop, hworker⟩ := h.pending t task ht <;>
    obtain hp' | ⟨event', info', hloop', hworker'⟩ := h.pending t' task' ht'
  · rw [hid] at hp
    exact congrArg Prod.snd (List.inj_on_of_nodup_map h.nodup hp hp' rfl)
  · exact absurd (hworker' ▸ hid ▸ hkey hp) (h.apart _ _ _ hloop')
  · exact absurd (hworker ▸ hid ▸ hkey hp') (h.apart _ _ _ hloop)
  · rw [hloop] at hloop'
    cases hloop'
    rfl

/-- When the loop handles an event, no task of the worker is at work. -/
theorem OneTask.idle (h : s.OneTask) {event : DiscoveryEvent} {info : ServerInfo} {prev : Option ℕ}
    (hloop : s.loop = .handling event info prev) (hprev : prev.all s.isFinished = true) {t : ℕ}
    {task : RegisterTask} (ht : s.Working t task) : task.spec.id ≠ event.worker := by
  intro hid
  obtain hp | ⟨event', info', hloop', -⟩ := h.pending t task ht
  · exact h.apart _ _ _ hloop (hid ▸ List.mem_map_of_mem hp)
  · rw [hloop] at hloop'
    cases hloop'
    rw [Option.all_some, not_isFinished ht] at hprev
    cases hprev

/-! ### Tasks -/

section Tasks

variable {s' : WorkerManager} {t : ℕ} {task : RegisterTask} {stage : TaskStage}

theorem getElem?_modify_stage (t' : ℕ) :
    (s.tasks.modify t ({ · with stage }))[t']? =
      (s.tasks[t']?).map fun task => if t = t' then { task with stage } else task := by
  rw [List.getElem?_modify]
  by_cases h : t = t' <;> simp [h]

/-- A task at work after a change of stage was at work before. -/
theorem working_of_modify (htasks : s'.tasks = s.tasks.modify t ({ · with stage }))
    (ht : s.Working t task) {t' : ℕ} {task' : RegisterTask} (h : s'.Working t' task') :
    ∃ task₀, s.Working t' task₀ ∧ task₀.spec = task'.spec := by
  obtain ⟨hget, hstage⟩ := h
  rw [htasks, getElem?_modify_stage] at hget
  obtain ⟨task₀, hget₀, rfl⟩ := Option.map_eq_some_iff.1 hget
  by_cases heq : t = t'
  · subst heq
    refine ⟨task₀, ⟨hget₀, ?_⟩, by simp⟩
    have hsame := ht.1.symm.trans hget₀
    cases hsame
    exact ht.2
  · simp only [if_neg heq] at hstage ⊢
    exact ⟨task₀, ⟨hget₀, hstage⟩, rfl⟩

/-- A task moves on. -/
theorem OneTask.modify (h : s.OneTask) (ht : s.Working t task)
    (htasks : s'.tasks = s.tasks.modify t ({ · with stage })) (hpending : s'.pending = s.pending)
    (hloop : s'.loop = s.loop) : s'.OneTask where
  pending t' task' hwork := by
    obtain ⟨task₀, hwork₀, hspec⟩ := working_of_modify htasks ht hwork
    rw [hpending, hloop, ← hspec]
    exact h.pending t' task₀ hwork₀
  nodup := hpending ▸ h.nodup
  apart := hloop ▸ hpending ▸ h.apart
  bounded p hp := by
    rw [htasks, List.length_modify]
    exact h.bounded p (hpending ▸ hp)
  drained hfinished t' task' hwork := by
    obtain ⟨task₀, hwork₀, -⟩ := working_of_modify htasks ht hwork
    exact h.drained (hloop ▸ hfinished) t' task₀ hwork₀

/-- What is not the tasks of the manager does not matter. -/
theorem OneTask.congr (h : s.OneTask) (htasks : s'.tasks = s.tasks)
    (hpending : s'.pending = s.pending) (hloop : s'.loop = s.loop) : s'.OneTask := by
  have hworking : ∀ t task, s'.Working t task ↔ s.Working t task := by
    intro t task
    rw [Working, Working, htasks]
  exact ⟨fun t task hwork => hpending ▸ hloop ▸ h.pending t task ((hworking t task).1 hwork),
    hpending ▸ h.nodup, hloop ▸ hpending ▸ h.apart, htasks ▸ hpending ▸ h.bounded,
    fun hfinished t task hwork =>
      h.drained (hloop ▸ hfinished) t task ((hworking t task).1 hwork)⟩

end Tasks

/-! ### The loop -/

theorem OneTask.pending_of_ne (h : s.OneTask)
    (hloop : ∀ event info prev, s.loop ≠ .handling event info prev) {t : ℕ} {task : RegisterTask}
    (ht : s.Working t task) : (task.spec.id, t) ∈ s.pending :=
  (h.pending t task ht).resolve_right fun ⟨_, _, hhandling, _⟩ => hloop _ _ _ hhandling

theorem OneTask.receive (h : s.OneTask) (hloop : s.loop = .receiving) (event : DiscoveryEvent)
    (info : ServerInfo) (queue : List Discovered) : (s.receive event info queue).OneTask := by
  have hrunning : (s.pending.filter fun p => !s.isFinished p.2).Sublist s.pending :=
    List.filter_sublist
  refine ⟨fun t task ht => ?_, ?_, ?_, fun p hp => ?_, by simp [WorkerManager.receive]⟩
  · have hwork : s.Working t task := ht
    have hp : (task.spec.id, t) ∈ s.pending.filter fun p => !s.isFinished p.2 :=
      List.mem_filter.2 ⟨h.pending_of_ne (by simp [hloop]) hwork, by simp [not_isFinished hwork]⟩
    by_cases hid : task.spec.id = event.worker
    · refine .inr ⟨event, info, ?_, hid.symm⟩
      obtain ⟨p, hfind⟩ : ∃ p, (s.pending.filter fun p => !s.isFinished p.2).find?
          (·.1 = event.worker) = some p :=
        Option.isSome_iff_exists.1 (List.find?_isSome.2 ⟨_, hp, by simpa using hid⟩)
      have hkey : p.1 = task.spec.id := by
        have hmatch := List.find?_some hfind
        simp only [decide_eq_true_eq] at hmatch
        exact hmatch.trans hid.symm
      have heq : p = (task.spec.id, t) :=
        List.inj_on_of_nodup_map ((hrunning.map Prod.fst).nodup h.nodup)
          (List.mem_of_find?_eq_some hfind) hp hkey
      simp only [WorkerManager.receive, hfind, heq, Option.map_some]
    · exact .inl (List.mem_filter.2 ⟨hp, by simpa using hid⟩)
  · exact ((List.filter_sublist.trans hrunning).map Prod.fst).nodup h.nodup
  · rintro event' info' prev heq hmem
    cases heq
    obtain ⟨p, hp, hkey⟩ := List.mem_map.1 hmem
    exact absurd hkey (by simpa using (List.mem_filter.1 hp).2)
  · exact h.bounded p (hrunning.subset (List.mem_filter.1 hp).1)

theorem OneTask.handle (h : s.OneTask) {event : DiscoveryEvent} {info : ServerInfo}
    {prev : Option ℕ} (hloop : s.loop = .handling event info prev)
    (hprev : prev.all s.isFinished = true) : (s.handle event info).OneTask := by
  have hpending : ∀ {t task}, s.Working t task → (task.spec.id, t) ∈ s.pending := by
    intro t task ht
    refine (h.pending t task ht).resolve_right fun ⟨event', info', hloop', hid⟩ => ?_
    rw [hloop] at hloop'
    cases hloop'
    exact h.idle hloop hprev ht hid.symm
  -- The other events leave the tasks alone.
  have hother : ∀ s' : WorkerManager, s'.tasks = s.tasks → s'.pending = s.pending →
      (∀ event info prev, s'.loop ≠ .handling event info prev) → s'.loop ≠ .finished →
      s'.OneTask := by
    intro s' htasks hp hhandling hfinished
    refine ⟨fun t task ht => .inl ?_, hp ▸ h.nodup,
      fun _ _ _ heq => absurd heq (hhandling _ _ _), htasks ▸ hp ▸ h.bounded,
      fun heq => absurd heq hfinished⟩
    rw [Working, htasks] at ht
    exact hp ▸ hpending ht
  cases event with
  | added spec =>
      refine ⟨fun t task ht => .inl ?_, ?_, by simp [WorkerManager.handle], fun p hp => ?_,
        by simp [WorkerManager.handle]⟩
      · obtain ⟨hget, hstage⟩ := ht
        obtain hlt | rfl | hgt := Nat.lt_trichotomy t s.tasks.length
        · rw [WorkerManager.handle, List.getElem?_append_left hlt] at hget
          exact List.mem_cons_of_mem _ (hpending ⟨hget, hstage⟩)
        · rw [WorkerManager.handle, List.getElem?_concat_length] at hget
          cases hget
          exact List.mem_cons_self
        · rw [WorkerManager.handle, List.getElem?_eq_none (by rw [List.length_append]; exact hgt)]
            at hget
          cases hget
      · exact List.nodup_cons.2 ⟨h.apart _ _ _ hloop, h.nodup⟩
      · show p.2 < (s.tasks ++ [_]).length
        rw [List.length_append]
        obtain rfl | hp := List.mem_cons.1 hp
        · exact Nat.lt_succ_self _
        · exact Nat.lt_succ_of_lt (h.bounded p hp)
  | removed id =>
      rw [WorkerManager.handle]
      cases hw : s.registry.byId id with
      | none => exact hother _ rfl rfl (by simp) (by simp)
      | some w => exact hother _ rfl rfl (by simp) (by simp)
  | modeChanged id mode =>
      exact hother _ rfl rfl (by simp [WorkerManager.handle]) (by simp [WorkerManager.handle])

theorem OneTask.loopStep (h : s.OneTask) : s.loopStep.OneTask := by
  rw [WorkerManager.loopStep]
  split
  · exact h.receive ‹_› _ _ _
  · rename_i hloop _
    exact ⟨fun t task ht => .inl (h.pending_of_ne (by simp [hloop]) ht), h.nodup, by simp,
      h.bounded, by simp⟩
  · rename_i hloop
    split_ifs with hprev
    · exact h.handle hloop hprev
    · exact h
  · rename_i hloop
    split_ifs
    · exact ⟨fun t task ht => .inl (h.pending_of_ne (by simp [hloop]) ht), h.nodup, by simp,
        h.bounded, by simp⟩
    · exact h
  · rename_i hloop
    split_ifs with hall
    · refine ⟨fun t task ht => .inl (h.pending_of_ne (by simp [hloop]) ht), h.nodup, by simp,
        h.bounded, fun _ t task ht => ?_⟩
      have hwork : s.Working t task := ht
      have hend := List.all_eq_true.1 hall _ (h.pending_of_ne (by simp [hloop]) hwork)
      rw [not_isFinished hwork] at hend
      cases hend
    · exact h
  · exact h

/-! ### The tasks -/

/-- What the task of a worker does when the worker has answered. -/
theorem register_cases (s : WorkerManager) (t : ℕ) : s.register t = s ∨
    ∃ spec info, s.tasks[t]? = some ⟨spec, info, .fetching⟩ ∧
      ((s.registry.add (resolve spec info)).1 = .ok () ∧
        s.register t =
          { s with registry := (s.registry.add (resolve spec info)).2 }.setStage t .registered ∨
      (s.registry.add (resolve spec info)).1 ≠ .ok () ∧ s.register t = s.setStage t .finished) := by
  cases hget : s.tasks[t]? with
  | none => exact .inl (by simp only [register, hget])
  | some task =>
      obtain ⟨spec, info, stage⟩ := task
      cases stage with
      | fetching =>
          refine .inr ⟨spec, info, rfl, ?_⟩
          obtain ⟨e, heq⟩ | ⟨heq, -⟩ := s.registry.add_cases (resolve spec info)
          · exact .inr ⟨by simp [heq], by simp only [register, hget, heq]⟩
          · exact .inl ⟨by rw [heq], by simp only [register, hget, heq]⟩
      | _ => exact .inl (by simp only [register, hget])

/-- What the task of a registered worker does. -/
theorem subscribe_cases (s : WorkerManager) (t : ℕ) (fetched : Option EventConfig) :
    s.subscribe t fetched = s ∨
    ∃ spec info, s.tasks[t]? = some ⟨spec, info, .registered⟩ ∧
      (s.subscribe t fetched = s.setStage t .finished ∨
      ∃ cfg, s.subscribe t fetched =
        { s with
          index := s.index.step (.callAdd s.nextCall spec.url cfg)
          nextCall := s.nextCall + 1 }.setStage t (.indexing s.nextCall)) := by
  cases hget : s.tasks[t]? with
  | none => exact .inl (by simp only [subscribe, hget])
  | some task =>
      obtain ⟨spec, info, stage⟩ := task
      cases stage with
      | registered =>
          refine .inr ⟨spec, info, rfl, ?_⟩
          cases hcfg : (info.eventConfig <|> fetched) with
          | none => exact .inl (by simp only [subscribe, hget, hcfg])
          | some cfg => exact .inr ⟨cfg, by simp only [subscribe, hget, hcfg]⟩
      | _ => exact .inl (by simp only [subscribe, hget])

/-- What the task of a worker does when the index has returned. -/
theorem finish_cases (s : WorkerManager) (t : ℕ) : s.finish t = s ∨
    ∃ spec info call, s.tasks[t]? = some ⟨spec, info, .indexing call⟩ ∧
      s.index.calls call = none ∧ s.finish t = s.setStage t .finished := by
  cases hget : s.tasks[t]? with
  | none => exact .inl (by simp only [finish, hget])
  | some task =>
      obtain ⟨spec, info, stage⟩ := task
      cases stage with
      | indexing call =>
          by_cases hcall : s.index.calls call = none
          · exact .inr ⟨spec, info, call, rfl, hcall, by simp only [finish, hget, if_pos hcall]⟩
          · exact .inl (by simp only [finish, hget, if_neg hcall])
      | _ => exact .inl (by simp only [finish, hget])

theorem OneTask.step (h : s.OneTask) (a : ManagerStep) : (s.step a).OneTask := by
  cases a with
  | loop => exact h.loopStep
  | register t =>
      rw [WorkerManager.step]
      obtain heq | ⟨spec, info, hget, ⟨-, heq⟩ | ⟨-, heq⟩⟩ := s.register_cases t
      · exact heq.symm ▸ h
      · exact heq.symm ▸ h.modify ⟨hget, by simp⟩ rfl rfl rfl
      · exact heq.symm ▸ h.modify ⟨hget, by simp⟩ rfl rfl rfl
  | subscribe t fetched =>
      rw [WorkerManager.step]
      obtain heq | ⟨spec, info, hget, heq | ⟨cfg, heq⟩⟩ := s.subscribe_cases t fetched
      · exact heq.symm ▸ h
      · exact heq.symm ▸ h.modify ⟨hget, by simp⟩ rfl rfl rfl
      · exact heq.symm ▸ h.modify ⟨hget, by simp⟩ rfl rfl rfl
  | returned t =>
      rw [WorkerManager.step]
      obtain heq | ⟨spec, info, call, hget, -, heq⟩ := s.finish_cases t
      · exact heq.symm ▸ h
      · exact heq.symm ▸ h.modify ⟨hget, by simp⟩ rfl rfl rfl
  | advance call order drained => exact h.congr rfl rfl rfl
  | select task message => exact h.congr rfl rfl rfl
  | send task => exact h.congr rfl rfl rfl
  | pump order now => exact h.congr rfl rfl rfl

/-! ### The registry -/

/-- The event that the loop has in hand. -/
def inHand (s : WorkerManager) : List Discovered :=
  match s.loop with
  | .handling event info _ => [(event, info)]
  | _ => []

/-- The worker is being asked. -/
def Asked (s : WorkerManager) (t : ℕ) (spec : WorkerSpec) (info : ServerInfo) : Prop :=
  s.tasks[t]? = some ⟨spec, info, .fetching⟩

/-- The events are handled in order, and the registry is what they make of it, but for the workers
that are being asked: these will be entered when they answer. -/
structure Linear (events : List Discovered) (s : WorkerManager) : Prop where
  order : s.handled ++ (s.inHand ++ s.queue) = events
  ended : s.loop = .draining ∨ s.loop = .finished → s.queue = []
  asked : ∀ t spec info, s.Asked t spec info →
    entryAfter spec.id s.handled = some (.new (resolve spec info))
  entered : ∀ id, (∀ t spec info, s.Asked t spec info → spec.id ≠ id) →
    s.registry.byId id = entryAfter id s.handled

variable {events : List Discovered} {s' : WorkerManager}

theorem Asked.working {t : ℕ} {spec : WorkerSpec} {info : ServerInfo} (h : s.Asked t spec info) :
    s.Working t ⟨spec, info, .fetching⟩ :=
  ⟨h, by simp⟩

/-- Nothing happens to the events and the registry. -/
theorem Linear.congr (h : s.Linear events) (hqueue : s'.queue = s.queue) (hloop : s'.loop = s.loop)
    (hhandled : s'.handled = s.handled) (hregistry : s'.registry = s.registry)
    (hasked : ∀ t spec info, s'.Asked t spec info ↔ s.Asked t spec info) : s'.Linear events where
  order := by
    rw [inHand, hloop, hhandled, hqueue]
    exact h.order
  ended := hloop ▸ hqueue ▸ h.ended
  asked t spec info ht := hhandled ▸ h.asked t spec info ((hasked t spec info).1 ht)
  entered id hid := by
    rw [hregistry, hhandled]
    exact h.entered id fun t spec info ht => hid t spec info ((hasked t spec info).2 ht)

/-- A task that has its answer moves on. -/
theorem asked_of_modify {t : ℕ} {task : RegisterTask} {stage : TaskStage}
    (htasks : s'.tasks = s.tasks.modify t ({ · with stage })) (hget : s.tasks[t]? = some task)
    (hstage : stage ≠ .fetching) (t' : ℕ) (spec : WorkerSpec) (info : ServerInfo) :
    s'.Asked t' spec info ↔ t' ≠ t ∧ s.Asked t' spec info := by
  rw [Asked, Asked, htasks, getElem?_modify_stage]
  by_cases heq : t = t'
  · subst heq
    rw [hget]
    simp [hstage]
  · simp [heq, Ne.symm heq]

theorem Linear.register (h : s.Linear events) {t : ℕ} (haccepts : s.Accepts (.register t)) :
    (s.register t).Linear events := by
  obtain heq | ⟨spec, info, hget, ⟨hok, heq⟩ | ⟨hrejected, -⟩⟩ := s.register_cases t
  · exact heq.symm ▸ h
  · have htasks : (s.register t).tasks =
        s.tasks.modify t (fun task => { task with stage := .registered }) := by
      rw [heq]
      rfl
    have hasked := asked_of_modify htasks hget (by simp)
    have hregistry : (s.register t).registry = (s.registry.add (resolve spec info)).2 := by
      rw [heq]
      rfl
    have hhandled : (s.register t).handled = s.handled := by
      rw [heq]
      rfl
    refine ⟨?_, ?_, fun t' spec' info' ht => ?_, fun id hid => ?_⟩
    · rw [inHand, heq]
      exact h.order
    · rw [heq]
      exact h.ended
    · rw [hhandled]
      exact h.asked t' spec' info' ((hasked t' spec' info').1 ht).2
    · rw [hregistry, hhandled, WorkerRegistry.byId_add hok, resolve_id]
      split_ifs with hspec
      · rw [hspec, h.asked t spec info hget]
      · refine h.entered id fun t' spec' info' ht => ?_
        by_cases htt : t' = t
        · subst htt
          have hsame := ht.symm.trans hget
          cases hsame
          exact Ne.symm hspec
        · exact hid t' spec' info' ((hasked t' spec' info').2 ⟨htt, ht⟩)
  · exact absurd (haccepts spec info hget) hrejected

/-- An event other than an added worker is done when it is handled. -/
theorem Linear.handled (h : s.Linear events) (hone : s.OneTask) {event : DiscoveryEvent}
    {info : ServerInfo} {prev : Option ℕ} (hloop : s.loop = .handling event info prev)
    (hprev : prev.all s.isFinished = true) (hevent : ∀ spec, event ≠ .added spec)
    (htasks : s'.tasks = s.tasks) (hqueue : s'.queue = s.queue)
    (hhandled : s'.handled = s.handled ++ [(event, info)]) (hhand : s'.inHand = [])
    (hended : s'.loop ≠ .draining ∧ s'.loop ≠ .finished)
    (hregistry : ∀ id, s'.registry.byId id = applyEntry id (s.registry.byId id) event) :
    s'.Linear events := by
  have hresolved : Discovered.resolved (event, info) = event := by
    cases event with
    | added spec => exact absurd rfl (hevent spec)
    | _ => rfl
  have hasked : ∀ t spec info', s'.Asked t spec info' ↔ s.Asked t spec info' := by
    intro t spec info'
    rw [Asked, Asked, htasks]
  refine ⟨?_, fun hend => (hend.elim hended.1 hended.2).elim, fun t spec info' ht => ?_,
    fun id hid => ?_⟩
  · have horder := h.order
    rw [inHand, hloop] at horder
    rw [hhandled, hhand, hqueue, ← horder]
    simp
  · have hother := hone.idle hloop hprev ((hasked t spec info').1 ht).working
    rw [hhandled, entryAfter_concat, applyEntry_of_ne (by rw [worker_resolved]; exact hother)]
    exact h.asked t spec info' ((hasked t spec info').1 ht)
  · rw [hregistry, hhandled, entryAfter_concat, hresolved, h.entered id fun t spec info' ht =>
      hid t spec info' ((hasked t spec info').2 ht)]

theorem Linear.handle (h : s.Linear events) (hone : s.OneTask) {event : DiscoveryEvent}
    {info : ServerInfo} {prev : Option ℕ} (hloop : s.loop = .handling event info prev)
    (hprev : prev.all s.isFinished = true) : (s.handle event info).Linear events := by
  cases event with
  | added spec =>
      have hcases : ∀ t spec' info', (s.handle (.added spec) info).Asked t spec' info' →
          s.Asked t spec' info' ∨ spec' = spec ∧ info' = info := by
        intro t spec' info' ht
        rw [Asked, WorkerManager.handle] at ht
        obtain hlt | rfl | hgt := Nat.lt_trichotomy t s.tasks.length
        · rw [List.getElem?_append_left hlt] at ht
          exact .inl ht
        · rw [List.getElem?_concat_length] at ht
          cases ht
          exact .inr ⟨rfl, rfl⟩
        · rw [List.getElem?_eq_none (by rw [List.length_append]; exact hgt)] at ht
          cases ht
      have hkept : ∀ t spec' info', s.Asked t spec' info' →
          (s.handle (.added spec) info).Asked t spec' info' := by
        intro t spec' info' ht
        obtain ⟨hlt, -⟩ := List.getElem?_eq_some_iff.1 ht
        exact (List.getElem?_append_left hlt).trans ht
      have hnew : (s.handle (.added spec) info).Asked s.tasks.length spec info :=
        List.getElem?_concat_length
      refine ⟨?_, by simp [WorkerManager.handle], fun t spec' info' ht => ?_, fun id hid => ?_⟩
      · have horder := h.order
        rw [inHand, hloop] at horder
        rw [← horder]
        simp [WorkerManager.handle, inHand]
      · show entryAfter spec'.id (s.handled ++ [(.added spec, info)]) = _
        rw [entryAfter_concat]
        obtain hold | ⟨rfl, rfl⟩ := hcases t spec' info' ht
        · rw [applyEntry_of_ne (by rw [worker_resolved]; exact hone.idle hloop hprev hold.working)]
          exact h.asked t spec' info' hold
        · exact if_pos (resolve_id spec' info').symm
      · have hne : id ≠ spec.id := (hid _ _ _ hnew).symm
        show s.registry.byId id = entryAfter id (s.handled ++ [(.added spec, info)])
        rw [entryAfter_concat, applyEntry_of_ne (by rw [worker_resolved]; exact hne)]
        exact h.entered id fun t spec' info' ht => hid t spec' info' (hkept t spec' info' ht)
  | removed id =>
      rw [WorkerManager.handle]
      cases hw : s.registry.byId id with
      | none =>
          exact h.handled hone hloop hprev (by simp) rfl rfl rfl rfl ⟨by simp, by simp⟩
            fun id' => WorkerRegistry.byId_remove id id'
      | some w =>
          exact h.handled hone hloop hprev (by simp) rfl rfl rfl rfl ⟨by simp, by simp⟩
            fun id' => WorkerRegistry.byId_remove id id'
  | modeChanged id mode =>
      refine h.handled hone hloop hprev (by simp) rfl rfl rfl rfl
        ⟨by simp [WorkerManager.handle], by simp [WorkerManager.handle]⟩ fun id' => ?_
      refine (WorkerRegistry.byId_changeMode_eq id mode id').trans ?_
      by_cases heq : id' = id
      · rw [if_pos heq, applyEntry, if_pos heq, heq]
      · rw [if_neg heq, applyEntry, if_neg heq]

theorem Linear.loopStep (h : s.Linear events) (hone : s.OneTask) : s.loopStep.Linear events := by
  have hhand : (∀ event info prev, s.loop ≠ .handling event info prev) → s.inHand = [] := by
    intro hnot
    rw [inHand]
    split
    · exact absurd ‹_› (hnot _ _ _)
    · rfl
  rw [WorkerManager.loopStep]
  split
  · rename_i event info queue hloop hqueue
    have horder := h.order
    rw [hhand (by simp [hloop]), hqueue] at horder
    exact ⟨horder, by simp [WorkerManager.receive], h.asked, h.entered⟩
  · rename_i hloop hqueue
    have horder := h.order
    rw [hhand (by simp [hloop])] at horder
    exact ⟨horder, fun _ => hqueue, h.asked, h.entered⟩
  · rename_i hloop
    split_ifs with hprev
    · exact h.handle hone hloop hprev
    · exact h
  · rename_i hloop
    have horder := h.order
    rw [hhand (by simp [hloop])] at horder
    split_ifs
    · exact ⟨horder, by simp, h.asked, h.entered⟩
    · exact h
  · rename_i hloop
    have horder := h.order
    rw [hhand (by simp [hloop])] at horder
    split_ifs
    · exact ⟨horder, fun _ => h.ended (.inl hloop), h.asked, h.entered⟩
    · exact h
  · exact h

/-- A task that has its answer already changes its stage. -/
theorem Linear.modify (h : s.Linear events) {t : ℕ} {task : RegisterTask} {stage : TaskStage}
    (hget : s.tasks[t]? = some task) (hbefore : task.stage ≠ .fetching) (hafter : stage ≠ .fetching)
    (htasks : s'.tasks = s.tasks.modify t ({ · with stage })) (hqueue : s'.queue = s.queue)
    (hloop : s'.loop = s.loop) (hhandled : s'.handled = s.handled)
    (hregistry : s'.registry = s.registry) : s'.Linear events := by
  refine h.congr hqueue hloop hhandled hregistry fun t' spec info => ?_
  rw [asked_of_modify htasks hget hafter]
  refine ⟨fun ht => ht.2, fun ht => ⟨?_, ht⟩⟩
  rintro rfl
  have hsame := ht.symm.trans hget
  cases hsame
  exact hbefore rfl

theorem Linear.step (h : s.Linear events) (hone : s.OneTask) {a : ManagerStep}
    (ha : s.Accepts a) : (s.step a).Linear events := by
  cases a with
  | loop => exact h.loopStep hone
  | register t => exact h.register ha
  | subscribe t fetched =>
      rw [WorkerManager.step]
      obtain heq | ⟨spec, info, hget, heq | ⟨cfg, heq⟩⟩ := s.subscribe_cases t fetched
      · exact heq.symm ▸ h
      · exact heq.symm ▸ h.modify hget (by simp) (by simp) rfl rfl rfl rfl rfl
      · exact heq.symm ▸ h.modify hget (by simp) (by simp) rfl rfl rfl rfl rfl
  | returned t =>
      rw [WorkerManager.step]
      obtain heq | ⟨spec, info, call, hget, -, heq⟩ := s.finish_cases t
      · exact heq.symm ▸ h
      · exact heq.symm ▸ h.modify hget (by simp) (by simp) rfl rfl rfl rfl rfl
  | advance call order drained => exact h.congr rfl rfl rfl rfl fun _ _ _ => Iff.rfl
  | select task message => exact h.congr rfl rfl rfl rfl fun _ _ _ => Iff.rfl
  | send task => exact h.congr rfl rfl rfl rfl fun _ _ _ => Iff.rfl
  | pump order now => exact h.congr rfl rfl rfl rfl fun _ _ _ => Iff.rfl

end WorkerManager

end SglangRs.Router
