import SglangRs.Router.ManagerOrder

/-!
# The subscriptions of the manager

The index is subscribed to a URL when it has an entry for it or a subscriber for one of its ranks.
The manager subscribes it to the workers that it enters into the registry, and unsubscribes it from
those that it removes. A worker that is entered again under another URL is not removed first, so
that its old URL stays subscribed; and a call of `remove_worker` that falls into a call of
`add_worker` for the same URL may leave subscribers behind that a later call does not find.

## Main definitions

* `IndexState.Served`: the entries of the index belong to URLs that are wanted, and the subscribers
  to the entries.
* `WorkerManager.Owned`: the calls of the index are those of the tasks and of the loop.

## Main results

* `IndexState.Served.step`: the steps of the index keep the subscriptions in order.
* `WorkerManager.discovery_linear`: the registry ends up as if the events had been handled one by
  one, and the index is subscribed to URLs of registered workers only, in runs in which no worker
  with a subscribed URL is replaced and no removal falls into a subscription.
-/

namespace SglangRs.Router

namespace IndexState

variable {s : IndexState} {wanted : String → Prop}

/-- A call of `remove_worker` has taken out the entry of the URL and has not drained its subscribers
yet. -/
def Removing (s : IndexState) (url : String) : Prop :=
  ∃ call ids, s.calls call = some (.remove url (.markDead ids)) ∨
    s.calls call = some (.remove url (.drain ids))

/-- The entries of the index belong to wanted URLs or are about to be taken out, and the subscribers
belong to entries or are about to be drained. -/
structure Served (wanted : String → Prop) (s : IndexState) : Prop where
  known : ∀ url, s.workers url ≠ none →
    wanted url ∨ ∃ call, s.calls call = some (.remove url .take)
  adding : ∀ call url cfg stage, s.calls call = some (.add url cfg stage) → wanted url
  served : ∀ h ∈ s.handles, s.workers h.1.url ≠ none ∨ s.Removing h.1.url
  starting : ∀ call url cfg, s.calls call = some (.add url cfg .subscribe) →
    s.workers url ≠ none ∨ s.Removing url

/-- A call of `remove_worker` does not drain the subscribers of a URL in a call of `add_worker`
whose entry it has taken out. -/
def KeepsEntries (s : IndexState) : IndexStep → Prop
  | .advance call _ _ => ∀ url ids, s.calls call = some (.remove url (.drain ids)) →
      ∀ call' cfg, s.calls call' = some (.add url cfg .subscribe) → s.workers url ≠ none
  | _ => True

/-! ### Steps of the index -/

section Steps

variable {id : ℕ} {url : String} {cfg : EventConfig}

theorem Served.congr (h : s.Served wanted) {s' : IndexState} (hworkers : s'.workers = s.workers)
    (hhandles : s'.handles = s.handles) (hcalls : s'.calls = s.calls) : s'.Served wanted := by
  obtain ⟨hknown, hadding, hserved, hstarting⟩ := h
  refine ⟨?_, ?_, ?_, ?_⟩ <;> simp only [Removing, hworkers, hhandles, hcalls] at * <;> assumption

/-- A call moves on to a stage that nothing depends on, from such a stage. -/
theorem Served.setCall (h : s.Served wanted) {s' : IndexState} {call : Call} {call' : Option Call}
    (hcall : s.calls id = some call) (hworkers : s'.workers = s.workers)
    (hhandles : s'.handles = s.handles) (hcalls : s'.calls = Function.update s.calls id call')
    (hold : ∀ url, (call = .remove url .take → s.workers url = none) ∧
      ∀ ids, call ≠ .remove url (.markDead ids) ∧ call ≠ .remove url (.drain ids))
    (hnew : ∀ url cfg stage, call' = some (.add url cfg stage) → stage ≠ .subscribe ∧
      ∃ stage', call = .add url cfg stage') : s'.Served wanted := by
  obtain ⟨hknown, hadding, hserved, hstarting⟩ := h
  refine ⟨?_, ?_, ?_, ?_⟩ <;>
    simp only [Removing, hworkers, hhandles, hcalls, Function.update_apply] at *
  · grind
  · grind
  · grind
  · grind

theorem subscribeRanks (ids : List KvWorkerId) :
    (ids.foldl subscribeRank s).workers = s.workers ∧ (ids.foldl subscribeRank s).calls = s.calls ∧
      ∀ h ∈ (ids.foldl subscribeRank s).handles, h ∈ s.handles ∨ h.1 ∈ ids := by
  induction ids generalizing s with
  | nil => exact ⟨rfl, rfl, fun h hh => .inl hh⟩
  | cons id ids ih =>
      obtain ⟨hworkers, hcalls, hhandles⟩ := ih (s := s.subscribeRank id)
      have hfirst : (s.subscribeRank id).workers = s.workers ∧
          (s.subscribeRank id).calls = s.calls ∧
          ∀ h ∈ (s.subscribeRank id).handles, h ∈ s.handles ∨ h.1 = id := by
        rw [subscribeRank]
        split_ifs
        · exact ⟨rfl, rfl, fun h hh => .inl hh⟩
        · refine ⟨rfl, rfl, fun h hh => ?_⟩
          obtain hh | hh := List.mem_append.1 hh
          · exact .inl hh
          · exact .inr (by rw [List.mem_singleton.1 hh])
      refine ⟨hworkers.trans hfirst.1, hcalls.trans hfirst.2.1, fun h hh => ?_⟩
      obtain hh | hh := hhandles h hh
      · obtain hh | rfl := hfirst.2.2 h hh
        · exact .inl hh
        · exact .inr List.mem_cons_self
      · exact .inr (List.mem_cons_of_mem _ hh)

theorem Served.register (h : s.Served wanted) (hcall : s.calls id = some (.add url cfg .register)) :
    (s.advanceAdd id url cfg .register).Served wanted := by
  obtain ⟨hknown, hadding, hserved, hstarting⟩ := h
  refine ⟨?_, ?_, ?_, ?_⟩ <;>
    simp only [Removing, advanceAdd, IndexState.setCall, Function.update_apply] at *
  · grind
  · grind
  · grind
  · grind

theorem Served.subscribe (h : s.Served wanted)
    (hcall : s.calls id = some (.add url cfg .subscribe)) :
    (s.advanceAdd id url cfg .subscribe).Served wanted := by
  obtain ⟨hworkers, hcalls, hhandles⟩ := subscribeRanks (s := s) (rankIds url cfg.dpRanks)
  obtain ⟨hknown, hadding, hserved, hstarting⟩ := h
  have hurl : ∀ w ∈ rankIds url cfg.dpRanks, w.url = url := by
    intro w hw
    obtain ⟨rank, -, rfl⟩ := List.mem_map.1 hw
    rfl
  have hnow := hstarting id url cfg hcall
  refine ⟨?_, ?_, ?_, ?_⟩ <;>
    simp only [Removing, advanceAdd, IndexState.setCall, Function.update_apply, hworkers,
      hcalls] at *
  · grind
  · grind
  · intro h hh
    obtain hh | hh := hhandles h hh
    · have := hserved h hh
      grind
    · rw [hurl h.1 hh]
      grind
  · grind

theorem Served.take (h : s.Served wanted) (hcall : s.calls id = some (.remove url .take))
    (order : IterationOrder) (drained : List (KvWorkerId × TaskId)) :
    (s.advanceRemove order drained id url .take).Served wanted := by
  rw [advanceRemove]
  cases hworkers : s.workers url with
  | none =>
      refine h.setCall hcall rfl rfl rfl (fun url' => ⟨?_, by simp⟩) (by simp)
      intro heq
      cases heq
      exact hworkers
  | some ranks =>
      obtain ⟨hknown, hadding, hserved, hstarting⟩ := h
      refine ⟨?_, ?_, ?_, ?_⟩ <;>
        simp only [Removing, IndexState.setCall, Function.update_apply] at *
      · grind
      · grind
      · intro h hh
        by_cases heq : h.1.url = url
        · exact .inr ⟨id, rankIds url ranks, .inl (by rw [if_pos rfl, heq])⟩
        · have hold := hserved h hh
          grind
      · intro call url' cfg hstart
        by_cases heq : url' = url
        · exact .inr ⟨id, rankIds url ranks, .inl (by rw [if_pos rfl, heq])⟩
        · have hold := hstarting call url' cfg
          grind

theorem Served.markDead (h : s.Served wanted) {ids : List KvWorkerId}
    (hcall : s.calls id = some (.remove url (.markDead ids))) (order : IterationOrder)
    (drained : List (KvWorkerId × TaskId)) :
    (s.advanceRemove order drained id url (.markDead ids)).Served wanted := by
  obtain ⟨hknown, hadding, hserved, hstarting⟩ := h
  refine ⟨?_, ?_, ?_, ?_⟩ <;>
    simp only [Removing, advanceRemove, IndexState.setCall, Function.update_apply] at *
  · grind
  · grind
  · grind
  · grind

theorem Served.drain (h : s.Served wanted) {ids : List KvWorkerId}
    (hcall : s.calls id = some (.remove url (.drain ids))) (order : IterationOrder)
    (drained : List (KvWorkerId × TaskId))
    (hkeeps : ∀ call cfg, s.calls call = some (.add url cfg .subscribe) → s.workers url ≠ none) :
    (s.advanceRemove order drained id url (.drain ids)).Served wanted := by
  rw [advanceRemove]
  split_ifs
  · obtain ⟨hknown, hadding, hserved, hstarting⟩ := h
    refine ⟨?_, ?_, ?_, ?_⟩ <;>
      simp only [Removing, IndexState.setCall, Function.update_apply, List.mem_filter,
        decide_eq_true_eq] at *
    · grind
    · grind
    · grind
    · grind
  · exact h

/-- The steps of the index that no call takes leave the entries, the subscribers and the calls. -/
theorem pumpStep_frame (order : IterationOrder) (now : ℕ) :
    (s.pumpStep order now).workers = s.workers ∧ (s.pumpStep order now).handles = s.handles ∧
      (s.pumpStep order now).calls = s.calls := by
  rw [pumpStep]
  repeat' split
  all_goals exact ⟨rfl, rfl, rfl⟩

theorem select_frame (t : TaskId) (message : Option Message) :
    (s.select t message).workers = s.workers ∧ (s.select t message).handles = s.handles ∧
      (s.select t message).calls = s.calls := by
  rw [select]
  repeat' split
  all_goals exact ⟨rfl, rfl, rfl⟩

theorem send_frame (t : TaskId) : (s.send t).workers = s.workers ∧
    (s.send t).handles = s.handles ∧ (s.send t).calls = s.calls := by
  rw [send]
  repeat' split
  all_goals exact ⟨rfl, rfl, rfl⟩

theorem Served.advanceAdd (h : s.Served wanted) {stage : AddStage}
    (hcall : s.calls id = some (.add url cfg stage)) :
    (s.advanceAdd id url cfg stage).Served wanted := by
  cases stage with
  | resolve =>
      rw [IndexState.advanceAdd]
      split
      · exact h.setCall hcall rfl rfl rfl (by simp) (by simp)
      · refine h.setCall hcall rfl rfl rfl (by simp) fun url' cfg' stage' heq => ?_
        split_ifs at heq
        cases heq
        exact ⟨by simp, _, rfl⟩
  | markLive =>
      refine h.setCall hcall rfl rfl rfl (by simp) fun url' cfg' stage' heq => ?_
      cases heq
      exact ⟨by simp, _, rfl⟩
  | register => exact h.register hcall
  | subscribe => exact h.subscribe hcall

theorem Served.advanceRemove (h : s.Served wanted) {stage : RemoveStage}
    (hcall : s.calls id = some (.remove url stage)) (order : IterationOrder)
    (drained : List (KvWorkerId × TaskId))
    (hkeeps : s.KeepsEntries (.advance id order drained)) :
    (s.advanceRemove order drained id url stage).Served wanted := by
  cases stage with
  | take => exact h.take hcall order drained
  | markDead ids => exact h.markDead hcall order drained
  | drain ids => exact h.drain hcall order drained (hkeeps url ids hcall)
  | join ids bound tasks =>
      cases tasks with
      | nil => exact h.setCall hcall rfl rfl rfl (by simp) (by simp)
      | cons head tasks =>
          rw [IndexState.advanceRemove]
          split
          · exact h
          · split_ifs
            · exact h.congr rfl rfl rfl
            · exact h.setCall hcall rfl rfl rfl (by simp) (by simp)
            · exact h
  | lockCursors ids bound =>
      rw [IndexState.advanceRemove]
      split_ifs
      · exact h.setCall hcall rfl rfl rfl (by simp) (by simp)
      · exact h
  | clear ids bound =>
      cases ids with
      | nil => exact h.setCall hcall rfl rfl rfl (by simp) (by simp)
      | cons worker ids => exact h.setCall hcall rfl rfl rfl (by simp) (by simp)

/-- The steps of the index keep the subscriptions in order. -/
theorem Served.step (h : s.Served wanted) {a : IndexStep} (hkeeps : s.KeepsEntries a)
    (ha : (∀ id url cfg, a ≠ .callAdd id url cfg) ∧ ∀ id url, a ≠ .callRemove id url) :
    (s.step a).Served wanted := by
  cases a with
  | callAdd id url cfg => exact absurd rfl (ha.1 id url cfg)
  | callRemove id url => exact absurd rfl (ha.2 id url)
  | advance id order drained =>
      rw [IndexState.step]
      split
      · exact h
      · exact h.advanceAdd ‹_›
      · exact h.advanceRemove ‹_› order drained hkeeps
  | select task message =>
      obtain ⟨hworkers, hhandles, hcalls⟩ := s.select_frame task message
      exact h.congr hworkers hhandles hcalls
  | send task =>
      obtain ⟨hworkers, hhandles, hcalls⟩ := s.send_frame task
      exact h.congr hworkers hhandles hcalls
  | pump order now =>
      obtain ⟨hworkers, hhandles, hcalls⟩ := s.pumpStep_frame order now
      exact h.congr hworkers hhandles hcalls

end Steps

/-! ### Calls -/

/-- What becomes of a call: it stays where it is, goes on or returns. -/
inductive Continues : Option Call → Option Call → Prop where
  | same (call : Option Call) : Continues call call
  | returned (call : Option Call) : Continues call none
  | add (url : String) (cfg : EventConfig) (stage stage' : AddStage) :
      Continues (some (.add url cfg stage)) (some (.add url cfg stage'))
  | remove (url : String) (stage stage' : RemoveStage) :
      Continues (some (.remove url stage)) (some (.remove url stage'))

theorem continues_of_eq {s' : IndexState} (h : s'.calls = s.calls) (id : ℕ) :
    Continues (s.calls id) (s'.calls id) := by
  rw [h]
  exact .same _

theorem continues_of_update {s' : IndexState} {id : ℕ} {call : Option Call}
    (h : s'.calls = Function.update s.calls id call) (hcall : Continues (s.calls id) call)
    (id' : ℕ) : Continues (s.calls id') (s'.calls id') := by
  rw [h]
  by_cases heq : id' = id
  · subst heq
    rw [Function.update_self]
    exact hcall
  · rw [Function.update_of_ne heq]
    exact .same _

theorem advanceAdd_calls {id : ℕ} {url : String} {cfg : EventConfig} {stage : AddStage}
    (hcall : s.calls id = some (.add url cfg stage)) (id' : ℕ) :
    Continues (s.calls id') ((s.advanceAdd id url cfg stage).calls id') := by
  cases stage with
  | resolve =>
      rw [advanceAdd]
      split
      · exact continues_of_update rfl (.returned _) id'
      · refine continues_of_update rfl ?_ id'
        split_ifs
        · exact .returned _
        · exact hcall ▸ .add ..
  | markLive => exact continues_of_update rfl (hcall ▸ .add ..) id'
  | register => exact continues_of_update rfl (hcall ▸ .add ..) id'
  | subscribe =>
      have hcalls : (s.advanceAdd id url cfg .subscribe).calls =
          Function.update s.calls id none := by
        rw [advanceAdd, IndexState.setCall, (subscribeRanks _).2.1]
      exact continues_of_update hcalls (.returned _) id'

theorem advanceRemove_calls {id : ℕ} {url : String} {stage : RemoveStage}
    (hcall : s.calls id = some (.remove url stage)) (order : IterationOrder)
    (drained : List (KvWorkerId × TaskId)) (id' : ℕ) :
    Continues (s.calls id') ((s.advanceRemove order drained id url stage).calls id') := by
  cases stage with
  | take =>
      rw [advanceRemove]
      split
      · exact continues_of_update rfl (.returned _) id'
      · exact continues_of_update rfl (hcall ▸ .remove ..) id'
  | markDead ids => exact continues_of_update rfl (hcall ▸ .remove ..) id'
  | drain ids =>
      rw [advanceRemove]
      split_ifs
      · exact continues_of_update rfl (hcall ▸ .remove ..) id'
      · exact .same _
  | join ids bound tasks =>
      cases tasks with
      | nil => exact continues_of_update rfl (hcall ▸ .remove ..) id'
      | cons head tasks =>
          rw [advanceRemove]
          split
          · exact .same _
          · split_ifs
            · exact .same _
            · exact continues_of_update rfl (hcall ▸ .remove ..) id'
            · exact .same _
  | lockCursors ids bound =>
      rw [advanceRemove]
      split_ifs
      · exact continues_of_update rfl (hcall ▸ .remove ..) id'
      · exact .same _
  | clear ids bound =>
      cases ids with
      | nil => exact continues_of_update rfl (.returned _) id'
      | cons worker ids => exact continues_of_update rfl (hcall ▸ .remove ..) id'

/-- A call of the index goes on as what it is, and no call begins by itself. -/
theorem calls_step {a : IndexStep}
    (ha : (∀ id url cfg, a ≠ .callAdd id url cfg) ∧ ∀ id url, a ≠ .callRemove id url) (id : ℕ) :
    Continues (s.calls id) ((s.step a).calls id) := by
  cases a with
  | callAdd id url cfg => exact absurd rfl (ha.1 id url cfg)
  | callRemove id url => exact absurd rfl (ha.2 id url)
  | advance id' order drained =>
      rw [step]
      split
      · exact .same _
      · exact advanceAdd_calls ‹_› id
      · exact advanceRemove_calls ‹_› order drained id
  | select task message => exact continues_of_eq (s.select_frame task message).2.2 id
  | send task => exact continues_of_eq (s.send_frame task).2.2 id
  | pump order now => exact continues_of_eq (s.pumpStep_frame order now).2.2 id

/-- The URLs that are wanted change. -/
theorem Served.mono (h : s.Served wanted) {wanted' : String → Prop}
    (hknown : ∀ url, s.workers url ≠ none → wanted url →
      wanted' url ∨ ∃ call, s.calls call = some (.remove url .take))
    (hadding : ∀ call url cfg stage, s.calls call = some (.add url cfg stage) → wanted' url) :
    s.Served wanted' where
  known url hurl := (h.known url hurl).elim (hknown url hurl) .inr
  adding := hadding
  served := h.served
  starting := h.starting

/-- A call of `add_worker` begins. -/
theorem Served.callAdd (h : s.Served wanted) {id : ℕ} (hid : s.calls id = none) {url : String}
    (hurl : wanted url) (cfg : EventConfig) : (s.step (.callAdd id url cfg)).Served wanted := by
  have hstep : s.step (.callAdd id url cfg) = s.setCall id (some (.add url cfg .resolve)) := by
    simp only [IndexState.step, hid]
  rw [hstep]
  obtain ⟨hknown, hadding, hserved, hstarting⟩ := h
  refine ⟨?_, ?_, ?_, ?_⟩ <;>
    simp only [Removing, IndexState.setCall, Function.update_apply] at hserved hstarting ⊢
  · grind
  · grind
  · grind
  · grind

/-- A call of `remove_worker` begins. -/
theorem Served.callRemove (h : s.Served wanted) {id : ℕ} (hid : s.calls id = none)
    (url : String) : (s.step (.callRemove id url)).Served wanted := by
  have hstep : s.step (.callRemove id url) = s.setCall id (some (.remove url .take)) := by
    simp only [IndexState.step, hid]
  rw [hstep]
  obtain ⟨hknown, hadding, hserved, hstarting⟩ := h
  refine ⟨?_, ?_, ?_, ?_⟩ <;>
    simp only [Removing, IndexState.setCall, Function.update_apply] at hserved hstarting ⊢
  · grind
  · grind
  · grind
  · grind

end IndexState

namespace WorkerManager

variable {s : WorkerManager}

/-- The calls of the index are those of the tasks and of the loop, and the worker of a task that has
entered it is registered with its URL. -/
structure Owned (s : WorkerManager) : Prop where
  adds : ∀ call url cfg stage, s.index.calls call = some (.add url cfg stage) →
    ∃ (t : ℕ) (spec : WorkerSpec) (info : ServerInfo),
      s.tasks[t]? = some ⟨spec, info, .indexing call⟩ ∧ spec.url = url
  removes : ∀ call url stage, s.index.calls call = some (.remove url stage) →
    s.loop = .unsubscribing call
  fresh : ∀ call, s.nextCall ≤ call → s.index.calls call = none
  entered : ∀ t task, s.Working t task → task.stage ≠ .fetching →
    ∃ w, s.registry.byId task.spec.id = some w ∧ w.url = task.spec.url

/-- The URL of a worker that the index is being subscribed to is that of a registered worker. -/
theorem Owned.registered (h : s.Owned) (call : ℕ) (url : String) (cfg : EventConfig)
    (stage : AddStage) (hcall : s.index.calls call = some (.add url cfg stage)) :
    s.Registered url := by
  obtain ⟨t, spec, info, hget, rfl⟩ := h.adds call url cfg stage hcall
  obtain ⟨w, hw, hurl⟩ := h.entered t _ ⟨hget, by simp⟩ (by simp)
  exact ⟨spec.id, w, hw, hurl⟩

/-! ### Steps of the index -/

theorem Owned.indexStep (h : s.Owned) {a : IndexStep}
    (ha : (∀ id url cfg, a ≠ .callAdd id url cfg) ∧ ∀ id url, a ≠ .callRemove id url) :
    (s.indexStep a).Owned where
  adds call url cfg stage hcall := by
    have hcont := IndexState.calls_step (s := s.index) ha call
    rw [WorkerManager.indexStep] at hcall
    rw [hcall] at hcont
    generalize hold : s.index.calls call = old at hcont
    cases hcont with
    | same => exact h.adds call url cfg stage hold
    | add => exact h.adds call url cfg _ hold
  removes call url stage hcall := by
    have hcont := IndexState.calls_step (s := s.index) ha call
    rw [WorkerManager.indexStep] at hcall
    rw [hcall] at hcont
    generalize hold : s.index.calls call = old at hcont
    cases hcont with
    | same => exact h.removes call url stage hold
    | remove => exact h.removes call url _ hold
  fresh call hle := by
    have hcont := IndexState.calls_step (s := s.index) ha call
    rw [h.fresh call hle] at hcont
    generalize hnew : (s.index.step a).calls call = new at hcont
    cases hcont with
    | same => exact hnew
    | returned => exact hnew
  entered := h.entered

/-! ### Steps of the loop -/

/-- The loop moves on, and no call is under way for it. -/
theorem Owned.of_loop (h : s.Owned) {s' : WorkerManager}
    (hloop : ∀ call, s.loop = .unsubscribing call → s.index.calls call = none)
    (hindex : s'.index = s.index) (htasks : s'.tasks = s.tasks)
    (hcall : s'.nextCall = s.nextCall) (hregistry : s'.registry = s.registry) : s'.Owned where
  adds := hindex ▸ htasks ▸ h.adds
  removes call url stage hc := by
    rw [hindex] at hc
    have hnone := hloop call (h.removes call url stage hc)
    rw [hc] at hnone
    cases hnone
  fresh := hindex ▸ hcall ▸ h.fresh
  entered t task ht := by
    rw [hregistry]
    rw [Working, htasks] at ht
    exact h.entered t task ht

/-- The workers of the tasks are left alone while the loop handles an event. -/
theorem Owned.entered_handle (h : s.Owned) (hone : s.OneTask) {event : DiscoveryEvent}
    {info : ServerInfo} {prev : Option ℕ} (hloop : s.loop = .handling event info prev)
    (hprev : prev.all s.isFinished = true) {r : WorkerRegistry}
    (hr : ∀ id, id ≠ event.worker → r.byId id = s.registry.byId id) (t : ℕ) (task : RegisterTask)
    (ht : s.Working t task) (hstage : task.stage ≠ .fetching) :
    ∃ w, r.byId task.spec.id = some w ∧ w.url = task.spec.url := by
  rw [hr _ (hone.idle hloop hprev ht)]
  exact h.entered t task ht hstage

theorem Owned.handle (h : s.Owned) (hone : s.OneTask) {event : DiscoveryEvent} {info : ServerInfo}
    {prev : Option ℕ} (hloop : s.loop = .handling event info prev)
    (hprev : prev.all s.isFinished = true) : (s.handle event info).Owned := by
  have hnocall : ∀ call url stage, s.index.calls call ≠ some (.remove url stage) := by
    intro call url stage hcall
    have hbad := h.removes call url stage hcall
    rw [hloop] at hbad
    cases hbad
  cases event with
  | added spec =>
      refine ⟨fun call url cfg stage hcall => ?_, fun call url stage hcall =>
        absurd hcall (hnocall call url stage), h.fresh, fun t task ht hstage => ?_⟩
      · obtain ⟨t, spec', info', hget, hurl⟩ := h.adds call url cfg stage hcall
        obtain ⟨hlt, -⟩ := List.getElem?_eq_some_iff.1 hget
        exact ⟨t, spec', info', (List.getElem?_append_left hlt).trans hget, hurl⟩
      · obtain ⟨hget, hworks⟩ := ht
        obtain hlt | rfl | hgt := Nat.lt_trichotomy t s.tasks.length
        · rw [WorkerManager.handle, List.getElem?_append_left hlt] at hget
          exact h.entered t task ⟨hget, hworks⟩ hstage
        · rw [WorkerManager.handle, List.getElem?_concat_length] at hget
          cases hget
          exact absurd rfl hstage
        · rw [WorkerManager.handle, List.getElem?_eq_none (by rw [List.length_append]; exact hgt)]
            at hget
          cases hget
  | removed id =>
      have hentered := h.entered_handle hone hloop hprev (r := s.registry.remove id)
        fun id' hid => (WorkerRegistry.byId_remove id id').trans (if_neg hid)
      rw [WorkerManager.handle]
      cases hw : s.registry.byId id with
      | none =>
          exact ⟨h.adds, fun call url stage hcall => absurd hcall (hnocall call url stage),
            h.fresh, hentered⟩
      | some w =>
          have hnone := h.fresh s.nextCall le_rfl
          have hcalls : (s.index.step (.callRemove s.nextCall w.url)).calls =
              Function.update s.index.calls s.nextCall (some (.remove w.url .take)) := by
            simp only [IndexState.step, hnone]
            rfl
          refine ⟨fun call url cfg stage hcall => ?_, fun call url stage hcall => ?_,
            fun call hle => ?_, hentered⟩
          · rw [hcalls, Function.update_apply] at hcall
            split_ifs at hcall
            · cases hcall
            · exact h.adds call url cfg stage hcall
          · rw [hcalls, Function.update_apply] at hcall
            split_ifs at hcall with heq
            · rw [heq]
            · exact absurd hcall (hnocall call url stage)
          · rw [hcalls, Function.update_of_ne (by grind)]
            exact h.fresh call (Nat.le_of_succ_le hle)
  | modeChanged id mode =>
      exact ⟨h.adds, fun call url stage hcall => absurd hcall (hnocall call url stage), h.fresh,
        h.entered_handle hone hloop hprev fun id' hid =>
          (WorkerRegistry.byId_changeMode_eq id mode id').trans (if_neg hid)⟩

theorem Owned.loopStep (h : s.Owned) (hone : s.OneTask) : s.loopStep.Owned := by
  rw [WorkerManager.loopStep]
  split
  · rename_i hloop hqueue
    exact h.of_loop (by simp [hloop]) rfl rfl rfl rfl
  · rename_i hloop hqueue
    exact h.of_loop (by simp [hloop]) rfl rfl rfl rfl
  · rename_i hloop
    split_ifs with hprev
    · exact h.handle hone hloop hprev
    · exact h
  · rename_i call hloop
    split_ifs with hcall
    · refine h.of_loop (fun call' heq => ?_) rfl rfl rfl rfl
      rw [hloop] at heq
      cases heq
      exact hcall
    · exact h
  · rename_i hloop
    split_ifs
    · exact h.of_loop (by simp [hloop]) rfl rfl rfl rfl
    · exact h
  · exact h

/-! ### Steps of the tasks -/

/-- A task of the list after a change of stage. -/
theorem getElem?_setStage {s' : WorkerManager} {t : ℕ} {stage : TaskStage}
    (htasks : s'.tasks = s.tasks.modify t ({ · with stage })) {t' : ℕ} {task' : RegisterTask}
    (hget : s'.tasks[t']? = some task') :
    ∃ task, s.tasks[t']? = some task ∧ task'.spec = task.spec ∧
      (t = t' ∧ task'.stage = stage ∨ t ≠ t' ∧ task' = task) := by
  rw [htasks, getElem?_modify_stage] at hget
  obtain ⟨task, hget₀, rfl⟩ := Option.map_eq_some_iff.1 hget
  refine ⟨task, hget₀, ?_, ?_⟩
  · split_ifs <;> rfl
  · by_cases heq : t = t'
    · exact .inl ⟨heq, by rw [if_pos heq]⟩
    · exact .inr ⟨heq, by rw [if_neg heq]⟩

/-- A task that no call is under way for, or whose call has returned, moves on. -/
theorem Owned.adds_of_modify (h : s.Owned) {s' : WorkerManager} {t : ℕ} {task : RegisterTask}
    {stage : TaskStage} (hget : s.tasks[t]? = some task)
    (hcall : ∀ call, task.stage = .indexing call → s.index.calls call = none)
    (htasks : s'.tasks = s.tasks.modify t ({ · with stage })) (call : ℕ) (url : String)
    (cfg : EventConfig) (astage : AddStage)
    (hadd : s.index.calls call = some (.add url cfg astage)) :
    ∃ (t : ℕ) (spec : WorkerSpec) (info : ServerInfo),
      s'.tasks[t]? = some ⟨spec, info, .indexing call⟩ ∧ spec.url = url := by
  obtain ⟨t', spec, info, hget', hurl⟩ := h.adds call url cfg astage hadd
  refine ⟨t', spec, info, ?_, hurl⟩
  rw [htasks, getElem?_modify_stage, hget', Option.map_some, if_neg]
  rintro rfl
  have hsame := hget.symm.trans hget'
  cases hsame
  have hnone := hcall call rfl
  rw [hadd] at hnone
  cases hnone

theorem Owned.register (h : s.Owned) (hone : s.OneTask) (t : ℕ) : (s.register t).Owned := by
  obtain heq | ⟨spec, info, hget, ⟨hok, heq⟩ | ⟨-, heq⟩⟩ := s.register_cases t
  · exact heq.symm ▸ h
  · rw [heq]
    refine ⟨h.adds_of_modify hget (by simp) rfl, h.removes, h.fresh,
      fun t' task' ht' hstage => ?_⟩
    show ∃ w, (s.registry.add (resolve spec info)).2.byId task'.spec.id = some w ∧ _
    rw [WorkerRegistry.byId_add hok, resolve_id]
    obtain ⟨task, hgett, hspec, ⟨rfl, -⟩ | ⟨hne, rfl⟩⟩ := getElem?_setStage rfl ht'.1
    · have hsame := hget.symm.trans hgett
      cases hsame
      rw [hspec, if_pos rfl]
      exact ⟨_, rfl, resolve_url spec info⟩
    · have hwork : s.Working t' task' := ⟨hgett, ht'.2⟩
      rw [if_neg fun hid => hne (hone.unique ⟨hget, by simp⟩ hwork hid.symm)]
      exact h.entered t' task' hwork hstage
  · rw [heq]
    refine ⟨h.adds_of_modify hget (by simp) rfl, h.removes, h.fresh,
      fun t' task' ht' hstage => ?_⟩
    obtain ⟨task, hgett, -, ⟨-, hfinished⟩ | ⟨-, rfl⟩⟩ := getElem?_setStage rfl ht'.1
    · exact absurd hfinished ht'.2
    · exact h.entered t' task' ⟨hgett, ht'.2⟩ hstage

theorem Owned.subscribe (h : s.Owned) (t : ℕ) (fetched : Option EventConfig) :
    (s.subscribe t fetched).Owned := by
  obtain heq | ⟨spec, info, hget, heq | ⟨cfg, heq⟩⟩ := s.subscribe_cases t fetched
  · exact heq.symm ▸ h
  · rw [heq]
    refine ⟨h.adds_of_modify hget (by simp) rfl, h.removes, h.fresh,
      fun t' task' ht' hstage => ?_⟩
    obtain ⟨task, hgett, -, ⟨-, hfinished⟩ | ⟨-, rfl⟩⟩ := getElem?_setStage rfl ht'.1
    · exact absurd hfinished ht'.2
    · exact h.entered t' task' ⟨hgett, ht'.2⟩ hstage
  · rw [heq]
    have hnone := h.fresh s.nextCall le_rfl
    have hcalls : (s.index.step (.callAdd s.nextCall spec.url cfg)).calls =
        Function.update s.index.calls s.nextCall (some (.add spec.url cfg .resolve)) := by
      simp only [IndexState.step, hnone]
      rfl
    refine ⟨fun call url cfg' stage hcall => ?_, fun call url stage hcall => ?_,
      fun call hle => ?_, fun t' task' ht' hstage => ?_⟩
    · have hcall' : Function.update s.index.calls s.nextCall (some (.add spec.url cfg .resolve))
          call = some (.add url cfg' stage) := hcalls ▸ hcall
      rw [Function.update_apply] at hcall'
      split_ifs at hcall' with hc
      · cases hcall'
        refine ⟨t, spec, info, ?_, rfl⟩
        show (s.tasks.modify t _)[t]? = _
        rw [getElem?_modify_stage, hget, Option.map_some, if_pos rfl, hc]
      · exact h.adds_of_modify hget (by simp) rfl call url cfg' stage hcall'
    · have hcall' : Function.update s.index.calls s.nextCall (some (.add spec.url cfg .resolve))
          call = some (.remove url stage) := hcalls ▸ hcall
      rw [Function.update_apply] at hcall'
      split_ifs at hcall' with hc
      · cases hcall'
      · exact h.removes call url stage hcall'
    · show (s.index.step (.callAdd s.nextCall spec.url cfg)).calls call = none
      have hlt : s.nextCall < call := hle
      rw [hcalls, Function.update_of_ne hlt.ne']
      exact h.fresh call hlt.le
    · obtain ⟨task, hgett, hspec, ⟨rfl, -⟩ | ⟨-, rfl⟩⟩ := getElem?_setStage rfl ht'.1
      · have hsame := hget.symm.trans hgett
        cases hsame
        rw [hspec]
        exact h.entered t _ ⟨hget, by simp⟩ (by simp)
      · exact h.entered t' task' ⟨hgett, ht'.2⟩ hstage

theorem Owned.finish (h : s.Owned) (t : ℕ) : (s.finish t).Owned := by
  obtain heq | ⟨spec, info, call, hget, hcall, heq⟩ := s.finish_cases t
  · exact heq.symm ▸ h
  · rw [heq]
    refine ⟨h.adds_of_modify hget (fun call' heq => ?_) rfl, h.removes, h.fresh,
      fun t' task' ht' hstage => ?_⟩
    · cases heq
      exact hcall
    · obtain ⟨task, hgett, -, ⟨-, hfinished⟩ | ⟨-, rfl⟩⟩ := getElem?_setStage rfl ht'.1
      · exact absurd hfinished ht'.2
      · exact h.entered t' task' ⟨hgett, ht'.2⟩ hstage

theorem Owned.step (h : s.Owned) (hone : s.OneTask) (a : ManagerStep) : (s.step a).Owned := by
  cases a with
  | loop => exact h.loopStep hone
  | register t => exact h.register hone t
  | subscribe t fetched => exact h.subscribe t fetched
  | returned t => exact h.finish t
  | advance call order drained => exact h.indexStep (by simp)
  | select task message => exact h.indexStep (by simp)
  | send task => exact h.indexStep (by simp)
  | pump order now => exact h.indexStep (by simp)

/-! ### The index and the registry -/

theorem served_handle (h : s.index.Served s.Registered) (howned : s.Owned) (hone : s.OneTask)
    {event : DiscoveryEvent} {info : ServerInfo} {prev : Option ℕ}
    (hloop : s.loop = .handling event info prev) (hprev : prev.all s.isFinished = true) :
    (s.handle event info).index.Served (s.handle event info).Registered := by
  have hadding := (howned.handle hone hloop hprev).registered
  cases event with
  | added spec => exact h
  | removed id =>
      rw [WorkerManager.handle] at hadding ⊢
      cases hw : s.registry.byId id with
      | none =>
          simp only [hw] at hadding ⊢
          refine h.mono (fun url _ hurl => .inl ?_) hadding
          obtain ⟨id', w, hget, rfl⟩ := hurl
          refine ⟨id', w, (WorkerRegistry.byId_remove id id').trans ?_, rfl⟩
          rw [if_neg, hget]
          rintro rfl
          rw [hw] at hget
          cases hget
      | some w =>
          simp only [hw] at hadding ⊢
          have hnone := howned.fresh s.nextCall le_rfl
          refine (h.callRemove hnone w.url).mono (fun url _ hurl => ?_) hadding
          obtain ⟨id', w', hget, rfl⟩ := hurl
          by_cases heq : w'.url = w.url
          · refine .inr ⟨s.nextCall, ?_⟩
            simp only [IndexState.step, hnone, IndexState.setCall, Function.update_self, heq]
          · refine .inl ⟨id', w', (WorkerRegistry.byId_remove id id').trans ?_, rfl⟩
            rw [if_neg, hget]
            rintro rfl
            rw [hw] at hget
            cases hget
            exact heq rfl
  | modeChanged id mode =>
      refine h.mono (fun url _ hurl => .inl ?_) hadding
      obtain ⟨id', w, hget, rfl⟩ := hurl
      by_cases heq : id' = id
      · subst heq
        refine ⟨id', w.setMode mode, (WorkerRegistry.byId_changeMode_eq ..).trans ?_, rfl⟩
        rw [if_pos rfl, hget, Option.map_some]
      · exact ⟨id', w, ((WorkerRegistry.byId_changeMode_eq ..).trans (if_neg heq)).trans hget, rfl⟩

theorem served_loopStep (h : s.index.Served s.Registered) (howned : s.Owned) (hone : s.OneTask) :
    s.loopStep.index.Served s.loopStep.Registered := by
  rw [WorkerManager.loopStep]
  split
  · exact h
  · exact h
  · split_ifs with hprev
    · exact served_handle h howned hone ‹_› hprev
    · exact h
  · split_ifs <;> exact h
  · split_ifs <;> exact h
  · exact h

theorem served_register (h : s.index.Served s.Registered) (howned : s.Owned) (hone : s.OneTask)
    {t : ℕ} (hkeeps : s.KeepsUrls (.register t)) :
    (s.register t).index.Served (s.register t).Registered := by
  have hadding := (howned.register hone t).registered
  obtain heq | ⟨spec, info, hget, ⟨hok, heq⟩ | ⟨-, heq⟩⟩ := s.register_cases t
  · rw [heq]
    exact h
  · rw [heq] at hadding ⊢
    refine h.mono (fun url hsub hurl => .inl ?_) hadding
    have hnew : ∀ id, (s.registry.add (resolve spec info)).2.byId id =
        if id = spec.id then some (.new (resolve spec info)) else s.registry.byId id := by
      intro id
      rw [WorkerRegistry.byId_add hok, resolve_id]
    obtain ⟨id', w, hw, rfl⟩ := hurl
    by_cases hid : id' = spec.id
    · subst hid
      by_cases hsame : w.url = spec.url
      · refine ⟨spec.id, .new (resolve spec info), (hnew _).trans (if_pos rfl), ?_⟩
        rw [hsame]
        exact resolve_url spec info
      · obtain ⟨id, w', hne, hw', hurl⟩ := hkeeps spec info w hget hw hsame (.inl hsub)
        exact ⟨id, w', ((hnew id).trans (if_neg hne)).trans hw', hurl⟩
    · exact ⟨id', w, ((hnew id').trans (if_neg hid)).trans hw, rfl⟩
  · rw [heq]
    exact h

theorem served_step (h : s.index.Served s.Registered) (howned : s.Owned) (hone : s.OneTask)
    {a : ManagerStep} (hurls : s.KeepsUrls a) (hentries : s.KeepsEntries a) :
    (s.step a).index.Served (s.step a).Registered := by
  cases a with
  | loop => exact served_loopStep h howned hone
  | register t => exact served_register h howned hone hurls
  | subscribe t fetched =>
      rw [WorkerManager.step]
      obtain heq | ⟨spec, info, hget, heq | ⟨cfg, heq⟩⟩ := s.subscribe_cases t fetched
      · rw [heq]
        exact h
      · rw [heq]
        exact h
      · rw [heq]
        obtain ⟨w, hw, hurl⟩ := howned.entered t _ ⟨hget, by simp⟩ (by simp)
        exact h.callAdd (howned.fresh s.nextCall le_rfl) ⟨spec.id, w, hw, hurl⟩ cfg
  | returned t =>
      rw [WorkerManager.step]
      obtain heq | ⟨spec, info, call, hget, hcall, heq⟩ := s.finish_cases t
      · rw [heq]
        exact h
      · rw [heq]
        exact h
  | advance call order drained =>
      exact h.step (a := .advance call order drained) hentries (by simp)
  | select task message => exact h.step (a := .select task message) trivial (by simp)
  | send task => exact h.step (a := .send task) trivial (by simp)
  | pump order now => exact h.step (a := .pump order now) trivial (by simp)

/-- When the manager has drained, no call of the index is under way. -/
theorem Owned.calls_eq_none (h : s.Owned) (hone : s.OneTask) (hdrained : s.Drained) (call : ℕ) :
    s.index.calls call = none := by
  rw [Drained] at hdrained
  cases hcall : s.index.calls call with
  | none => rfl
  | some c =>
      cases c with
      | add url cfg stage =>
          obtain ⟨t, spec, info, hget, -⟩ := h.adds call url cfg stage hcall
          exact (hone.drained hdrained t _ ⟨hget, by simp⟩).elim
      | remove url stage =>
          have hloop := h.removes call url stage hcall
          rw [hdrained] at hloop
          cases hloop

/-- When the manager has drained, the index is subscribed to URLs of registered workers only. -/
theorem registered_of_drained (h : s.index.Served s.Registered) (howned : s.Owned)
    (hone : s.OneTask) (hdrained : s.Drained) {url : String} (hsub : s.Subscribed url) :
    s.Registered url := by
  have hnone := howned.calls_eq_none hone hdrained
  have hworkers : s.index.workers url ≠ none := by
    obtain hworkers | ⟨h', hh, rfl⟩ := hsub
    · exact hworkers
    · refine (h.served h' hh).resolve_right ?_
      rintro ⟨call, ids, hcall | hcall⟩ <;> rw [hnone] at hcall <;> cases hcall
  refine (h.known url hworkers).resolve_right ?_
  rintro ⟨call, hcall⟩
  rw [hnone] at hcall
  cases hcall

/-- When the manager has drained, the registry is what the events make of it. -/
theorem Linear.byId_of_drained {events : List Discovered} (h : s.Linear events)
    (hone : s.OneTask) (hdrained : s.Drained) (id : WorkerId) :
    s.registry.byId id = entryAfter id events := by
  rw [Drained] at hdrained
  have hhandled : s.handled = events := by
    have horder := h.order
    rw [h.ended (.inr hdrained), inHand, hdrained] at horder
    simpa using horder
  rw [← hhandled]
  exact h.entered id fun t spec info ht => (hone.drained hdrained t _ ht.working).elim

/-! ### Runs -/

theorem oneTask_new (now : ℕ) (events : List Discovered) : (new now events).OneTask where
  pending t task ht := by simp [Working, new] at ht
  nodup := List.nodup_nil
  apart _ _ _ h := by cases h
  bounded p hp := by cases hp
  drained h := by cases h

theorem linear_new (now : ℕ) (events : List Discovered) : (new now events).Linear events where
  order := rfl
  ended h := by obtain h | h := h <;> cases h
  asked t spec info ht := by simp [Asked, new] at ht
  entered _ _ := rfl

theorem owned_new (now : ℕ) (events : List Discovered) : (new now events).Owned where
  adds _ _ _ _ h := by cases h
  removes _ _ _ h := by cases h
  fresh _ _ := rfl
  entered t task ht := by simp [Working, new] at ht

theorem served_new (now : ℕ) (events : List Discovered) :
    (new now events).index.Served (new now events).Registered where
  known _ h := absurd rfl h
  adding _ _ _ _ h := by cases h
  served _ h := by cases h
  starting _ _ _ h := by cases h

/-- The registry of a drained manager that has rejected no worker. -/
theorem byId_run (now : ℕ) (events : List Discovered) (steps : List ManagerStep)
    (haccepts : Transition.Along step Accepts (new now events) steps)
    (hdrained : ((new now events).run steps).Drained) (id : WorkerId) :
    ((new now events).run steps).registry.byId id = entryAfter id events := by
  obtain ⟨hlinear, hone⟩ := Transition.foldl_invariant
    (I := fun s => s.Linear events ∧ s.OneTask)
    (fun s a ha h => ⟨h.1.step h.2 ha, h.2.step a⟩) haccepts
    ⟨linear_new now events, oneTask_new now events⟩
  exact hlinear.byId_of_drained hone hdrained id

/-- **Discovery is linear.** When no worker is rejected, neither by the manager nor when the events
are handled one by one, the registry of the drained manager has the workers that the events handled
one by one leave, whenever the workers answer. If moreover no worker that the index knows loses its
URL to a new entry, and no subscription is taken out while it begins, then the index is subscribed
to URLs of registered workers only. -/
theorem discovery_linear (now : ℕ) (events : List Discovered) (steps : List ManagerStep)
    (hprocesses : Transition.Along WorkerRegistry.apply Processes .empty
      (events.map Discovered.resolved))
    (haccepts : Transition.Along step Accepts (new now events) steps)
    (hdrained : ((new now events).run steps).Drained) :
    ((new now events).run steps).registry.byId =
        (WorkerRegistry.empty.run (events.map Discovered.resolved)).byId ∧
      (Transition.Along step (fun s a => s.KeepsUrls a ∧ s.KeepsEntries a) (new now events) steps →
        ∀ url, ((new now events).run steps).Subscribed url →
          ((new now events).run steps).Registered url) := by
  refine ⟨?_, fun hkeeps url hsub => ?_⟩
  · funext id
    rw [byId_run now events steps haccepts hdrained, WorkerRegistry.byId_run hprocesses]
    rfl
  · obtain ⟨hserved, howned, hone⟩ := Transition.foldl_invariant
      (I := fun s => s.index.Served s.Registered ∧ s.Owned ∧ s.OneTask)
      (fun s a ha h => ⟨served_step h.1 h.2.1 h.2.2 ha.1 ha.2, h.2.1.step h.2.2 a, h.2.2.step a⟩)
      hkeeps ⟨served_new now events, owned_new now events, oneTask_new now events⟩
    exact registered_of_drained hserved howned hone hdrained hsub

/-- A plain worker. -/
def plainSpec (url : String) : WorkerSpec := ⟨⟨"w"⟩, url, .plain, [⟨"m"⟩], none⟩

/-- A worker that publishes events answers. -/
def publisherInfo : ServerInfo := ⟨none, some ⟨5000, 16, 1⟩, none⟩

/-- The loop handles an added worker, and its task runs to the end. -/
def addSteps (task call : ℕ) : List ManagerStep :=
  [.loop, .loop, .register task, .subscribe task none] ++
    List.replicate 4 (.advance call TreeState.ascending []) ++ [.returned task]

/-- The call drains the subscribers of a removed worker. -/
def drains : Call → Bool
  | .remove _ (.drain _) => true
  | _ => false

/-- No worker takes the place of another, and no subscribers are drained. -/
def Calm (s : WorkerManager) : ManagerStep → Prop
  | .register t => ∀ task ∈ s.tasks[t]?, s.registry.byId task.spec.id = none
  | .advance call _ _ => ∀ c ∈ s.index.calls call, drains c = false
  | _ => True

instance decidableCalm (s : WorkerManager) : (a : ManagerStep) → Decidable (s.Calm a)
  | .register t => inferInstanceAs (Decidable (∀ task ∈ s.tasks[t]?, _ = _))
  | .advance call _ _ => inferInstanceAs (Decidable (∀ c ∈ s.index.calls call, _ = _))
  | .loop | .subscribe _ _ | .returned _ | .select _ _ | .send _ | .pump _ _ => isTrue trivial

theorem Calm.keeps {a : ManagerStep} (h : s.Calm a) : s.KeepsUrls a ∧ s.KeepsEntries a := by
  cases a with
  | register t =>
      refine ⟨fun spec info w hget hw => ?_, trivial⟩
      rw [h _ hget] at hw
      cases hw
  | advance call order drained =>
      refine ⟨trivial, fun url ids hcall => ?_⟩
      cases h _ hcall
  | loop | subscribe | returned | select | send | pump => exact ⟨trivial, trivial⟩

/-- A worker is added, removed, and added again under another URL. -/
def returnEvents : List Discovered :=
  [(.added (plainSpec "http://a"), publisherInfo), (.removed ⟨"w"⟩, publisherInfo),
    (.added (plainSpec "http://b"), publisherInfo)]

/-- A lock section of the removal, with the subscribers that it drains. -/
def removeStep (drained : List (KvWorkerId × TaskId)) : ManagerStep :=
  .advance 1 TreeState.ascending drained

/-- The steps before the subscribers of the removed worker are drained. -/
def beforeDrain : List ManagerStep :=
  addSteps 0 0 ++ [.loop, .loop, removeStep [], removeStep []]

def drainStep : ManagerStep := removeStep [(⟨"http://a", 0⟩, 0)]

def returnSteps : List ManagerStep :=
  beforeDrain ++ drainStep :: removeStep [] :: .select 0 none :: List.replicate 5 (removeStep []) ++
    .loop :: addSteps 1 2 ++ [.loop, .loop]

/-- The theorem applied to a worker that comes back under another URL after it was removed: the
index is subscribed to the new URL, and to no URL of an unregistered worker. -/
theorem discovery_linear_of_return :
    ((new 0 returnEvents).run returnSteps).Subscribed "http://b" ∧
      ((new 0 returnEvents).run returnSteps).Registered "http://b" ∧
      ((new 0 returnEvents).run returnSteps).registry.byId =
        (WorkerRegistry.empty.run (returnEvents.map Discovered.resolved)).byId ∧
      ∀ url, ((new 0 returnEvents).run returnSteps).Subscribed url →
        ((new 0 returnEvents).run returnSteps).Registered url := by
  have hsubscribed : ((new 0 returnEvents).run returnSteps).Subscribed "http://b" :=
    .inl (by decide)
  have hdrained : ((new 0 returnEvents).run returnSteps).Drained := by
    rw [Drained]
    decide
  have hkeeps : Transition.Along step (fun s a => s.KeepsUrls a ∧ s.KeepsEntries a)
      (new 0 returnEvents) returnSteps := by
    have hcalm (s : WorkerManager) (steps : List ManagerStep)
        (h : Transition.Along step Calm s steps) :
        Transition.Along step (fun s a => s.KeepsUrls a ∧ s.KeepsEntries a) s steps :=
      h.imp fun _ _ => Calm.keeps
    refine (Transition.along_append (new 0 returnEvents) beforeDrain _).mpr
      ⟨hcalm _ _ (by decide), ⟨trivial, fun url ids _ call cfg hcall => ?_⟩, hcalm _ _ (by decide)⟩
    -- The registration of the first worker has returned, and the other call is the removal.
    rcases call with _ | _ | call <;> cases hcall
  obtain ⟨hregistry, hsub⟩ := discovery_linear 0 returnEvents returnSteps (by decide) (by decide)
    hdrained
  exact ⟨hsubscribed, hsub hkeeps _ hsubscribed, hregistry, hsub hkeeps⟩

/-- A worker comes back under another URL. -/
def movedEvents : List Discovered :=
  [(.added (plainSpec "http://a"), publisherInfo), (.added (plainSpec "http://b"), publisherInfo)]

def movedSteps : List ManagerStep := addSteps 0 0 ++ addSteps 1 1 ++ [.loop, .loop]

theorem url_of_entryAfter_moved {id : WorkerId} {w : Worker}
    (h : entryAfter id movedEvents = some w) : w.url = "http://b" := by
  by_cases hid : id = ⟨"w"⟩
  · have hentry : entryAfter id movedEvents = some (.new (plainSpec "http://b")) := by
      rw [hid]
      decide
    rw [hentry] at h
    cases h
    rfl
  · simp [movedEvents, plainSpec, publisherInfo, entryAfter, Discovered.resolved, resolve,
      applyEntry, hid] at h

/-- The index stays subscribed to the old URL of a worker that comes back under another. -/
theorem exists_stale_subscription :
    Transition.Along WorkerRegistry.apply Processes .empty (movedEvents.map Discovered.resolved) ∧
      Transition.Along step Accepts (new 0 movedEvents) movedSteps ∧
      ((new 0 movedEvents).run movedSteps).Drained ∧
      ((new 0 movedEvents).run movedSteps).Subscribed "http://a" ∧
      ¬((new 0 movedEvents).run movedSteps).Registered "http://a" := by
  have haccepts : Transition.Along step Accepts (new 0 movedEvents) movedSteps := by decide
  have hdrained : ((new 0 movedEvents).run movedSteps).Drained := by
    rw [Drained]
    decide
  refine ⟨by decide, haccepts, hdrained, .inl (by decide), ?_⟩
  rintro ⟨id, w, hw, hurl⟩
  have hentry := (byId_run 0 movedEvents movedSteps haccepts hdrained id).symm.trans hw
  exact absurd (hurl.symm.trans (url_of_entryAfter_moved hentry)) (by decide)

end WorkerManager

end SglangRs.Router
