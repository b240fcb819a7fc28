import SglangRs.Router.Index

/-!
# Removing a worker from the index

Once `remove_worker` has returned, nothing in the tree should speak of the worker, and no event that
one of its former subscribers sent should be applied any more. The pump however checks whether the
worker of an event is attached, and applies the event, in different lock sections; `add_worker`
replaces the list of ranks that a removal goes by; and an attached worker is recognised by its
identity alone, also after it has been removed and added again.

`IndexState.Orderly` excludes the steps at which these gaps open. In runs without them the removal
of a worker is final.

## Main definitions

* `IndexState.RemovalFinal`: what a removal promises.
* `IndexState.Orderly`: the condition on the steps.
* `IndexState.Consistent`: the invariant.

## Main results

* `IndexState.Consistent.step`: the invariant is kept.
* `IndexState.removal_final`: removals are final in runs of orderly steps.
-/

namespace SglangRs.Router

/-- The worker URL of a call. -/
def Call.url : Call → String
  | .add url _ _ => url
  | .remove url _ => url

/-- The ranks that a removal has taken and not cleared yet. -/
def RemoveStage.pending : RemoveStage → List KvWorkerId
  | .take => []
  | .markDead ids => ids
  | .drain ids => ids
  | .join ids _ _ => ids
  | .lockCursors ids _ => ids
  | .clear ids _ => ids

def Call.pending : Call → List KvWorkerId
  | .add _ _ _ => []
  | .remove _ stage => stage.pending

/-- The call is a removal that has taken its ranks. -/
def Call.Removes : Call → Prop
  | .add _ _ _ => False
  | .remove _ stage => stage ≠ .take

/-- The call has changed what the index knows about its URL. -/
def Call.Started : Call → Prop
  | .add _ _ stage => stage = .register ∨ stage = .subscribe
  | .remove _ stage => stage ≠ .take

/-- Nothing depends on the call being in flight. -/
def Call.Idle : Call → Prop
  | .add _ _ stage => stage ≠ .register
  | .remove _ stage => stage = .take ∨ ∃ bound, stage = .clear [] bound

theorem Call.Idle.pending_eq_nil {c : Call} (h : c.Idle) : c.pending = [] := by
  cases c with
  | add url cfg stage => rfl
  | remove url stage =>
    rcases h with rfl | ⟨bound, rfl⟩
    · rfl
    · rfl

theorem Call.Removes.started {c : Call} (h : c.Removes) : c.Started := by
  cases c with
  | add url cfg stage => exact h.elim
  | remove url stage => exact h

/-- A removal has noted the number of tasks that were spawned before. -/
def Call.Notes (c : Call) (bound : TaskId) : Prop :=
  ∃ url ids, (∃ tasks, c = .remove url (.join ids bound tasks)) ∨
    c = .remove url (.lockCursors ids bound) ∨ c = .remove url (.clear ids bound)

/-- The event that the pump has not checked yet. -/
def Pump.unchecked : Pump → List WorkerEvent
  | .received event => [event]
  | _ => []

/-- The worker whose event the pump has found attached, and the task that sent the event. -/
def Pump.working : Pump → Option (KvWorkerId × TaskId)
  | .checked event => some (event.worker, event.sender)
  | .applying worker sender _ _ => some (worker, sender)
  | _ => none

namespace IndexState

/-- The events that are still to be checked. -/
def queued (s : IndexState) : List WorkerEvent := s.pump.unchecked ++ s.channel

/-- The tree or a cursor speaks of the worker, or an event of it is being applied. -/
def Traces (s : IndexState) (w : KvWorkerId) : Prop :=
  (∃ blockHash, s.tree.Lists blockHash w) ∨ s.cursors w ≠ none ∨ ∃ t, s.pump.working = some (w, t)

/-- **What a removal promises.** After `remove_worker` returned, the pump writes for the worker only
on behalf of tasks that were spawned after the removal drained the handles; and as long as there are
none, that is until the worker is added again, no node lists a rank of it and no cursor is kept. -/
structure RemovalFinal (s : IndexState) : Prop where
  changes : s.log.Pairwise fun later earlier => ∀ w t bound,
    later = .changed w t → earlier = .removed w.url bound → bound ≤ t
  cleared : ∀ url bound, .removed url bound ∈ s.log →
    (∀ t task, s.tasks t = some task → task.worker.url = url → t < bound) →
    ∀ w, w.url = url → (∀ blockHash, ¬s.tree.Lists blockHash w) ∧ s.cursors w = none

/-- The steps at which a removal stays final:

* while a removal of a URL is under way, no other removal of it starts and no `add_worker` of it
  marks its ranks or has marked them;
* `add_worker` marks a rank that is not attached only when no event of the rank waits to be checked,
  and does not replace the ranks of a URL by fewer;
* a removal clears a rank only when the pump is not working on an event of the rank. -/
def Orderly (s : IndexState) : IndexStep → Prop
  | .advance id _ _ =>
      match s.calls id with
      | some (.add url cfg .markLive) =>
          (∀ id' c, s.calls id' = some c → c.url = url → ¬c.Removes) ∧
            ∀ w ∈ rankIds url cfg.dpRanks, w ∉ s.live → ∀ event ∈ s.queued, event.worker ≠ w
      | some (.add url cfg .register) =>
          ∀ ranks, s.workers url = some ranks → ∀ rank ∈ ranks, rank ∈ cfg.dpRanks
      | some (.remove url .take) =>
          ∀ id' c, s.calls id' = some c → c.url = url → c.Started → id' = id
      | some (.remove _ (.clear (w :: _) _)) => ∀ t, s.pump.working ≠ some (w, t)
      | _ => True
  | _ => True

/-! ### The invariant -/

/-- A rank that is marked belongs to the ranks of its URL, or to a call that is about to put it
there or has taken it from there. -/
def Attached (s : IndexState) (w : KvWorkerId) : Prop :=
  (∃ ranks, s.workers w.url = some ranks ∧ w.dpRank ∈ ranks) ∨
    (∃ id cfg, s.calls id = some (.add w.url cfg .register) ∧ w.dpRank ∈ cfg.dpRanks) ∨
    ∃ id ids, s.calls id = some (.remove w.url (.markDead ids)) ∧ w ∈ ids

/-- The handle of a task has not been drained. -/
def Registered (s : IndexState) (url : String) : Prop :=
  s.workers url ≠ none ∨ ∃ id ids, s.calls id = some (.remove url (.markDead ids)) ∨
    s.calls id = some (.remove url (.drain ids))

/-- A removal has taken the rank and not cleared it yet. -/
def Leaving (s : IndexState) (w : KvWorkerId) : Prop :=
  ∃ id c, s.calls id = some c ∧ w ∈ c.pending

/-- A removal waits for the task. -/
def Joining (s : IndexState) (url : String) (t : TaskId) : Prop :=
  ∃ id ids bound tasks, s.calls id = some (.remove url (.join ids bound tasks)) ∧ t ∈ tasks

/-- The invariant of the index in orderly runs. -/
structure Consistent (s : IndexState) : Prop where
  wellFormed : s.tree.WellFormed
  task_lt : ∀ t task, s.tasks t = some task → t < s.nextTask
  queued_sender : ∀ e ∈ s.queued, ∃ task, s.tasks e.sender = some task ∧ task.worker = e.worker
  working_sender : ∀ w t, s.pump.working = some (w, t) →
    ∃ task, s.tasks t = some task ∧ task.worker = w
  handle_task : ∀ w t, (w, t) ∈ s.handles → ∃ task, s.tasks t = some task ∧ task.worker = w
  bound_le : ∀ url bound, .removed url bound ∈ s.log → bound ≤ s.nextTask
  call_bound_le : ∀ id url ids bound,
    (∃ tasks, s.calls id = some (.remove url (.join ids bound tasks))) ∨
    s.calls id = some (.remove url (.lockCursors ids bound)) ∨
    s.calls id = some (.remove url (.clear ids bound)) → bound ≤ s.nextTask
  exclusive : ∀ id c id' c', s.calls id = some c → c.Removes → s.calls id' = some c' →
    c'.url = c.url → c'.Started → id' = id
  unregistered : ∀ id c, s.calls id = some c → c.Removes → s.workers c.url = none
  subscribing : ∀ id url cfg, s.calls id = some (.add url cfg .subscribe) → s.workers url ≠ none
  pending_url : ∀ id c, s.calls id = some c → ∀ w ∈ c.pending, w.url = c.url
  attached : ∀ w ∈ s.live, s.Attached w
  registered : ∀ w t, (w, t) ∈ s.handles → s.Registered w.url
  running : ∀ t task, s.tasks t = some task → task.phase ≠ .stopped →
    (task.worker, t) ∈ s.handles ∨ s.Joining task.worker.url t
  traced : ∀ w, s.Traces w → w ∈ s.live ∨ s.Leaving w
  stale_dead : ∀ e ∈ s.queued, ∀ bound, .removed e.worker.url bound ∈ s.log →
    e.sender < bound → e.worker ∉ s.live
  working_fresh : ∀ w t bound, s.pump.working = some (w, t) → .removed w.url bound ∈ s.log →
    bound ≤ t
  running_fresh : ∀ t task bound, s.tasks t = some task → task.phase ≠ .stopped →
    .removed task.worker.url bound ∈ s.log → bound ≤ t
  traced_fresh : ∀ w bound, s.Traces w → .removed w.url bound ∈ s.log →
    ∃ t task, s.tasks t = some task ∧ task.worker.url = w.url ∧ bound ≤ t
  changes : s.log.Pairwise fun later earlier => ∀ w t bound,
    later = .changed w t → earlier = .removed w.url bound → bound ≤ t

namespace Consistent

variable {s : IndexState}

theorem removalFinal (h : s.Consistent) : s.RemovalFinal := by
  refine ⟨h.changes, fun url bound hlog hnone w hw => ?_⟩
  have htraces : ¬s.Traces w := by
    intro htraces
    obtain ⟨t, task, htask, hurl, hle⟩ := h.traced_fresh w bound htraces (hw ▸ hlog)
    exact absurd (hnone t task htask (hurl.trans hw)) (not_lt.mpr hle)
  refine ⟨fun blockHash hlists => htraces (.inl ⟨blockHash, hlists⟩), ?_⟩
  by_contra hcursor
  exact htraces (.inr (.inl hcursor))

theorem new (now : ℕ) : (IndexState.new now).Consistent := by
  have hlists (blockHash : Int64) (w : KvWorkerId) : ¬(TreeState.new now).Lists blockHash w := by
    rw [(TreeState.represents_new (fun _ => none) now).lists_iff]
    exact Finset.notMem_empty blockHash
  have htraces (w : KvWorkerId) : ¬(IndexState.new now).Traces w := by
    rintro (⟨blockHash, h⟩ | h | ⟨t, h⟩)
    · exact hlists blockHash w h
    · exact h rfl
    · simp [IndexState.new, Pump.working] at h
  refine ⟨TreeState.wellFormed_new now, ?_, ?_, ?_, ?_, ?_, ?_, ?_, ?_, ?_, ?_, ?_, ?_, ?_,
    fun w h => absurd h (htraces w), ?_, ?_, ?_, fun w _ h => absurd h (htraces w), .nil⟩
  all_goals simp [IndexState.new, queued, Pump.unchecked, Pump.working]

variable {id : ℕ} {url : String} {cfg : EventConfig} {ids : List KvWorkerId} {bound : TaskId}
  {event : WorkerEvent} {worker : KvWorkerId} {sender : TaskId} {seq : Int64}
  {events : List KvCacheEvent}

/-! ### Calls that go on -/

theorem calls_setCall {call : Option Call} {c : Call} {id' : ℕ}
    (h : (s.setCall id call).calls id' = some c) :
    id' = id ∧ call = some c ∨ id' ≠ id ∧ s.calls id' = some c := by
  by_cases hid : id' = id
  · exact .inl ⟨hid, by simpa [setCall, hid] using h⟩
  · exact .inr ⟨hid, by simpa [setCall, hid] using h⟩

theorem calls_setCall_of_ne {call : Option Call} {c : Call} {id' : ℕ}
    (h : s.calls id' = some c) (hid : id' ≠ id) : (s.setCall id call).calls id' = some c := by
  simpa [setCall, hid] using h

theorem calls_setCall_self (s : IndexState) (call : Option Call) :
    (s.setCall id call).calls id = call := by
  simp [setCall]

/-- A call that nothing depends on ends or begins. -/
theorem call (h : s.Consistent) {call : Option Call}
    (hold : ∀ c, s.calls id = some c → c.Idle)
    (hnew : ∀ c, call = some c → ¬c.Started ∧ c.Idle) : (s.setCall id call).Consistent := by
  have hbefore {id' : ℕ} {c : Call} (hc : (s.setCall id call).calls id' = some c)
      (hc' : c.Started ∨ ¬c.Idle) : s.calls id' = some c := by
    rcases calls_setCall hc with ⟨-, heq⟩ | ⟨-, hc⟩
    · obtain ⟨hstarted, hidle⟩ := hnew c heq
      exact absurd hc' (not_or.mpr ⟨hstarted, not_not_intro hidle⟩)
    · exact hc
  have hafter {id' : ℕ} {c : Call} (hc : s.calls id' = some c) (hidle : ¬c.Idle) :
      (s.setCall id call).calls id' = some c := by
    refine calls_setCall_of_ne hc ?_
    rintro rfl
    exact hidle (hold c hc)
  have hpending {c : Call} {w : KvWorkerId} (hw : w ∈ c.pending) : ¬c.Idle := fun hidle => by
    simp [hidle.pending_eq_nil] at hw
  exact { h with
    call_bound_le := fun id' url' ids b hc => h.call_bound_le id' url' ids b <| by
      rcases hc with ⟨tasks, hc⟩ | hc | hc
      · exact .inl ⟨tasks, hbefore hc (.inl nofun)⟩
      · exact .inr (.inl (hbefore hc (.inl nofun)))
      · exact .inr (.inr (hbefore hc (.inl nofun)))
    exclusive := fun id₁ c₁ id₂ c₂ hc₁ hremoves hc₂ hurl hstarted =>
      h.exclusive id₁ c₁ id₂ c₂ (hbefore hc₁ (.inl hremoves.started)) hremoves
        (hbefore hc₂ (.inl hstarted)) hurl hstarted
    unregistered := fun id' c hc hremoves =>
      h.unregistered id' c (hbefore hc (.inl hremoves.started)) hremoves
    subscribing := fun id' url' cfg hc =>
      h.subscribing id' url' cfg (hbefore hc (.inl (.inr rfl)))
    pending_url := fun id' c hc w hw => h.pending_url id' c (hbefore hc (.inr (hpending hw))) w hw
    attached := fun w hw => by
      rcases h.attached w hw with hranks | ⟨id', cfg, hc, hmem⟩ | ⟨id', ids, hc, hmem⟩
      · exact .inl hranks
      · exact .inr (.inl ⟨id', cfg, hafter hc (by simp [Call.Idle]), hmem⟩)
      · exact .inr (.inr ⟨id', ids, hafter hc (by simp [Call.Idle]), hmem⟩)
    registered := fun w t hmem => by
      rcases h.registered w t hmem with hworkers | ⟨id', ids, hc | hc⟩
      · exact .inl hworkers
      · exact .inr ⟨id', ids, .inl (hafter hc (by simp [Call.Idle]))⟩
      · exact .inr ⟨id', ids, .inr (hafter hc (by simp [Call.Idle]))⟩
    running := fun t task ht hphase => (h.running t task ht hphase).imp_right
      fun ⟨id', ids, b, tasks, hc, hmem⟩ =>
        ⟨id', ids, b, tasks, hafter hc (by simp [Call.Idle]), hmem⟩
    traced := fun w hw => (h.traced w hw).imp_right fun ⟨id', c, hc, hmem⟩ =>
      ⟨id', c, hafter hc (hpending hmem), hmem⟩ }

section GoesOn

variable {c c' : Call} {stage stage' : RemoveStage}

/-- The ranks to be cleared are ranks of the URL of the call. -/
theorem pending_url_setCall (h : s.Consistent)
    (hpending : ∀ w ∈ c'.pending, w.url = c'.url) (id₁ : ℕ) (c₁ : Call)
    (hc₁ : (s.setCall id (some c')).calls id₁ = some c₁) : ∀ w ∈ c₁.pending, w.url = c₁.url := by
  rcases calls_setCall hc₁ with ⟨-, heq⟩ | ⟨-, hold⟩
  · exact Option.some.inj heq ▸ hpending
  · exact h.pending_url id₁ c₁ hold

theorem call_bound_le_setCall (h : s.Consistent) (hbound : ∀ b, c'.Notes b → b ≤ s.nextTask)
    (id₁ : ℕ) (url₁ : String) (ids : List KvWorkerId) (b : TaskId)
    (hc₁ : (∃ tasks, (s.setCall id (some c')).calls id₁ =
        some (.remove url₁ (.join ids b tasks))) ∨
      (s.setCall id (some c')).calls id₁ = some (.remove url₁ (.lockCursors ids b)) ∨
      (s.setCall id (some c')).calls id₁ = some (.remove url₁ (.clear ids b))) :
    b ≤ s.nextTask := by
  by_cases hid : id₁ = id
  · simp only [hid, calls_setCall_self, Option.some.injEq] at hc₁
    exact hbound b ⟨url₁, ids, hc₁⟩
  · refine h.call_bound_le id₁ url₁ ids b ?_
    simpa [setCall, hid] using hc₁

/-- A rank that is about to be cleared stays so unless the call drops it. -/
theorem leaving_setCall (hc : s.calls id = some c) {w : KvWorkerId}
    (hpending : w ∈ c.pending → w ∈ c'.pending) (hw : s.Leaving w) :
    (s.setCall id (some c')).Leaving w := by
  obtain ⟨id₁, c₁, hc₁, hmem⟩ := hw
  by_cases hid : id₁ = id
  · subst hid
    obtain rfl := Option.some.inj (hc.symm.trans hc₁)
    exact ⟨id₁, c', calls_setCall_self .., hpending hmem⟩
  · exact ⟨id₁, c₁, calls_setCall_of_ne hc₁ hid, hmem⟩

/-- A task that a removal waits for is waited for until it is joined. -/
theorem joining_setCall (hc : s.calls id = some c) {url' : String} {t : TaskId}
    (hjoin : ∀ ids b tasks, c = .remove url' (.join ids b tasks) → t ∈ tasks →
      ∃ ids' b' tasks', c' = .remove url' (.join ids' b' tasks') ∧ t ∈ tasks')
    (hw : s.Joining url' t) : (s.setCall id (some c')).Joining url' t := by
  obtain ⟨id₁, ids, b, tasks, hc₁, hmem⟩ := hw
  by_cases hid : id₁ = id
  · subst hid
    obtain ⟨ids', b', tasks', rfl, hmem'⟩ :=
      hjoin ids b tasks (Option.some.inj (hc.symm.trans hc₁)) hmem
    exact ⟨id₁, ids', b', tasks', calls_setCall_self .., hmem'⟩
  · exact ⟨id₁, ids, b, tasks, calls_setCall_of_ne hc₁ hid, hmem⟩

/-- A rank that belongs to a call that is not the given one still does. -/
theorem attached_setCall (hc : s.calls id = some c) {w : KvWorkerId}
    (hadd : ∀ cfg, c ≠ .add w.url cfg .register)
    (hremove : ∀ ids, c = .remove w.url (.markDead ids) → w ∉ ids) (hw : s.Attached w) :
    (s.setCall id (some c')).Attached w := by
  rcases hw with hranks | ⟨id₁, cfg, hc₁, hmem⟩ | ⟨id₁, ids, hc₁, hmem⟩
  · exact .inl hranks
  · have hid : id₁ ≠ id := by
      rintro rfl
      exact hadd cfg (Option.some.inj (hc.symm.trans hc₁))
    exact .inr (.inl ⟨id₁, cfg, calls_setCall_of_ne hc₁ hid, hmem⟩)
  · have hid : id₁ ≠ id := by
      rintro rfl
      exact hremove ids (Option.some.inj (hc.symm.trans hc₁)) hmem
    exact .inr (.inr ⟨id₁, ids, calls_setCall_of_ne hc₁ hid, hmem⟩)

/-- The handles of a URL wait to be drained until the call drains them. -/
theorem registered_setCall (hc : s.calls id = some c) {url' : String}
    (hdrain : ∀ ids, c = .remove url' (.markDead ids) ∨ c = .remove url' (.drain ids) →
      ∃ ids', c' = .remove url' (.drain ids'))
    (hw : s.Registered url') : (s.setCall id (some c')).Registered url' := by
  rcases hw with hworkers | ⟨id₁, ids, hc₁⟩
  · exact .inl hworkers
  by_cases hid : id₁ = id
  · subst hid
    simp only [hc, Option.some.injEq] at hc₁
    obtain ⟨ids', rfl⟩ := hdrain ids hc₁
    exact .inr ⟨id₁, ids', .inr (calls_setCall_self ..)⟩
  · exact .inr ⟨id₁, ids, hc₁.imp (calls_setCall_of_ne · hid) (calls_setCall_of_ne · hid)⟩

/-- A removal that goes on is still the only call that has changed its URL, -/
theorem exclusive_goesOn (h : s.Consistent) (hc : s.calls id = some (.remove url stage))
    (hstage : stage ≠ .take) (id₁ : ℕ) (c₁ : Call) (id₂ : ℕ) (c₂ : Call)
    (hc₁ : (s.setCall id (some (.remove url stage'))).calls id₁ = some c₁) (hremoves : c₁.Removes)
    (hc₂ : (s.setCall id (some (.remove url stage'))).calls id₂ = some c₂)
    (hurl : c₂.url = c₁.url) (hstarted : c₂.Started) : id₂ = id₁ := by
  rcases calls_setCall hc₁ with ⟨rfl, ⟨⟩⟩ | ⟨-, hold₁⟩
  · rcases calls_setCall hc₂ with ⟨rfl, -⟩ | ⟨-, hold₂⟩
    · rfl
    · exact h.exclusive _ _ id₂ c₂ hc hstage hold₂ hurl hstarted
  · rcases calls_setCall hc₂ with ⟨rfl, ⟨⟩⟩ | ⟨-, hold₂⟩
    · exact h.exclusive id₁ c₁ _ _ hold₁ hremoves hc hurl hstage
    · exact h.exclusive id₁ c₁ id₂ c₂ hold₁ hremoves hold₂ hurl hstarted

/-- the URL still has no ranks, -/
theorem unregistered_goesOn (h : s.Consistent) (hc : s.calls id = some (.remove url stage))
    (hstage : stage ≠ .take) (id₁ : ℕ) (c₁ : Call)
    (hc₁ : (s.setCall id (some (.remove url stage'))).calls id₁ = some c₁)
    (hremoves : c₁.Removes) : s.workers c₁.url = none := by
  rcases calls_setCall hc₁ with ⟨-, ⟨⟩⟩ | ⟨-, hold⟩
  · exact h.unregistered id (.remove url stage) hc hstage
  · exact h.unregistered id₁ c₁ hold hremoves

/-- and the calls of `add_worker` have not changed. -/
theorem subscribing_goesOn (h : s.Consistent) (id₁ : ℕ) (url₁ : String) (cfg : EventConfig)
    (hc₁ : (s.setCall id (some (.remove url stage'))).calls id₁ =
      some (.add url₁ cfg .subscribe)) : s.workers url₁ ≠ none := by
  rcases calls_setCall hc₁ with ⟨-, heq⟩ | ⟨-, hold⟩
  · cases heq
  · exact h.subscribing id₁ url₁ cfg hold

end GoesOn

/-- The lock of the cursors and the block size do not matter. -/
theorem lock (h : s.Consistent) (cursorsLock : Option ℕ) (oracle : BlockSizeOracle) :
    Consistent { s with cursorsLock, oracle } := by
  obtain ⟨hwf, hlt, hqueued, hworking, hhandle, hbound, hcall, hexcl, hunreg, hsub, hpend, hatt,
    hreg, hrun, htraced, hstale, hwfresh, hrfresh, htfresh, hchanges⟩ := h
  exact ⟨hwf, hlt, hqueued, hworking, hhandle, hbound, hcall, hexcl, hunreg, hsub, hpend, hatt,
    hreg, hrun, htraced, hstale, hwfresh, hrfresh, htfresh, hchanges⟩

theorem markLive (h : s.Consistent)
    (hc : s.calls id = some (.add url cfg .markLive))
    (hnone : ∀ id' c, s.calls id' = some c → c.url = url → ¬c.Removes)
    (hquiet : ∀ w ∈ rankIds url cfg.dpRanks, w ∉ s.live → ∀ event ∈ s.queued, event.worker ≠ w) :
    (s.advanceAdd id url cfg .markLive).Consistent :=
  { h with
    call_bound_le := h.call_bound_le_setCall (by simp [Call.Notes])
    exclusive := fun id₁ c₁ id₂ c₂ hc₁ hremoves hc₂ hurl hstarted => by
      rcases calls_setCall hc₁ with ⟨-, ⟨⟩⟩ | ⟨-, hold₁⟩
      · exact hremoves.elim
      rcases calls_setCall hc₂ with ⟨-, ⟨⟩⟩ | ⟨-, hold₂⟩
      · exact absurd hremoves (hnone id₁ c₁ hold₁ hurl.symm)
      · exact h.exclusive id₁ c₁ id₂ c₂ hold₁ hremoves hold₂ hurl hstarted
    unregistered := fun id₁ c₁ hc₁ hremoves => by
      rcases calls_setCall hc₁ with ⟨-, ⟨⟩⟩ | ⟨-, hold⟩
      · exact hremoves.elim
      · exact h.unregistered id₁ c₁ hold hremoves
    subscribing := fun id₁ url₁ cfg₁ hc₁ => by
      rcases calls_setCall hc₁ with ⟨-, heq⟩ | ⟨-, hold⟩
      · simp at heq
      · exact h.subscribing id₁ url₁ cfg₁ hold
    pending_url := h.pending_url_setCall nofun
    attached := fun w hw => by
      rcases Finset.mem_union.mp hw with hw | hw
      · exact attached_setCall hc nofun nofun (h.attached w hw)
      · obtain ⟨rank, hrank, rfl⟩ := List.mem_map.mp (List.mem_toFinset.mp hw)
        exact .inr (.inl ⟨id, cfg, calls_setCall_self .., hrank⟩)
    registered := fun w t hmem => registered_setCall hc (by simp) (h.registered w t hmem)
    running := fun t task ht hphase =>
      (h.running t task ht hphase).imp_right (joining_setCall hc nofun)
    traced := fun w hw =>
      (h.traced w hw).imp (Finset.mem_union_left _ ·) (leaving_setCall hc nofun)
    stale_dead := fun e he b hb hlt hmem => by
      rcases Finset.mem_union.mp hmem with hmem | hmem
      · exact h.stale_dead e he b hb hlt hmem
      · exact hquiet e.worker (List.mem_toFinset.mp hmem) (h.stale_dead e he b hb hlt) e he rfl }

theorem register (h : s.Consistent)
    (hc : s.calls id = some (.add url cfg .register))
    (hranks : ∀ ranks, s.workers url = some ranks → ∀ rank ∈ ranks, rank ∈ cfg.dpRanks) :
    (s.advanceAdd id url cfg .register).Consistent := by
  have hworkers {url' : String} (hne : s.workers url' ≠ none) :
      Function.update s.workers url (some cfg.dpRanks) url' ≠ none := by
    by_cases hurl : url' = url
    · simp [hurl]
    · simpa [hurl] using hne
  exact { h with
    call_bound_le := h.call_bound_le_setCall (by simp [Call.Notes])
    exclusive := fun id₁ c₁ id₂ c₂ hc₁ hremoves hc₂ hurl hstarted => by
      rcases calls_setCall hc₁ with ⟨-, ⟨⟩⟩ | ⟨-, hold₁⟩
      · exact hremoves.elim
      rcases calls_setCall hc₂ with ⟨rfl, ⟨⟩⟩ | ⟨-, hold₂⟩
      · exact h.exclusive id₁ c₁ _ _ hold₁ hremoves hc hurl (.inl rfl)
      · exact h.exclusive id₁ c₁ id₂ c₂ hold₁ hremoves hold₂ hurl hstarted
    unregistered := fun id₁ c₁ hc₁ hremoves => by
      rcases calls_setCall hc₁ with ⟨-, ⟨⟩⟩ | ⟨hne, hold⟩
      · exact hremoves.elim
      · have hurl : c₁.url ≠ url := fun hurl =>
          hne (h.exclusive id₁ c₁ id _ hold hremoves hc hurl.symm (.inl rfl)).symm
        change Function.update s.workers url (some cfg.dpRanks) c₁.url = none
        rw [Function.update_of_ne hurl]
        exact h.unregistered id₁ c₁ hold hremoves
    subscribing := fun id₁ url₁ cfg₁ hc₁ => by
      rcases calls_setCall hc₁ with ⟨-, ⟨⟩⟩ | ⟨-, hold⟩
      · change Function.update s.workers url (some cfg.dpRanks) url ≠ none
        simp
      · exact hworkers (h.subscribing id₁ url₁ cfg₁ hold)
    pending_url := h.pending_url_setCall nofun
    attached := fun w hw => by
      have hnow (hurl : w.url = url) (hmem : w.dpRank ∈ cfg.dpRanks) :
          (s.advanceAdd id url cfg .register).Attached w := by
        refine .inl ⟨cfg.dpRanks, ?_, hmem⟩
        change Function.update s.workers url (some cfg.dpRanks) w.url = some cfg.dpRanks
        simp [hurl]
      rcases h.attached w hw with ⟨ranks, hranks', hmem⟩ | ⟨id', cfg', hc', hmem⟩ |
        ⟨id', ids, hc', hmem⟩
      · by_cases hurl : w.url = url
        · exact hnow hurl (hranks ranks (hurl ▸ hranks') _ hmem)
        · refine .inl ⟨ranks, ?_, hmem⟩
          change Function.update s.workers url (some cfg.dpRanks) w.url = some ranks
          rwa [Function.update_of_ne hurl]
      · by_cases hid : id' = id
        · obtain ⟨hurl, rfl⟩ : url = w.url ∧ cfg = cfg' := by simpa [hid, hc] using hc'
          exact hnow hurl.symm hmem
        · exact .inr (.inl ⟨id', cfg', calls_setCall_of_ne hc' hid, hmem⟩)
      · have hid : id' ≠ id := by rintro rfl; simp [hc] at hc'
        exact .inr (.inr ⟨id', ids, calls_setCall_of_ne hc' hid, hmem⟩)
    registered := fun w t hmem => by
      rcases h.registered w t hmem with hne | ⟨id', ids, hc'⟩
      · exact .inl (hworkers hne)
      · have hid : id' ≠ id := by rintro rfl; simp [hc] at hc'
        exact .inr ⟨id', ids, hc'.imp (calls_setCall_of_ne · hid) (calls_setCall_of_ne · hid)⟩
    running := fun t task ht hphase =>
      (h.running t task ht hphase).imp_right (joining_setCall hc nofun)
    traced := fun w hw => (h.traced w hw).imp_right (leaving_setCall hc nofun) }

theorem take (h : s.Consistent) {ranks : List UInt32}
    (hc : s.calls id = some (.remove url .take))
    (hworkers : s.workers url = some ranks)
    (halone : ∀ id' c, s.calls id' = some c → c.url = url → c.Started → id' = id) :
    ({ s with workers := Function.update s.workers url none }.setCall id
      (some (.remove url (.markDead (rankIds url ranks))))).Consistent := by
  have hother {url' : String} (hurl : url' ≠ url) :
      Function.update s.workers url none url' = s.workers url' := Function.update_of_ne hurl ..
  exact { h with
    call_bound_le := h.call_bound_le_setCall (by simp [Call.Notes])
    exclusive := fun id₁ c₁ id₂ c₂ hc₁ hremoves hc₂ hurl hstarted => by
      rcases calls_setCall hc₁ with ⟨rfl, ⟨⟩⟩ | ⟨-, hold₁⟩
      · rcases calls_setCall hc₂ with ⟨rfl, -⟩ | ⟨-, hold₂⟩
        · rfl
        · exact halone id₂ c₂ hold₂ hurl hstarted
      · rcases calls_setCall hc₂ with ⟨rfl, ⟨⟩⟩ | ⟨-, hold₂⟩
        · exact (halone id₁ c₁ hold₁ hurl.symm hremoves.started).symm
        · exact h.exclusive id₁ c₁ id₂ c₂ hold₁ hremoves hold₂ hurl hstarted
    unregistered := fun id₁ c₁ hc₁ hremoves => by
      change Function.update s.workers url none c₁.url = none
      rcases calls_setCall hc₁ with ⟨-, ⟨⟩⟩ | ⟨hne, hold⟩
      · exact Function.update_self ..
      · rw [hother fun hurl => hne (halone id₁ c₁ hold hurl hremoves.started)]
        exact h.unregistered id₁ c₁ hold hremoves
    subscribing := fun id₁ url₁ cfg₁ hc₁ => by
      change Function.update s.workers url none url₁ ≠ none
      rcases calls_setCall hc₁ with ⟨-, heq⟩ | ⟨hne, hold⟩
      · cases heq
      · have hurl : url₁ ≠ url := fun hurl => hne (halone id₁ _ hold hurl (.inr rfl))
        rw [hother hurl]
        exact h.subscribing id₁ url₁ cfg₁ hold
    pending_url := h.pending_url_setCall fun w hw => by
      obtain ⟨rank, -, rfl⟩ := List.mem_map.mp hw
      rfl
    attached := fun w hw => by
      rcases h.attached w hw with ⟨ranks', hranks', hmem⟩ | ⟨id', cfg, hc', hmem⟩ |
        ⟨id', ids, hc', hmem⟩
      · by_cases hurl : w.url = url
        · obtain rfl : ranks = ranks' := Option.some.inj (hworkers.symm.trans (hurl ▸ hranks'))
          subst hurl
          refine .inr (.inr ⟨id, rankIds w.url ranks, calls_setCall_self .., ?_⟩)
          exact List.mem_map.mpr ⟨w.dpRank, hmem, rfl⟩
        · exact .inl ⟨ranks', (hother hurl).trans hranks', hmem⟩
      · have hid : id' ≠ id := by rintro rfl; simp [hc] at hc'
        exact .inr (.inl ⟨id', cfg, calls_setCall_of_ne hc' hid, hmem⟩)
      · have hid : id' ≠ id := by rintro rfl; simp [hc] at hc'
        exact .inr (.inr ⟨id', ids, calls_setCall_of_ne hc' hid, hmem⟩)
    registered := fun w t hmem => by
      by_cases hurl : w.url = url
      · subst hurl
        exact .inr ⟨id, rankIds w.url ranks, .inl (calls_setCall_self ..)⟩
      rcases h.registered w t hmem with hne | ⟨id', ids, hc'⟩
      · left
        change Function.update s.workers url none w.url ≠ none
        rwa [hother hurl]
      · have hid : id' ≠ id := by rintro rfl; simp [hc] at hc'
        exact .inr ⟨id', ids, hc'.imp (calls_setCall_of_ne · hid) (calls_setCall_of_ne · hid)⟩
    running := fun t task ht hphase =>
      (h.running t task ht hphase).imp_right (joining_setCall hc nofun)
    traced := fun w hw => (h.traced w hw).imp_right (leaving_setCall hc nofun) }

theorem markDead (h : s.Consistent)
    (hc : s.calls id = some (.remove url (.markDead ids))) :
    ({ s with live := s.live \ ids.toFinset }.setCall id
      (some (.remove url (.drain ids)))).Consistent := by
  have hlive {w : KvWorkerId} : w ∈ s.live \ ids.toFinset ↔ w ∈ s.live ∧ w ∉ ids := by simp
  exact { h with
    call_bound_le := h.call_bound_le_setCall (by simp [Call.Notes])
    exclusive := h.exclusive_goesOn hc nofun
    unregistered := h.unregistered_goesOn hc nofun
    subscribing := h.subscribing_goesOn
    pending_url := h.pending_url_setCall (h.pending_url id (.remove url (.markDead ids)) hc)
    attached := fun w hw => by
      obtain ⟨hw, hids⟩ := hlive.mp hw
      refine attached_setCall hc nofun ?_ (h.attached w hw)
      rintro _ ⟨⟩
      exact hids
    registered := fun w t hmem => by
      refine registered_setCall hc ?_ (h.registered w t hmem)
      rintro _ (heq | heq)
      · exact ⟨ids, by rw [(Call.remove.inj heq).1]⟩
      · cases (Call.remove.inj heq).2
    running := fun t task ht hphase =>
      (h.running t task ht hphase).imp_right (joining_setCall hc nofun)
    traced := fun w hw => by
      rcases h.traced w hw with hmarked | hleaving
      · by_cases hids : w ∈ ids
        · exact .inr ⟨id, _, calls_setCall_self .., hids⟩
        · exact .inl (hlive.mpr ⟨hmarked, hids⟩)
      · exact .inr (leaving_setCall hc (fun hmem => hmem) hleaving)
    stale_dead := fun e he b hb hlt hmem => h.stale_dead e he b hb hlt (hlive.mp hmem).1 }

theorem drain (h : s.Consistent) {drained : List (KvWorkerId × TaskId)}
    (hc : s.calls id = some (.remove url (.drain ids)))
    (hdrained : drained.Perm (s.handles.filter (·.1.url = url))) :
    ({ s with handles := s.handles.filter (·.1.url ≠ url) }.setCall id
      (some (.remove url (.join ids s.nextTask (drained.map Prod.snd))))).Consistent := by
  have hhandles {w : KvWorkerId} {t : TaskId} :
      (w, t) ∈ s.handles.filter (·.1.url ≠ url) ↔ (w, t) ∈ s.handles ∧ w.url ≠ url := by simp
  exact { h with
    handle_task := fun w t hmem => h.handle_task w t (hhandles.mp hmem).1
    call_bound_le := h.call_bound_le_setCall (by simp +contextual [Call.Notes])
    exclusive := h.exclusive_goesOn hc nofun
    unregistered := h.unregistered_goesOn hc nofun
    subscribing := h.subscribing_goesOn
    pending_url := h.pending_url_setCall (h.pending_url id (.remove url (.drain ids)) hc)
    attached := fun w hw => attached_setCall hc nofun nofun (h.attached w hw)
    registered := fun w t hmem => by
      obtain ⟨hmem, hurl⟩ := hhandles.mp hmem
      refine registered_setCall hc ?_ (h.registered w t hmem)
      rintro _ (heq | heq)
      · exact absurd (Call.remove.inj heq).1.symm hurl
      · exact absurd (Call.remove.inj heq).1.symm hurl
    running := fun t task ht hphase => by
      rcases h.running t task ht hphase with hmem | hjoining
      · by_cases hurl : task.worker.url = url
        · subst hurl
          refine .inr ⟨id, ids, s.nextTask, _, calls_setCall_self .., ?_⟩
          refine List.mem_map.mpr ⟨(task.worker, t), hdrained.mem_iff.mpr ?_, rfl⟩
          exact List.mem_filter.mpr ⟨hmem, by simp⟩
        · exact .inl (hhandles.mpr ⟨hmem, hurl⟩)
      · exact .inr (joining_setCall hc nofun hjoining)
    traced := fun w hw => (h.traced w hw).imp_right (leaving_setCall hc fun hmem => hmem) }

/-- A removal goes on to a later stage. -/
theorem advance (h : s.Consistent) {stage stage' : RemoveStage}
    (hc : s.calls id = some (.remove url stage)) (hstage : stage ≠ .take)
    (hmark : ∀ ids, stage ≠ .markDead ids) (hdrain : ∀ ids, stage ≠ .drain ids)
    (hjoin : ∀ ids b tasks, stage = .join ids b tasks → ∀ t ∈ tasks, ∀ task, s.tasks t = some task →
      task.phase ≠ .stopped → ∃ ids' b' tasks', stage' = .join ids' b' tasks' ∧ t ∈ tasks')
    (hpending : stage'.pending = stage.pending)
    (hbound : ∀ b, (Call.remove url stage').Notes b → b ≤ s.nextTask) :
    (s.setCall id (some (.remove url stage'))).Consistent :=
  { h with
    call_bound_le := h.call_bound_le_setCall hbound
    exclusive := h.exclusive_goesOn hc hstage
    unregistered := h.unregistered_goesOn hc hstage
    subscribing := h.subscribing_goesOn
    pending_url := h.pending_url_setCall fun w hw => by
      rw [Call.pending, hpending] at hw
      exact h.pending_url id (.remove url stage) hc w hw
    attached := fun w hw => attached_setCall hc nofun
      (fun ids heq => absurd (Call.remove.inj heq).2 (hmark ids)) (h.attached w hw)
    registered := fun w t hmem => by
      refine registered_setCall hc ?_ (h.registered w t hmem)
      rintro ids (heq | heq)
      · exact absurd (Call.remove.inj heq).2 (hmark ids)
      · exact absurd (Call.remove.inj heq).2 (hdrain ids)
    running := fun t task ht hphase => by
      refine (h.running t task ht hphase).imp_right (joining_setCall hc ?_)
      rintro ids b tasks ⟨⟩ hmem
      obtain ⟨ids', b', tasks', rfl, hmem'⟩ := hjoin ids b tasks rfl t hmem task ht hphase
      exact ⟨ids', b', tasks', rfl, hmem'⟩
    traced := fun w hw => by
      refine (h.traced w hw).imp_right (leaving_setCall hc fun hmem => ?_)
      rw [Call.pending, hpending]
      exact hmem }

/-- A task changes, other than from stopped to running. -/
theorem setTask (h : s.Consistent) {t : TaskId} {task task' : Task}
    (ht : s.tasks t = some task) (hworker : task'.worker = task.worker)
    (hphase : task.phase = .stopped → task'.phase = .stopped) :
    (s.setTask t task').Consistent := by
  have hkeep {t₁ : TaskId} {task₁ : Task} (ht₁ : s.tasks t₁ = some task₁) :
      ∃ task₂, (s.setTask t task').tasks t₁ = some task₂ ∧ task₂.worker = task₁.worker := by
    by_cases hid : t₁ = t
    · subst hid
      obtain rfl := Option.some.inj (ht.symm.trans ht₁)
      exact ⟨task', by simp [IndexState.setTask], hworker⟩
    · exact ⟨task₁, by simpa [IndexState.setTask, hid] using ht₁, rfl⟩
  have hold {t₁ : TaskId} {task₂ : Task} (ht₁ : (s.setTask t task').tasks t₁ = some task₂) :
      ∃ task₁, s.tasks t₁ = some task₁ ∧ task₂.worker = task₁.worker ∧
        (task₁.phase = .stopped → task₂.phase = .stopped) := by
    by_cases hid : t₁ = t
    · subst hid
      obtain rfl : task' = task₂ := by simpa [IndexState.setTask] using ht₁
      exact ⟨task, ht, hworker, hphase⟩
    · exact ⟨task₂, by simpa [IndexState.setTask, hid] using ht₁, rfl, fun h => h⟩
  exact { h with
    task_lt := fun t₁ task₂ ht₁ => by
      obtain ⟨task₁, ht₁, -, -⟩ := hold ht₁
      exact h.task_lt t₁ task₁ ht₁
    queued_sender := fun e he => by
      obtain ⟨task₁, ht₁, hw⟩ := h.queued_sender e he
      exact hw ▸ hkeep ht₁
    working_sender := fun w t₁ hwork => by
      obtain ⟨task₁, ht₁, hw⟩ := h.working_sender w t₁ hwork
      exact hw ▸ hkeep ht₁
    handle_task := fun w t₁ hmem => by
      obtain ⟨task₁, ht₁, hw⟩ := h.handle_task w t₁ hmem
      exact hw ▸ hkeep ht₁
    running := fun t₁ task₂ ht₁ hrunning => by
      obtain ⟨task₁, ht₁, hw, hstopped⟩ := hold ht₁
      rw [hw]
      exact h.running t₁ task₁ ht₁ (mt hstopped hrunning)
    running_fresh := fun t₁ task₂ b ht₁ hrunning hremoved => by
      obtain ⟨task₁, ht₁, hw, hstopped⟩ := hold ht₁
      exact h.running_fresh t₁ task₁ b ht₁ (mt hstopped hrunning) (hw ▸ hremoved)
    traced_fresh := fun w b hw hremoved => by
      obtain ⟨t₁, task₁, ht₁, hurl, hle⟩ := h.traced_fresh w b hw hremoved
      obtain ⟨task₂, ht₂, hworker₂⟩ := hkeep ht₁
      exact ⟨t₁, task₂, ht₂, hworker₂ ▸ hurl, hle⟩ }

/-- A message of a running task enters the channel. -/
theorem send (h : s.Consistent) {t : TaskId} {task : Task}
    (ht : s.tasks t = some task) (hphase : task.phase ≠ .stopped) (message : Message) :
    Consistent { s with channel := s.channel ++ [⟨task.worker, message, t⟩] } := by
  have hqueued {e : WorkerEvent}
      (he : e ∈ queued { s with channel := s.channel ++ [⟨task.worker, message, t⟩] }) :
      e ∈ s.queued ∨ e = ⟨task.worker, message, t⟩ := by
    simpa [queued, or_assoc] using he
  exact { h with
    queued_sender := fun e he => by
      rcases hqueued he with he | rfl
      · exact h.queued_sender e he
      · exact ⟨task, ht, rfl⟩
    stale_dead := fun e he b hremoved hlt => by
      rcases hqueued he with he | rfl
      · exact h.stale_dead e he b hremoved hlt
      · exact absurd (h.running_fresh t task b ht hphase hremoved) (not_le.mpr hlt) }

/-- A rank of a registered worker is subscribed. -/
theorem spawn (h : s.Consistent)
    (hregistered : s.workers worker.url ≠ none) :
    Consistent { s with
      handles := s.handles ++ [(worker, s.nextTask)]
      tasks := Function.update s.tasks s.nextTask (some ⟨worker, false, .waiting⟩)
      nextTask := s.nextTask + 1 } := by
  have hkeep {t : TaskId} {task : Task} (ht : s.tasks t = some task) :
      Function.update s.tasks s.nextTask (some ⟨worker, false, .waiting⟩) t = some task := by
    rwa [Function.update_of_ne (h.task_lt t task ht).ne]
  have hold {t : TaskId} {task : Task}
      (ht : Function.update s.tasks s.nextTask (some ⟨worker, false, .waiting⟩) t = some task) :
      t = s.nextTask ∧ task.worker = worker ∨ s.tasks t = some task := by
    by_cases hid : t = s.nextTask
    · subst hid
      rw [Function.update_self] at ht
      obtain rfl := Option.some.inj ht
      exact .inl ⟨rfl, rfl⟩
    · exact .inr (by rwa [Function.update_of_ne hid] at ht)
  have hhandles {w : KvWorkerId} {t : TaskId} (hmem : (w, t) ∈ s.handles ++ [(worker, s.nextTask)]) :
      (w, t) ∈ s.handles ∨ w = worker ∧ t = s.nextTask := by
    simpa using hmem
  exact { h with
    task_lt := fun t task ht => by
      rcases hold ht with ⟨rfl, -⟩ | ht
      · exact Nat.lt_succ_self s.nextTask
      · exact (h.task_lt t task ht).trans (Nat.lt_succ_self s.nextTask)
    queued_sender := fun e he => by
      obtain ⟨task, ht, hworker⟩ := h.queued_sender e he
      exact ⟨task, hkeep ht, hworker⟩
    working_sender := fun w t hwork => by
      obtain ⟨task, ht, hworker⟩ := h.working_sender w t hwork
      exact ⟨task, hkeep ht, hworker⟩
    handle_task := fun w t hmem => by
      rcases hhandles hmem with hmem | ⟨rfl, rfl⟩
      · obtain ⟨task, ht, hworker⟩ := h.handle_task w t hmem
        exact ⟨task, hkeep ht, hworker⟩
      · exact ⟨_, Function.update_self .., rfl⟩
    bound_le := fun url b hremoved => (h.bound_le url b hremoved).trans (Nat.le_succ _)
    call_bound_le := fun id url ids b hstage =>
      (h.call_bound_le id url ids b hstage).trans (Nat.le_succ _)
    registered := fun w t hmem => by
      rcases hhandles hmem with hmem | ⟨rfl, rfl⟩
      · exact h.registered w t hmem
      · exact .inl hregistered
    running := fun t task ht hphase => by
      rcases hold ht with ⟨rfl, rfl⟩ | ht
      · exact .inl (List.mem_append_right _ (List.mem_singleton_self _))
      · exact (h.running t task ht hphase).imp_left (List.mem_append_left _)
    running_fresh := fun t task b ht hphase hremoved => by
      rcases hold ht with ⟨rfl, -⟩ | ht
      · exact h.bound_le _ b hremoved
      · exact h.running_fresh t task b ht hphase hremoved
    traced_fresh := fun w b hw hremoved => by
      obtain ⟨t, task, ht, hurl, hle⟩ := h.traced_fresh w b hw hremoved
      exact ⟨t, task, hkeep ht, hurl, hle⟩ }

/-- A rank is cleared while the pump is not working for it. -/
theorem clear (h : s.Consistent)
    (hc : s.calls id = some (.remove url (.clear (worker :: ids) bound)))
    (hidle : ∀ t, s.pump.working ≠ some (worker, t)) (order : IterationOrder) :
    ({ s with
      tree := (s.tree.clearWorker order worker).1
      cursors := Function.update s.cursors worker none }.setCall id
        (some (.remove url (.clear ids bound)))).Consistent := by
  have hle := h.call_bound_le id url (worker :: ids) bound (.inr (.inr hc))
  have htraces {w : KvWorkerId} (hw : Traces ({ s with
      tree := (s.tree.clearWorker order worker).1
      cursors := Function.update s.cursors worker none }.setCall id
        (some (.remove url (.clear ids bound)))) w) : w ≠ worker ∧ s.Traces w := by
    simp only [Traces, setCall, TreeState.lists_clearWorker h.wellFormed,
      Function.update_apply] at hw ⊢
    grind
  exact { h with
    wellFormed := (TreeState.clearWorker_spec order worker h.wellFormed).2
    call_bound_le := h.call_bound_le_setCall (by simpa [Call.Notes] using hle)
    exclusive := h.exclusive_goesOn hc nofun
    unregistered := h.unregistered_goesOn hc nofun
    subscribing := h.subscribing_goesOn
    pending_url := h.pending_url_setCall fun w hw =>
      h.pending_url id (.remove url (.clear (worker :: ids) bound)) hc w
        (List.mem_cons_of_mem worker hw)
    attached := fun w hw => attached_setCall hc nofun nofun (h.attached w hw)
    registered := fun w t hmem => registered_setCall hc (by simp) (h.registered w t hmem)
    running := fun t task ht hphase =>
      (h.running t task ht hphase).imp_right (joining_setCall hc nofun)
    traced := fun w hw => by
      obtain ⟨hne, hold⟩ := htraces hw
      exact (h.traced w hold).imp_right
        (leaving_setCall hc fun hmem => (List.mem_cons.mp hmem).resolve_left hne)
    traced_fresh := fun w b hw => h.traced_fresh w b (htraces hw).2 }

/-- A removal returns, with nothing left of its worker. -/
theorem removed (h : s.Consistent)
    (hlive : ∀ w ∈ s.live, w.url ≠ url) (htraces : ∀ w, w.url = url → ¬s.Traces w)
    (hstopped : ∀ t task, s.tasks t = some task → task.worker.url = url → task.phase = .stopped)
    (hle : bound ≤ s.nextTask) :
    (s.record (.removed url bound)).Consistent := by
  have hlog {url' : String} {b : TaskId}
      (hremoved : .removed url' b ∈ (s.record (.removed url bound)).log) :
      .removed url' b ∈ s.log ∨ url' = url ∧ b = bound := by
    rcases List.mem_cons.mp hremoved with heq | hremoved
    · exact .inr (by simpa using heq)
    · exact .inl hremoved
  exact { h with
    bound_le := fun url' b hremoved => by
      rcases hlog hremoved with hremoved | ⟨-, rfl⟩
      · exact h.bound_le url' b hremoved
      · exact hle
    stale_dead := fun e he b hremoved hlt => by
      rcases hlog hremoved with hremoved | ⟨hurl, -⟩
      · exact h.stale_dead e he b hremoved hlt
      · exact fun hmem => hlive e.worker hmem hurl
    working_fresh := fun w t b hwork hremoved => by
      rcases hlog hremoved with hremoved | ⟨hurl, -⟩
      · exact h.working_fresh w t b hwork hremoved
      · exact absurd (.inr (.inr ⟨t, hwork⟩)) (htraces w hurl)
    running_fresh := fun t task b ht hphase hremoved => by
      rcases hlog hremoved with hremoved | ⟨hurl, -⟩
      · exact h.running_fresh t task b ht hphase hremoved
      · exact absurd (hstopped t task ht hurl) hphase
    traced_fresh := fun w b hw hremoved => by
      rcases hlog hremoved with hremoved | ⟨hurl, -⟩
      · exact h.traced_fresh w b hw hremoved
      · exact absurd hw (htraces w hurl)
    changes := List.pairwise_cons.mpr ⟨by simp, h.changes⟩ }

/-- The pump goes on, with an event that it worked on before or one whose worker it found
attached. -/
theorem pumped (h : s.Consistent) (pump : Pump) (channel : List WorkerEvent)
    (hq : ∀ e ∈ pump.unchecked ++ channel, e ∈ s.queued)
    (hw : ∀ w t, pump.working = some (w, t) → s.pump.working = some (w, t) ∨
      ∃ e ∈ s.queued, e.worker = w ∧ e.sender = t ∧ w ∈ s.live) :
    Consistent { s with pump, channel } := by
  have htraces {w : KvWorkerId} (hw' : Traces { s with pump, channel } w) :
      s.Traces w ∨ ∃ e ∈ s.queued, e.worker = w ∧ w ∈ s.live := by
    rcases hw' with hlists | hcursor | ⟨t, ht⟩
    · exact .inl (.inl hlists)
    · exact .inl (.inr (.inl hcursor))
    · rcases hw w t ht with hold | ⟨e, he, heq, -, hlive⟩
      · exact .inl (.inr (.inr ⟨t, hold⟩))
      · exact .inr ⟨e, he, heq, hlive⟩
  have hfresh {e : WorkerEvent} {b : TaskId} (he : e ∈ s.queued) (hlive : e.worker ∈ s.live)
      (hremoved : .removed e.worker.url b ∈ s.log) : b ≤ e.sender :=
    not_lt.mp fun hlt => h.stale_dead e he b hremoved hlt hlive
  exact { h with
    queued_sender := fun e he => h.queued_sender e (hq e he)
    working_sender := fun w t hwork => by
      rcases hw w t hwork with hold | ⟨e, he, rfl, rfl, -⟩
      · exact h.working_sender w t hold
      · exact h.queued_sender e he
    traced := fun w hw' => by
      rcases htraces hw' with hold | ⟨-, -, -, hlive⟩
      · exact h.traced w hold
      · exact .inl hlive
    stale_dead := fun e he => h.stale_dead e (hq e he)
    working_fresh := fun w t b hwork hremoved => by
      rcases hw w t hwork with hold | ⟨e, he, rfl, rfl, hlive⟩
      · exact h.working_fresh w t b hold hremoved
      · exact hfresh he hlive hremoved
    traced_fresh := fun w b hw' hremoved => by
      rcases htraces hw' with hold | ⟨e, he, rfl, hlive⟩
      · exact h.traced_fresh w b hold hremoved
      · obtain ⟨task, htask, hworker⟩ := h.queued_sender e he
        exact ⟨e.sender, task, htask, by rw [hworker], hfresh he hlive hremoved⟩ }

/-- The pump writes for the worker that it works for. -/
theorem wrote (h : s.Consistent) (tree : TreeState)
    (cursors : KvWorkerId → Option Int64) (hw : s.pump.working = some (worker, sender))
    (hwf' : tree.WellFormed)
    (hlists : ∀ blockHash w, tree.Lists blockHash w → w = worker ∨ s.tree.Lists blockHash w)
    (hcursors : ∀ w, w ≠ worker → cursors w = s.cursors w) :
    Consistent { s with tree, cursors, log := .changed worker sender :: s.log } := by
  have htraces {w : KvWorkerId} (hw' : Traces
      { s with tree, cursors, log := .changed worker sender :: s.log } w) : s.Traces w := by
    by_cases heq : w = worker
    · exact .inr (.inr ⟨sender, heq ▸ hw⟩)
    · rcases hw' with ⟨blockHash, hlist⟩ | hcursor | hwork
      · exact .inl ⟨blockHash, (hlists blockHash w hlist).resolve_left heq⟩
      · exact .inr (.inl (hcursors w heq ▸ hcursor))
      · exact .inr (.inr hwork)
  have hlog {url : String} {b : TaskId}
      (hremoved : .removed url b ∈ IndexEvent.changed worker sender :: s.log) :
      .removed url b ∈ s.log := by
    simpa using hremoved
  exact { h with
    wellFormed := hwf'
    bound_le := fun url b hremoved => h.bound_le url b (hlog hremoved)
    traced := fun w hw' => h.traced w (htraces hw')
    stale_dead := fun e he b hremoved => h.stale_dead e he b (hlog hremoved)
    working_fresh := fun w t b hwork hremoved => h.working_fresh w t b hwork (hlog hremoved)
    running_fresh := fun t task b ht hphase hremoved =>
      h.running_fresh t task b ht hphase (hlog hremoved)
    traced_fresh := fun w b hw' hremoved => h.traced_fresh w b (htraces hw') (hlog hremoved)
    changes := by
      refine List.pairwise_cons.mpr ⟨fun earlier hmem w t b hchanged hremoved => ?_, h.changes⟩
      obtain ⟨rfl, rfl⟩ : worker = w ∧ sender = t := by simpa using hchanged
      exact h.working_fresh worker sender b hw (hremoved ▸ hmem) }

/-! ### Steps -/

theorem subscribeRank (h : s.Consistent) (hregistered : s.workers worker.url ≠ none) :
    (s.subscribeRank worker).Consistent ∧ (s.subscribeRank worker).workers = s.workers ∧
      (s.subscribeRank worker).calls = s.calls := by
  unfold IndexState.subscribeRank
  split_ifs
  · exact ⟨h, rfl, rfl⟩
  · exact ⟨h.spawn hregistered, rfl, rfl⟩

theorem foldl_subscribeRank (h : s.Consistent) (ids : List KvWorkerId)
    (hregistered : ∀ w ∈ ids, s.workers w.url ≠ none) :
    (ids.foldl IndexState.subscribeRank s).Consistent ∧
      (ids.foldl IndexState.subscribeRank s).calls = s.calls := by
  induction ids generalizing s with
  | nil => exact ⟨h, rfl⟩
  | cons w ids ih =>
    obtain ⟨hstep, hworkers, hcalls⟩ := h.subscribeRank (hregistered w List.mem_cons_self)
    obtain ⟨hrest, hcalls'⟩ := ih hstep fun w' hw' => by
      rw [hworkers]
      exact hregistered w' (List.mem_cons_of_mem _ hw')
    exact ⟨hrest, hcalls'.trans hcalls⟩

theorem advanceAdd (h : s.Consistent) {stage : AddStage}
    (hc : s.calls id = some (.add url cfg stage)) (order : IterationOrder)
    (drained : List (KvWorkerId × TaskId)) (horderly : s.Orderly (.advance id order drained)) :
    (s.advanceAdd id url cfg stage).Consistent := by
  simp only [Orderly, hc] at horderly
  cases stage with
  | resolve =>
    have hold (c : Call) (hc' : s.calls id = some c) : c.Idle := by
      obtain rfl := Option.some.inj (hc.symm.trans hc')
      simp [Call.Idle]
    simp only [IndexState.advanceAdd]
    split
    · exact h.call hold (by simp)
    · refine (h.lock s.cursorsLock _).call hold fun c hc' => ?_
      split_ifs at hc'
      obtain rfl := Option.some.inj hc'
      simp [Call.Started, Call.Idle]
  | markLive => exact h.markLive hc horderly.1 horderly.2
  | register => exact h.register hc horderly
  | subscribe =>
    have hregistered : ∀ w ∈ rankIds url cfg.dpRanks, s.workers w.url ≠ none := by
      intro w hw
      obtain ⟨rank, -, rfl⟩ := List.mem_map.mp hw
      exact h.subscribing id url cfg hc
    obtain ⟨hspawned, hcalls⟩ := h.foldl_subscribeRank (rankIds url cfg.dpRanks) hregistered
    refine hspawned.call (fun c hc' => ?_) (by simp)
    rw [hcalls, hc] at hc'
    obtain rfl := Option.some.inj hc'
    simp [Call.Idle]

/-- When no call for a URL but the given one has had an effect, and that one has nothing left to
clear and to join, and the URL has no ranks, then nothing is left of it. -/
theorem departed (h : s.Consistent) (hworkers : s.workers url = none)
    (hidle : ∀ id c, s.calls id = some c → c.url = url → c.Started → c.Idle) :
    (∀ w ∈ s.live, w.url ≠ url) ∧ (∀ w, w.url = url → ¬s.Traces w) ∧
      ∀ t task, s.tasks t = some task → task.worker.url = url → task.phase = .stopped := by
  have hlive : ∀ w ∈ s.live, w.url ≠ url := by
    rintro w hw rfl
    rcases h.attached w hw with ⟨ranks, hranks, -⟩ | ⟨id, cfg, hc, -⟩ | ⟨id, ids, hc, -⟩
    · simp [hworkers] at hranks
    · exact absurd (hidle id _ hc rfl (.inl rfl)) (by simp [Call.Idle])
    · exact absurd (hidle id _ hc rfl (by simp [Call.Started])) (by simp [Call.Idle])
  refine ⟨hlive, fun w hurl htraces => ?_, fun t task ht hurl => ?_⟩
  · rcases h.traced w htraces with hw | ⟨id, c, hc, hmem⟩
    · exact hlive w hw hurl
    · have hstarted : c.Started := by
        cases c with
        | add url cfg stage => simp [Call.pending] at hmem
        | remove url stage =>
          rintro rfl
          simp [Call.pending, RemoveStage.pending] at hmem
      have hcurl : c.url = url := (h.pending_url id c hc w hmem).symm.trans hurl
      simp [(hidle id c hc hcurl hstarted).pending_eq_nil] at hmem
  · by_contra hphase
    rcases h.running t task ht hphase with hmem | ⟨id, ids, b, tasks, hc, -⟩
    · rcases h.registered _ _ hmem with hnone | ⟨id, ids, hc | hc⟩
      · exact hnone (hurl ▸ hworkers)
      · exact absurd (hidle id _ hc hurl (by simp [Call.Started])) (by simp [Call.Idle])
      · exact absurd (hidle id _ hc hurl (by simp [Call.Started])) (by simp [Call.Idle])
    · exact absurd (hidle id _ hc hurl (by simp [Call.Started])) (by simp [Call.Idle])

/-- A removal returns when it is the only call that has had an effect on its URL. -/
theorem returned (h : s.Consistent) {c : Call} (hc : s.calls id = some c) (hidle : c.Idle)
    (hworkers : s.workers url = none)
    (halone : ∀ id' c', s.calls id' = some c' → c'.url = url → c'.Started → id' = id)
    (hle : bound ≤ s.nextTask) : ((s.setCall id none).record (.removed url bound)).Consistent := by
  have hended : (s.setCall id none).Consistent := by
    refine h.call (fun c' hc' => ?_) (by simp)
    obtain rfl := Option.some.inj (hc.symm.trans hc')
    exact hidle
  obtain ⟨hlive, htraces, hstopped⟩ := hended.departed hworkers fun id' c' hc' hurl hstarted => by
    simp only [setCall, Function.update_apply] at hc'
    split_ifs at hc' with hid
    exact absurd (halone id' c' hc' hurl hstarted) hid
  exact hended.removed hlive htraces hstopped hle

theorem advanceRemove (h : s.Consistent) {stage : RemoveStage}
    (hc : s.calls id = some (.remove url stage)) (order : IterationOrder)
    (drained : List (KvWorkerId × TaskId)) (horderly : s.Orderly (.advance id order drained)) :
    (s.advanceRemove order drained id url stage).Consistent := by
  simp only [Orderly, hc] at horderly
  cases stage with
  | take =>
    simp only [IndexState.advanceRemove]
    cases hworkers : s.workers url with
    | none => exact h.returned hc (.inl rfl) hworkers horderly le_rfl
    | some ranks => exact h.take hc hworkers horderly
  | markDead ids => exact h.markDead hc
  | drain ids =>
    simp only [IndexState.advanceRemove]
    split_ifs with hdrained
    · exact h.drain hc hdrained
    · exact h
  | join ids bound tasks =>
    have hle := h.call_bound_le id url ids bound (.inl ⟨tasks, hc⟩)
    cases tasks with
    | nil =>
      exact h.advance hc nofun nofun nofun (by simp +contextual) rfl
        (by simpa [Call.Notes] using hle)
    | cons head tasks =>
      simp only [IndexState.advanceRemove]
      cases ht : s.tasks head with
      | none => exact h
      | some task =>
        dsimp only
        split_ifs with hcancelled hstopped
        · exact h.setTask ht rfl fun hphase => hphase
        · refine h.advance hc nofun nofun nofun ?_ rfl (by simpa [Call.Notes] using hle)
          intro ids' b tasks' hstage t hmem task' ht' hphase
          obtain ⟨rfl, rfl, rfl⟩ : ids = ids' ∧ bound = b ∧ head :: tasks = tasks' := by
            simpa using hstage
          refine ⟨ids, bound, tasks, rfl, (List.mem_cons.mp hmem).resolve_left ?_⟩
          rintro rfl
          exact hphase (Option.some.inj (ht.symm.trans ht') ▸ hstopped)
        · exact h
  | lockCursors ids bound =>
    have hle := h.call_bound_le id url ids bound (.inr (.inl hc))
    simp only [IndexState.advanceRemove]
    split_ifs with hlock
    · exact (h.lock (some id) s.oracle).advance hc nofun nofun nofun nofun rfl
        (by simpa [Call.Notes] using hle)
    · exact h
  | clear ids bound =>
    cases ids with
    | nil =>
      have hle := h.call_bound_le id url [] bound (.inr (.inr hc))
      have hremoves : (Call.remove url (.clear [] bound)).Removes := by simp [Call.Removes]
      exact (h.lock none s.oracle).returned hc (.inr ⟨bound, rfl⟩)
        (h.unregistered id _ hc hremoves)
        (fun id' c' hc' hurl hstarted => h.exclusive id _ id' c' hc hremoves hc' hurl hstarted) hle
    | cons worker ids => exact h.clear hc horderly order

theorem lists_applyEvent {tree : TreeState} (hwf : tree.WellFormed) (order : IterationOrder)
    (now : ℕ) (worker : KvWorkerId) (event : KvCacheEvent) :
    (applyEvent order now worker tree event).WellFormed ∧
      ∀ blockHash w, (applyEvent order now worker tree event).Lists blockHash w →
        w = worker ∨ tree.Lists blockHash w := by
  cases event with
  | blockStored parentBlockHash blockHashes =>
    refine ⟨(TreeState.insert_spec order now worker parentBlockHash blockHashes hwf).2, ?_⟩
    intro blockHash w hlists
    rcases (TreeState.lists_insert hwf order now worker parentBlockHash blockHashes blockHash
      w).mp hlists with hlists | hlists
    · exact .inr hlists
    · exact .inl hlists.1
  | blockRemoved blockHashes =>
    refine ⟨(TreeState.remove_spec order worker blockHashes hwf).2, fun blockHash w hlists => ?_⟩
    exact .inr ((TreeState.lists_remove hwf order worker blockHashes blockHash w).mp hlists).1
  | allBlocksCleared =>
    refine ⟨(TreeState.clearWorker_spec order worker hwf).2, fun blockHash w hlists => ?_⟩
    exact .inr ((TreeState.lists_clearWorker hwf order worker blockHash w).mp hlists).1

/-- The pump drops its event. -/
theorem idle (h : s.Consistent) : Consistent { s with pump := .idle } := by
  refine h.pumped .idle s.channel (fun e he => ?_) (by simp [Pump.working])
  exact List.mem_append_right _ (by simpa [Pump.unchecked] using he)

theorem pumpStep (h : s.Consistent) (order : IterationOrder) (now : ℕ) :
    (s.pumpStep order now).Consistent := by
  unfold IndexState.pumpStep
  cases hp : s.pump with
  | idle =>
    cases hchannel : s.channel with
    | nil => exact h
    | cons event channel =>
      refine h.pumped (.received event) channel (fun e he => ?_) (by simp [Pump.working])
      simpa [queued, hp, hchannel, Pump.unchecked] using he
  | received event =>
    have hmem : event ∈ s.queued := by simp [queued, hp, Pump.unchecked]
    dsimp only
    split_ifs with hlive
    · refine h.pumped (.checked event) s.channel (fun e he => ?_) fun w t hw => ?_
      · exact List.mem_append_right _ (by simpa [Pump.unchecked] using he)
      · obtain ⟨rfl, rfl⟩ : event.worker = w ∧ event.sender = t := by simpa [Pump.working] using hw
        exact .inr ⟨event, hmem, rfl, rfl, hlive⟩
    · exact h.idle
  | checked event =>
    have hw : s.pump.working = some (event.worker, event.sender) := by simp [hp, Pump.working]
    dsimp only
    split_ifs with hlock
    · cases event.message with
      | publisherReset =>
        refine (h.wrote s.tree (Function.update s.cursors event.worker none) hw h.wellFormed
          (fun _ _ => .inr) fun w hne => ?_).idle
        exact Function.update_of_ne hne _ _
      | batch seq events =>
        dsimp only
        split_ifs with hnew
        · refine h.pumped (.applying event.worker event.sender seq events) s.channel
            (fun e he => ?_) fun w t hw' => .inl ?_
          · exact List.mem_append_right _ (by simpa [Pump.unchecked] using he)
          · rw [hw]
            exact hw'
        · exact h.idle
    · exact h
  | applying worker sender seq events =>
    have hw : s.pump.working = some (worker, sender) := by simp [hp, Pump.working]
    cases events with
    | nil =>
      dsimp only
      split_ifs with hlock
      · refine (h.wrote s.tree (Function.update s.cursors worker (some seq)) hw h.wellFormed
          (fun _ _ => .inr) fun w hne => ?_).idle
        exact Function.update_of_ne hne _ _
      · exact h
    | cons event events =>
      obtain ⟨hwf, hlists⟩ := lists_applyEvent h.wellFormed order now worker event
      have hwrote := h.wrote (applyEvent order now worker s.tree event) s.cursors hw hwf hlists
        fun _ _ => rfl
      refine hwrote.pumped (.applying worker sender seq events) s.channel (fun e he => ?_)
        fun w t hw' => .inl ?_
      · exact List.mem_append_right _ (by simpa [Pump.unchecked] using he)
      · change s.pump.working = _
        rw [hw]
        exact hw'

theorem select (h : s.Consistent) (t : TaskId) (message : Option Message) :
    (s.select t message).Consistent := by
  unfold IndexState.select
  cases ht : s.tasks t with
  | none => exact h
  | some task =>
    cases hphase : task.phase with
    | waiting =>
      have hrunning : task.phase ≠ .stopped := by simp [hphase]
      simp only [hphase]
      split_ifs
      · exact h.setTask ht rfl fun _ => rfl
      · cases message with
        | none => exact h.setTask ht rfl fun _ => rfl
        | some message => exact h.setTask ht rfl fun hstopped => absurd hstopped hrunning
    | sending message => simpa [hphase] using h
    | stopped => simpa [hphase] using h

theorem sent (h : s.Consistent) (t : TaskId) : (s.send t).Consistent := by
  unfold IndexState.send
  cases ht : s.tasks t with
  | none => exact h
  | some task =>
    cases hphase : task.phase with
    | sending message =>
      have hrunning : task.phase ≠ .stopped := by simp [hphase]
      simp only [hphase]
      split_ifs
      · have hwaiting : (s.setTask t { task with phase := .waiting }).Consistent :=
          h.setTask ht rfl fun hstopped => absurd hstopped hrunning
        have ht' : (s.setTask t { task with phase := .waiting }).tasks t =
            some { task with phase := .waiting } := Function.update_self _ _ _
        exact hwaiting.send ht' (by simp) message
      · exact h
    | waiting => simpa [hphase] using h
    | stopped => simpa [hphase] using h

/-- **The invariant is kept** by every orderly step. -/
theorem step (h : s.Consistent) (a : IndexStep) (horderly : s.Orderly a) :
    (s.step a).Consistent := by
  cases a with
  | callAdd id url cfg =>
    simp only [IndexState.step]
    cases hc : s.calls id with
    | none => exact h.call (by simp [hc]) (by simp [Call.Started, Call.Idle])
    | some c => exact h
  | callRemove id url =>
    simp only [IndexState.step]
    cases hc : s.calls id with
    | none => exact h.call (by simp [hc]) (by simp [Call.Started, Call.Idle])
    | some c => exact h
  | advance id order drained =>
    simp only [IndexState.step]
    cases hc : s.calls id with
    | none => exact h
    | some c =>
      cases c with
      | add url cfg stage => exact h.advanceAdd hc order drained horderly
      | remove url stage => exact h.advanceRemove hc order drained horderly
  | select t message => exact h.select t message
  | send t => exact h.sent t
  | pump order now => exact h.pumpStep order now

end Consistent

/-- **Removals are final in orderly runs.** In every run of the index whose steps are orderly, after
a call of `remove_worker` has returned the pump writes to the tree and the cursors for the worker
only on behalf of subscribers spawned after the call drained the handles, and while there are none
no node lists a rank of the worker and no cursor is kept for one. -/
theorem removal_final (now : ℕ) (steps : List IndexStep)
    (horderly : Transition.Along step Orderly (new now) steps) :
    ((new now).run steps).RemovalFinal := by
  have hrun : ((new now).run steps).Consistent :=
    Transition.foldl_invariant (I := Consistent) (fun s a ho h => h.step a ho) horderly
      (Consistent.new now)
  exact hrun.removalFinal

/-- The steps of a run in which the pump finds a rank attached, the worker of the rank is removed,
and the pump applies the event afterwards. -/
def racingSteps : List IndexStep :=
  [.callAdd 0 "http://a" ⟨5000, 16, 1⟩] ++
    List.replicate 4 (.advance 0 TreeState.ascending []) ++
    [.select 0 (some (.batch 1 [.blockStored none [7]])), .send 0,
      .pump TreeState.ascending 1, .pump TreeState.ascending 2, .callRemove 1 "http://a"] ++
    List.replicate 4 (.advance 1 TreeState.ascending [(⟨"http://a", 0⟩, 0)]) ++
    [.select 0 none] ++ List.replicate 5 (.advance 1 TreeState.ascending []) ++
    List.replicate 3 (.pump TreeState.ascending 3)

/-- A pump that has found the rank attached before the removal undoes the removal. -/
theorem removal_undone_by_pump :
    let s := (new 0).run racingSteps
    s.log = [.changed ⟨"http://a", 0⟩ 0, .changed ⟨"http://a", 0⟩ 0, .removed "http://a" 1] ∧
      s.cursors ⟨"http://a", 0⟩ = some 1 ∧ ¬s.RemovalFinal := by
  intro s
  have hlog : s.log =
      [.changed ⟨"http://a", 0⟩ 0, .changed ⟨"http://a", 0⟩ 0, .removed "http://a" 1] := by decide
  refine ⟨hlog, by decide, fun hfinal => ?_⟩
  have hchanges := hfinal.changes
  rw [hlog] at hchanges
  have hle := (List.pairwise_cons.mp (List.pairwise_cons.mp hchanges).2).1
    (.removed "http://a" 1) List.mem_cons_self ⟨"http://a", 0⟩ 0 1 rfl rfl
  exact absurd hle (by decide)

/-- A worker is added, reports a block, and is removed when the block has been applied. -/
theorem removal_final_of_applied_batch :
    let steps : List IndexStep :=
      [.callAdd 0 "http://a" ⟨5000, 16, 1⟩] ++
        List.replicate 4 (.advance 0 TreeState.ascending []) ++
        [.select 0 (some (.batch 1 [.blockStored none [7]])), .send 0] ++
        List.replicate 5 (.pump TreeState.ascending 1) ++ [.callRemove 1 "http://a"] ++
        List.replicate 4 (.advance 1 TreeState.ascending [(⟨"http://a", 0⟩, 0)]) ++
        [.select 0 none] ++ List.replicate 5 (.advance 1 TreeState.ascending [])
    ((new 0).run steps).log =
        [.removed "http://a" 1, .changed ⟨"http://a", 0⟩ 0, .changed ⟨"http://a", 0⟩ 0] ∧
      ((new 0).run steps).RemovalFinal := by
  intro steps
  refine ⟨by decide, removal_final 0 steps ?_⟩
  simp only [steps, List.replicate, List.cons_append, List.nil_append, Transition.along_cons,
    Transition.along_nil]
  refine ⟨trivial, trivial, ?_, ?_, trivial, trivial, trivial, trivial, trivial, trivial, trivial,
    trivial, trivial, ?_, trivial, trivial, trivial, trivial, trivial, trivial, trivial, ?_,
    trivial, trivial⟩
  · refine ⟨fun id' c hc hurl => ?_, fun w hw hlive event he => absurd he List.not_mem_nil⟩
    rcases id' with _ | id'
    · obtain rfl : Call.add "http://a" ⟨5000, 16, 1⟩ .markLive = c := Option.some.inj hc
      simp [Call.Removes]
    · cases hc
  · intro ranks hranks
    cases hranks
  · intro id' c hc hurl hstarted
    rcases id' with _ | _ | id'
    · cases hc
    · rfl
    · cases hc
  · intro t ht
    cases ht

end IndexState

end SglangRs.Router
