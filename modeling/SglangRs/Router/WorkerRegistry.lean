import Mathlib.Data.Finset.Basic
import Mathlib.Logic.Function.Basic
import SglangRs.Router.Discovery
import SglangRs.Transition.Run

/-!
# The worker registry

The registry (`workers/registry.rs`) keeps the workers by their identifiers, and for every model the
set of the identifiers of the workers that serve it. Workers are added and removed under a lock;
adding one under an identifier that is in use replaces the worker. The mode of a worker is changed
in place (`workers/worker.rs`), as the worker manager does when the discovery backend reports a new
mode (`workers/manager.rs`).

Of a worker only what identifies it and decides where it belongs is modelled, not its breaker, its
request counter and its KV cache layout. A model without an entry has the empty set.

## Main definitions

* `Router.Worker`, `Router.WorkerRegistry`, and its operations.
* `WorkerRegistry.apply`: the registry after a discovery event.
* `WorkerRegistry.Indexed`, `WorkerRegistry.PoolsPure`: the two maps agree, and no model has both
  plain workers and others.

## Main results

* `WorkerRegistry.pools_pure_iff`: in every state of a run the maps agree and a rejected worker
  changes nothing, and all pools are pure exactly if no change of a mode mixes a pool.
-/

namespace SglangRs.Router

/-- A registered worker. -/
structure Worker where
  id : WorkerId
  url : String
  mode : WorkerMode
  modelIds : List ModelId
  bootstrapPort : Option UInt16
deriving DecidableEq, Repr

/-- Source: `worker.rs`, `with_cb_config_and_kv_cache_layout`. -/
def Worker.new (spec : WorkerSpec) : Worker :=
  ⟨spec.id, spec.url, spec.mode, spec.modelIds, spec.bootstrapPort⟩

/-- Source: `worker.rs`, `set_mode`. -/
def Worker.setMode (w : Worker) (mode : WorkerMode) : Worker := { w with mode }

/-- Why a worker was not added. -/
inductive AddWorkerError where
  | mixedPdAndPlain (worker : WorkerId) (model : ModelId) (pdMode : String)
deriving DecidableEq, Repr

/-- The two modes cannot coexist for a model. -/
def modesAreMixed : WorkerMode → WorkerMode → Bool
  | .plain, .prefill | .plain, .decode | .prefill, .plain | .decode, .plain => true
  | _, _ => false

def modeName : WorkerMode → String
  | .plain => "plain"
  | .prefill => "prefill"
  | .decode => "decode"

@[simp] theorem modesAreMixed_self (mode : WorkerMode) : modesAreMixed mode mode = false := by
  cases mode <;> rfl

theorem modesAreMixed_comm (a b : WorkerMode) : modesAreMixed a b = modesAreMixed b a := by
  cases a <;> cases b <;> rfl

/-- The registry. -/
structure WorkerRegistry where
  byId : WorkerId → Option Worker
  byModel : ModelId → Finset WorkerId

namespace WorkerRegistry

/-- The registry without workers. -/
def empty : WorkerRegistry := ⟨fun _ => none, fun _ => ∅⟩

variable (r : WorkerRegistry)

/-- A worker of the model cannot coexist with the one to be added.

Source: `registry.rs`, lines 129–138. -/
def conflicts (spec : WorkerSpec) (model : ModelId) : Bool :=
  ∃ id ∈ r.byModel model, (r.byId id).any fun existing =>
    existing.id ≠ spec.id && modesAreMixed spec.mode existing.mode

/-- Source: `registry.rs`, `remove_locked`. -/
def removeLocked (id : WorkerId) : WorkerRegistry :=
  match r.byId id with
  | none => r
  | some w =>
      { byId := Function.update r.byId id none
        byModel := fun m => if m ∈ w.modelIds then (r.byModel m).erase id else r.byModel m }

/-- Insert a worker that passed the check. -/
def insertWorker (w : Worker) : WorkerRegistry :=
  { byId := Function.update (r.removeLocked w.id).byId w.id (some w)
    byModel := fun m =>
      if m ∈ w.modelIds then insert w.id ((r.removeLocked w.id).byModel m)
      else (r.removeLocked w.id).byModel m }

/-- Source: `registry.rs`, `add_with_cb_and_kv_cache_layout`. -/
def add (spec : WorkerSpec) : Except AddWorkerError Unit × WorkerRegistry :=
  match spec.modelIds.find? (r.conflicts spec) with
  | some model => (.error (.mixedPdAndPlain spec.id model (modeName spec.mode)), r)
  | none => (.ok (), r.insertWorker (.new spec))

/-- Source: `registry.rs`, `remove`. -/
def remove (id : WorkerId) : WorkerRegistry := r.removeLocked id

/-- Change the mode of a worker in place.

Source: `manager.rs`, lines 183–197. -/
def changeMode (id : WorkerId) (mode : WorkerMode) : WorkerRegistry :=
  match r.byId id with
  | none => r
  | some w => { r with byId := Function.update r.byId id (some (w.setMode mode)) }

/-- The registry after a discovery event. -/
def apply (r : WorkerRegistry) : DiscoveryEvent → WorkerRegistry
  | .added spec => (r.add spec).2
  | .removed id => r.remove id
  | .modeChanged id mode => r.changeMode id mode

/-- The registry after a sequence of discovery events. -/
def run (r : WorkerRegistry) (events : List DiscoveryEvent) : WorkerRegistry := events.foldl apply r

/-- Every model is mapped to the identifiers of the workers that serve it. -/
structure Indexed : Prop where
  keyed : ∀ id w, r.byId id = some w → w.id = id
  mem_byModel : ∀ m id, id ∈ r.byModel m ↔ ∃ w, r.byId id = some w ∧ m ∈ w.modelIds

/-- No model has both a plain worker and a prefill or decode worker. -/
def PoolsPure : Prop :=
  ∀ id w id' w' m, r.byId id = some w → r.byId id' = some w' → m ∈ w.modelIds → m ∈ w'.modelIds →
    modesAreMixed w.mode w'.mode = false

/-- A change of a mode does not mix a pool: no other worker of a model of the worker has a mode that
cannot coexist with the new one. -/
def KeepsPools (r : WorkerRegistry) : DiscoveryEvent → Prop
  | .modeChanged id mode =>
      ∀ w id' w' m, r.byId id = some w → id' ≠ id → r.byId id' = some w' → m ∈ w.modelIds →
        m ∈ w'.modelIds → modesAreMixed mode w'.mode = false
  | _ => True

variable {r}

/-! ### The maps agree -/

theorem indexed_empty : empty.Indexed where
  keyed := by simp [empty]
  mem_byModel := by simp [empty]

theorem byId_removeLocked (id id' : WorkerId) :
    (r.removeLocked id).byId id' = if id' = id then none else r.byId id' := by
  rw [removeLocked]
  cases h : r.byId id with
  | none =>
      by_cases heq : id' = id
      · rw [if_pos heq, heq, h]
      · rw [if_neg heq]
  | some w =>
      by_cases heq : id' = id
      · rw [if_pos heq, heq]
        exact Function.update_self ..
      · rw [if_neg heq]
        exact Function.update_of_ne heq ..

theorem Indexed.mem_byModel_removeLocked (h : r.Indexed) (id id' : WorkerId) (m : ModelId) :
    id' ∈ (r.removeLocked id).byModel m ↔ id' ≠ id ∧ id' ∈ r.byModel m := by
  rw [removeLocked]
  cases hw : r.byId id with
  | none =>
      refine ⟨fun hmem => ⟨?_, hmem⟩, fun hmem => hmem.2⟩
      rintro rfl
      obtain ⟨w, hw', -⟩ := (h.mem_byModel m id').1 hmem
      rw [hw] at hw'
      cases hw'
  | some w =>
      by_cases hm : m ∈ w.modelIds
      · simp only [if_pos hm, Finset.mem_erase]
      · simp only [if_neg hm]
        refine ⟨fun hmem => ⟨?_, hmem⟩, fun hmem => hmem.2⟩
        rintro rfl
        obtain ⟨w', hw', hm'⟩ := (h.mem_byModel m id').1 hmem
        rw [hw] at hw'
        cases hw'
        exact hm hm'

theorem Indexed.removeLocked (h : r.Indexed) (id : WorkerId) : (r.removeLocked id).Indexed where
  keyed id' w hw := by
    rw [byId_removeLocked] at hw
    split_ifs at hw
    exact h.keyed id' w hw
  mem_byModel m id' := by
    rw [h.mem_byModel_removeLocked, h.mem_byModel, byId_removeLocked]
    by_cases heq : id' = id <;> simp [heq]

theorem byId_insert (w : Worker) (id : WorkerId) :
    (r.insertWorker w).byId id = if id = w.id then some w else r.byId id := by
  by_cases heq : id = w.id
  · rw [if_pos heq, heq]
    exact Function.update_self ..
  · have hother : (r.insertWorker w).byId id = (r.removeLocked w.id).byId id :=
      Function.update_of_ne heq ..
    rw [hother, byId_removeLocked, if_neg heq, if_neg heq]

theorem Indexed.insertWorker (h : r.Indexed) (w : Worker) : (r.insertWorker w).Indexed where
  keyed id w' hw' := by
    rw [byId_insert] at hw'
    split_ifs at hw' with heq
    · cases hw'
      exact heq.symm
    · exact h.keyed id w' hw'
  mem_byModel m id := by
    rw [byId_insert, WorkerRegistry.insertWorker]
    by_cases hm : m ∈ w.modelIds
    · simp only [if_pos hm, Finset.mem_insert, h.mem_byModel_removeLocked, h.mem_byModel]
      by_cases heq : id = w.id
      · simp [heq, hm]
      · simp [heq]
    · simp only [if_neg hm, h.mem_byModel_removeLocked, h.mem_byModel]
      by_cases heq : id = w.id
      · simp [heq, hm]
      · simp [heq]

theorem byId_changeMode {id : WorkerId} {w : Worker} (hw : r.byId id = some w) (mode : WorkerMode)
    (id' : WorkerId) : (r.changeMode id mode).byId id' =
      if id' = id then some (w.setMode mode) else r.byId id' := by
  simp only [changeMode, hw]
  by_cases heq : id' = id
  · rw [if_pos heq, heq]
    exact Function.update_self ..
  · rw [if_neg heq]
    exact Function.update_of_ne heq ..

theorem changeMode_of_none {id : WorkerId} (hw : r.byId id = none) (mode : WorkerMode) :
    r.changeMode id mode = r := by
  simp only [changeMode, hw]

theorem byModel_changeMode (id : WorkerId) (mode : WorkerMode) :
    (r.changeMode id mode).byModel = r.byModel := by
  rw [changeMode]
  cases r.byId id <;> rfl

theorem Indexed.changeMode (h : r.Indexed) (id : WorkerId) (mode : WorkerMode) :
    (r.changeMode id mode).Indexed := by
  cases hw : r.byId id with
  | none => exact (changeMode_of_none hw mode).symm ▸ h
  | some w =>
      refine ⟨fun id' w' hw' => ?_, fun m id' => ?_⟩
      · rw [byId_changeMode hw] at hw'
        split_ifs at hw' with heq
        · cases hw'
          exact heq ▸ h.keyed id w hw
        · exact h.keyed id' w' hw'
      · rw [byModel_changeMode, byId_changeMode hw, h.mem_byModel]
        by_cases heq : id' = id
        · simp [heq, hw, Worker.setMode]
        · simp [heq]

/-! ### The check of a new worker -/

/-- What `add` can do. -/
theorem add_cases (r : WorkerRegistry) (spec : WorkerSpec) :
    (∃ e, r.add spec = (.error e, r)) ∨
    r.add spec = (.ok (), r.insertWorker (.new spec)) ∧
      ∀ m ∈ spec.modelIds, r.conflicts spec m = false := by
  rw [add]
  cases h : spec.modelIds.find? (r.conflicts spec) with
  | some model => exact .inl ⟨_, rfl⟩
  | none =>
      refine .inr ⟨rfl, fun m hm => ?_⟩
      exact Bool.eq_false_iff.2 (List.find?_eq_none.1 h m hm)

theorem Indexed.add (h : r.Indexed) (spec : WorkerSpec) : (r.add spec).2.Indexed := by
  obtain ⟨e, heq⟩ | ⟨heq, -⟩ := r.add_cases spec
  · exact heq ▸ h
  · exact heq ▸ h.insertWorker _

/-- A rejected worker changes nothing. -/
theorem add_error {spec : WorkerSpec} {e : AddWorkerError} {r' : WorkerRegistry}
    (h : r.add spec = (.error e, r')) : r' = r := by
  obtain ⟨e', heq⟩ | ⟨heq, -⟩ := r.add_cases spec
  · rw [heq] at h
    exact (congrArg Prod.snd h).symm
  · rw [heq] at h
    cases h

/-- A worker that passes the check can coexist with all others. -/
theorem Indexed.not_mixed (h : r.Indexed) {spec : WorkerSpec} {m : ModelId} {id : WorkerId}
    {w : Worker} (hconflicts : r.conflicts spec m = false) (hid : id ≠ spec.id)
    (hw : r.byId id = some w) (hm : m ∈ w.modelIds) : modesAreMixed spec.mode w.mode = false := by
  by_contra hnot
  have hmixed : modesAreMixed spec.mode w.mode = true := by simpa using hnot
  refine Bool.eq_false_iff.1 hconflicts
    (decide_eq_true ⟨id, (h.mem_byModel m id).2 ⟨w, hw, hm⟩, ?_⟩)
  rw [hw, Option.any_some, h.keyed id w hw]
  simp [hid, hmixed]

theorem PoolsPure.insertWorker (hpure : r.PoolsPure) (h : r.Indexed) {spec : WorkerSpec}
    (hcheck : ∀ m ∈ spec.modelIds, r.conflicts spec m = false) :
    (r.insertWorker (.new spec)).PoolsPure := by
  have hspec : ∀ {id w m}, id ≠ spec.id → r.byId id = some w → m ∈ spec.modelIds →
      m ∈ w.modelIds → modesAreMixed spec.mode w.mode = false :=
    fun hid hw hm hm' => h.not_mixed (hcheck _ hm) hid hw hm'
  intro id w id' w' m hw hw' hm hm'
  rw [byId_insert] at hw hw'
  split_ifs at hw with hid <;> split_ifs at hw' with hid'
  · cases hw
    cases hw'
    exact modesAreMixed_self _
  · cases hw
    exact hspec hid' hw' hm hm'
  · cases hw'
    rw [modesAreMixed_comm]
    exact hspec hid hw hm' hm
  · exact hpure id w id' w' m hw hw' hm hm'

theorem PoolsPure.removeLocked (hpure : r.PoolsPure) (id : WorkerId) :
    (r.removeLocked id).PoolsPure := by
  intro id' w id'' w' m hw hw' hm hm'
  rw [byId_removeLocked] at hw hw'
  split_ifs at hw hw'
  exact hpure id' w id'' w' m hw hw' hm hm'

/-- Changing a mode keeps the pools pure exactly if the new mode mixes none. -/
theorem PoolsPure.changeMode_iff (hpure : r.PoolsPure) (id : WorkerId) (mode : WorkerMode) :
    (r.changeMode id mode).PoolsPure ↔ r.KeepsPools (.modeChanged id mode) := by
  cases hw : r.byId id with
  | none =>
      rw [changeMode_of_none hw]
      refine ⟨fun _ w id' w' m hw₀ => ?_, fun _ => hpure⟩
      rw [hw] at hw₀
      cases hw₀
  | some w =>
      constructor
      · intro hafter w₀ id' w' m hw₀ hid' hw' hm hm'
        rw [hw] at hw₀
        cases hw₀
        refine hafter id (w.setMode mode) id' w' m ?_ ?_ hm hm'
        · rw [byId_changeMode hw, if_pos rfl]
        · rw [byId_changeMode hw, if_neg hid', hw']
      · intro hkeeps id₁ w₁ id₂ w₂ m hw₁ hw₂ hm₁ hm₂
        rw [byId_changeMode hw] at hw₁ hw₂
        split_ifs at hw₁ with hid₁ <;> split_ifs at hw₂ with hid₂
        · cases hw₁
          cases hw₂
          exact modesAreMixed_self _
        · cases hw₁
          exact hkeeps w id₂ w₂ m hw hid₂ hw₂ hm₁ hm₂
        · cases hw₂
          rw [modesAreMixed_comm]
          exact hkeeps w id₁ w₁ m hw hid₁ hw₁ hm₂ hm₁
        · exact hpure id₁ w₁ id₂ w₂ m hw₁ hw₂ hm₁ hm₂

/-! ### Runs -/

theorem Indexed.apply (h : r.Indexed) (e : DiscoveryEvent) : (r.apply e).Indexed := by
  cases e with
  | added spec => exact h.add spec
  | removed id => exact h.removeLocked id
  | modeChanged id mode => exact h.changeMode id mode

theorem PoolsPure.apply (hpure : r.PoolsPure) (h : r.Indexed) {e : DiscoveryEvent}
    (he : r.KeepsPools e) :
    (r.apply e).PoolsPure := by
  cases e with
  | added spec =>
      obtain ⟨e, heq⟩ | ⟨heq, hcheck⟩ := r.add_cases spec
      · rw [WorkerRegistry.apply, heq]
        exact hpure
      · rw [WorkerRegistry.apply, heq]
        exact hpure.insertWorker h hcheck
  | removed id => exact hpure.removeLocked id
  | modeChanged id mode => exact (hpure.changeMode_iff id mode).2 he

theorem indexed_run (events : List DiscoveryEvent) : (empty.run events).Indexed :=
  Transition.foldl_invariant (P := fun _ _ => True) (I := Indexed) (fun _ e _ h => h.apply e)
    (Transition.along_of_forall (fun _ _ => trivial) _ _) indexed_empty

/-- **Consistency and purity of the registry.** In every state that a sequence of discovery events
reaches, the models are mapped to the workers that serve them and a rejected worker changes nothing;
and the pools are pure in all these states exactly if no event changes the mode of a worker to one
that cannot coexist with another worker of its models. -/
theorem pools_pure_iff (events : List DiscoveryEvent) :
    (∀ before after, events = before ++ after →
      (empty.run before).Indexed ∧
      (∀ spec e r', (empty.run before).add spec = (.error e, r') → r' = empty.run before) ∧
      (empty.run before).PoolsPure) ↔
    Transition.Along WorkerRegistry.apply KeepsPools empty events := by
  have hpure : ∀ {events}, Transition.Along WorkerRegistry.apply KeepsPools empty events →
      (empty.run events).PoolsPure := by
    intro events hkeeps
    refine (Transition.foldl_invariant (I := fun r => r.Indexed ∧ r.PoolsPure)
      (fun _ _ he h => ⟨h.1.apply _, h.2.apply h.1 he⟩) hkeeps ⟨indexed_empty, ?_⟩).2
    simp [PoolsPure, empty]
  constructor
  · intro hstates
    by_contra hbreaks
    obtain ⟨before, e, after, rfl, hkept, hmixes⟩ := Transition.exists_first hbreaks
    cases e with
    | modeChanged id mode =>
        have hafter := (hstates (before ++ [.modeChanged id mode]) after (by simp)).2.2
        rw [run, List.foldl_append] at hafter
        exact hmixes (((hpure hkept).changeMode_iff id mode).1 hafter)
    | added spec => exact hmixes trivial
    | removed id => exact hmixes trivial
  · rintro hkeeps before after rfl
    refine ⟨indexed_run before, fun _ _ _ h => add_error h, hpure ?_⟩
    exact ((Transition.along_append _ _ _).1 hkeeps).1

/-- Two plain workers of a model, one of which is reported to be a prefill worker. -/
def mixingEvents : List DiscoveryEvent :=
  [.added ⟨⟨"w1"⟩, "http://w1:30000", .plain, [⟨"m"⟩], none⟩,
    .added ⟨⟨"w2"⟩, "http://w2:30000", .plain, [⟨"m"⟩], none⟩,
    .modeChanged ⟨"w1"⟩ .prefill]

/-- A prefill worker that is added for the model is rejected, but one that turns into a prefill
worker stays in the pool. -/
theorem exists_mixed_pool :
    ((empty.run (mixingEvents.take 2)).add
      ⟨⟨"w3"⟩, "http://w3:30000", .prefill, [⟨"m"⟩], none⟩).1 =
        .error (.mixedPdAndPlain ⟨"w3"⟩ ⟨"m"⟩ "prefill") ∧
    ¬ (empty.run mixingEvents).PoolsPure := by
  refine ⟨by decide, fun hpure => ?_⟩
  have hmixed := hpure ⟨"w1"⟩ ⟨⟨"w1"⟩, "http://w1:30000", .prefill, [⟨"m"⟩], none⟩ ⟨"w2"⟩
    ⟨⟨"w2"⟩, "http://w2:30000", .plain, [⟨"m"⟩], none⟩ ⟨"m"⟩ (by decide) (by decide) (by decide)
    (by decide)
  cases hmixed

end WorkerRegistry

end SglangRs.Router
