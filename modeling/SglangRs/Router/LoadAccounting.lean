import Mathlib.Data.Multiset.Filter
import Mathlib.Data.Multiset.Fintype
import SglangRs.Router.ActiveLoad

/-!
# Accounting of the active load

The books of the registry of active load: the requests that are being registered, tracked or
released, each with the axes on which its load is open. Each of the atomic accesses moves one load
into its counters or out of them, looks up counters, or moves a request from one hand to the next,
and the books stay balanced throughout.

## Main definitions

* `Router.Stage`, `Router.Flight`: the requests in flight.
* `ActiveLoadRegistry.Accounts`: the books are balanced.

## Main results

* `ActiveLoadRegistry.active_load_accounted`: every load is added and subtracted once, no counter is
  overdrawn, and the counters of a quiet registry hold what is tracked.
-/

namespace SglangRs.Router

open Ledger

/-- Whether a load was added to its counters and subtracted again. -/
inductive Posting where
  | unposted
  | posted
  | returned
deriving DecidableEq, Repr

/-- How far the accesses for a request have come. -/
inductive Stage where
  | unadded
  | prefillAdded
  | added
  | prefillSubtracted
  | subtracted
deriving DecidableEq, Repr

/-- What has become of the load on an axis. -/
def Stage.posting : Stage → ActiveLoadKind → Posting
  | .unadded, _ => .unposted
  | .prefillAdded, .prefillTokens => .posted
  | .prefillAdded, .decodeBlocks => .unposted
  | .added, _ => .posted
  | .prefillSubtracted, .prefillTokens => .returned
  | .prefillSubtracted, .decodeBlocks => .posted
  | .subtracted, _ => .returned

/-- A request that is being registered, tracked or released. -/
structure Flight (RequestId : Type) where
  id : RequestId
  registration : Registration
  stage : Stage
deriving DecidableEq, Repr

variable {RequestId : Type}

namespace Flight

variable (f : Flight RequestId)

/-- The load of the request on an axis, as a deposit. -/
def deposit (kind : ActiveLoadKind) : Deposit RequestId CountersRef :=
  ActiveLoadRegistry.deposit kind f.id f.registration

/-- The load that is in the counters. -/
def openDeposit (kind : ActiveLoadKind) : Option (Deposit RequestId CountersRef) :=
  if f.stage.posting kind = .posted then some (f.deposit kind) else none

/-- The movements of the load so far. -/
def movements (kind : ActiveLoadKind) : List (Movement RequestId CountersRef) :=
  match f.stage.posting kind with
  | .unposted => []
  | .posted => [.deposited (f.deposit kind)]
  | .returned => [.withdrawn (f.deposit kind), .deposited (f.deposit kind)]

end Flight

/-- The request that a call has in hand. -/
def Operation.flight : Operation RequestId → Option (Flight RequestId)
  | .addPrefill id r => some ⟨id, r, .unadded⟩
  | .addDecode id r => some ⟨id, r, .prefillAdded⟩
  | .insertEntry id r => some ⟨id, r, .added⟩
  | .subPrefill id r _ => some ⟨id, r, .added⟩
  | .subDecode id r _ => some ⟨id, r, .prefillSubtracted⟩
  | _ => none

/-- The request of a call, with others. -/
def Operation.join (op : Operation RequestId) (flights : Multiset (Flight RequestId)) :
    Multiset (Flight RequestId) :=
  op.flight.elim flights (· ::ₘ flights)

theorem Operation.Settled.flight_eq {op : Operation RequestId} (h : op.Settled) :
    op.flight = none := by
  cases op <;> first | rfl | exact h.elim

/-- The open deposits of the requests in flight. -/
def openDeposits (kind : ActiveLoadKind) (flights : Multiset (Flight RequestId)) :
    Multiset (Deposit RequestId CountersRef) :=
  flights.filterMap fun f => f.openDeposit kind

section OpenDeposits

variable {kind : ActiveLoadKind} {f g : Flight RequestId} {rest : Multiset (Flight RequestId)}

theorem openDeposits_cons_of_posted (h : f.stage.posting kind = .posted) :
    openDeposits kind (f ::ₘ rest) = f.deposit kind ::ₘ openDeposits kind rest := by
  have hopen : f.openDeposit kind = some (f.deposit kind) := if_pos h
  exact Multiset.filterMap_cons_some (fun f : Flight RequestId => f.openDeposit kind) f rest hopen

theorem openDeposits_cons_of_not_posted (h : f.stage.posting kind ≠ .posted) :
    openDeposits kind (f ::ₘ rest) = openDeposits kind rest := by
  have hopen : f.openDeposit kind = none := if_neg h
  exact Multiset.filterMap_cons_none f rest hopen

/-- Only the posting of the axis matters. -/
theorem openDeposits_cons_congr (hid : g.id = f.id) (hr : g.registration = f.registration)
    (h : g.stage.posting kind = f.stage.posting kind) :
    openDeposits kind (g ::ₘ rest) = openDeposits kind (f ::ₘ rest) := by
  have hdeposit : g.deposit kind = f.deposit kind := by rw [Flight.deposit, Flight.deposit, hid, hr]
  by_cases hposted : f.stage.posting kind = .posted
  · rw [openDeposits_cons_of_posted hposted, openDeposits_cons_of_posted (h.trans hposted),
      hdeposit]
  · rw [openDeposits_cons_of_not_posted hposted,
      openDeposits_cons_of_not_posted (fun heq => hposted (h.symm.trans heq))]

end OpenDeposits

namespace ActiveLoadRegistry

variable [DecidableEq RequestId] (s : ActiveLoadRegistry RequestId)

/-- A tracked request. -/
def tracked (e : RequestId × RequestEntry) : Flight RequestId := ⟨e.1, e.2.toRegistration, .added⟩

/-- The requests that are being registered, tracked or released. -/
def flights : Multiset (Flight RequestId) :=
  (s.operations.filterMap Operation.flight : Multiset (Flight RequestId)) +
    (s.requests.map tracked : Multiset (Flight RequestId))

/-- The books are balanced when the requests in flight are `flights`. -/
structure Accounts (flights : Multiset (Flight RequestId)) : Prop where
  nodup : (flights.map Flight.id).Nodup
  moved : ∀ f ∈ flights, ∀ kind, movementsOf (s.journal kind) f.id = f.movements kind
  settled : ∀ id r, .registered id r ∈ s.visits → id ∉ flights.map Flight.id → ∀ kind,
    movementsOf (s.journal kind) id =
      [.withdrawn (deposit kind id r), .deposited (deposit kind id r)]
  used : ∀ kind id, movementsOf (s.journal kind) id ≠ [] → ∃ r, .registered id r ∈ s.visits
  unique : ∀ id r r', .registered id r ∈ s.visits → .registered id r' ∈ s.visits → r = r'
  registered : ∀ f ∈ flights, .registered f.id f.registration ∈ s.visits
  balanced : ∀ kind, Balanced (s.journal kind) (openDeposits kind flights)
  counters : ∀ kind c counters, s.counters[c]? = some counters →
    counters.load kind = UInt64.ofNat (holding (openDeposits kind flights) c)
  bounded : ∀ f ∈ flights, f.registration.counters < s.counters.length
  known : ∀ w c, s.workers w = some c → c < s.counters.length
  distinct : ∀ w w' c, s.workers w = some c → s.workers w' = some c → w = w'
  owned : ∀ w c, s.workers w = some c → ∀ f ∈ flights, f.registration.counters = c →
    f.registration.worker = w
  since : ∀ f ∈ flights, s.registeredSince f.registration.worker f.id = true ↔
    s.workers f.registration.worker = some f.registration.counters

variable {s}

/-! ### Movements -/

omit [DecidableEq RequestId] in
theorem journal_record (kind axis : ActiveLoadKind) (m : Movement RequestId CountersRef) :
    (s.record kind m).journal axis =
      if axis = kind then m :: s.journal kind else s.journal axis := by
  by_cases h : axis = kind
  · subst h
    simp [record]
  · simp [record, h]

omit [DecidableEq RequestId] in
theorem getElem?_modifyCounters (c c' : CountersRef) (kind : ActiveLoadKind) (f : UInt64 → UInt64) :
    (s.modifyCounters c kind f).counters[c']? =
      (s.counters[c']?).map fun counters =>
        if c = c' then counters.modify f kind else counters := by
  rw [modifyCounters, List.getElem?_modify]
  by_cases h : c = c' <;> simp [h]

omit [DecidableEq RequestId] in
theorem length_modifyCounters (c : CountersRef) (kind : ActiveLoadKind) (f : UInt64 → UInt64) :
    (s.modifyCounters c kind f).counters.length = s.counters.length :=
  List.length_modify ..

section Move

variable {f g : Flight RequestId} {rest : Multiset (Flight RequestId)} {kind : ActiveLoadKind}
  {s' : ActiveLoadRegistry RequestId} {m : Movement RequestId CountersRef}

/-- **A movement of one load.** The load of the request `f` moves on one axis, which turns the
request into `g`; the journal records it and the counters follow. -/
theorem Accounts.move (h : s.Accounts (f ::ₘ rest)) (hid : g.id = f.id)
    (hr : g.registration = f.registration) (hkey : m.key = f.id)
    (hjournal : ∀ axis, s'.journal axis =
      if axis = kind then m :: s.journal kind else s.journal axis)
    (hmovements : g.movements kind = m :: f.movements kind)
    (hother : ∀ axis, axis ≠ kind → g.stage.posting axis = f.stage.posting axis)
    (hworkers : s'.workers = s.workers) (hvisits : s'.visits = s.visits)
    (hlength : s'.counters.length = s.counters.length)
    (hbalanced : Balanced (s'.journal kind) (openDeposits kind (g ::ₘ rest)))
    (hcounters : ∀ axis c counters, s'.counters[c]? = some counters →
      counters.load axis = UInt64.ofNat (holding (openDeposits axis (g ::ₘ rest)) c)) :
    s'.Accounts (g ::ₘ rest) := by
  have hids : ((g ::ₘ rest).map Flight.id) = ((f ::ₘ rest).map Flight.id) := by simp [hid]
  have hnodup := h.nodup
  rw [Multiset.map_cons, Multiset.nodup_cons] at hnodup
  have hne : ∀ e ∈ rest, m.key ≠ e.id := fun e he heq =>
    hnodup.1 (hkey ▸ heq ▸ Multiset.mem_map_of_mem _ he)
  have hsince : ∀ w id, s'.registeredSince w id = s.registeredSince w id := by
    intro w id
    rw [registeredSince, registeredSince, hvisits]
  have hmem : ∀ e ∈ g ::ₘ rest, e = g ∨ e ∈ rest := fun e he => Multiset.mem_cons.1 he
  have hf := Multiset.mem_cons_self f rest
  have hthere : ∀ e ∈ rest, e ∈ f ::ₘ rest := fun e he => Multiset.mem_cons_of_mem he
  have hmoved : ∀ id, m.key ≠ id → ∀ axis,
      movementsOf (s'.journal axis) id = movementsOf (s.journal axis) id := by
    intro id hid axis
    rw [hjournal]
    by_cases haxis : axis = kind
    · rw [if_pos haxis, movementsOf_cons_of_ne m hid, haxis]
    · rw [if_neg haxis]
  refine ⟨hids ▸ h.nodup, ?_, ?_, ?_, hvisits ▸ h.unique, ?_, ?_, hcounters, ?_,
    by rw [hworkers, hlength]; exact h.known, hworkers ▸ h.distinct, ?_, ?_⟩
  · intro e he axis
    obtain rfl | he := hmem e he
    · rw [hjournal]
      by_cases haxis : axis = kind
      · subst haxis
        rw [if_pos rfl, movementsOf_cons_of_eq m (hkey.trans hid.symm), hmovements, hid,
          h.moved f hf]
      · have hsame : e.movements axis = f.movements axis := by
          have hdeposit : e.deposit axis = f.deposit axis := by
            rw [Flight.deposit, Flight.deposit, hid, hr]
          rw [Flight.movements, Flight.movements, hother axis haxis, hdeposit]
        rw [if_neg haxis, hsame, hid, h.moved f hf]
    · rw [hmoved e.id (hne e he)]
      exact h.moved e (hthere e he) axis
  · intro id r hvisit hfree axis
    rw [hids] at hfree
    rw [hvisits] at hvisit
    have hid' : m.key ≠ id := by
      rintro rfl
      exact hfree (hkey ▸ Multiset.mem_map_of_mem _ hf)
    rw [hmoved id hid']
    exact h.settled id r hvisit hfree axis
  · intro axis id hused
    rw [hvisits]
    by_cases hid' : m.key = id
    · exact ⟨f.registration, hid' ▸ hkey ▸ h.registered f hf⟩
    · rw [hmoved id hid'] at hused
      exact h.used axis id hused
  · intro e he
    rw [hvisits]
    obtain rfl | he := hmem e he
    · rw [hid, hr]
      exact h.registered f hf
    · exact h.registered e (hthere e he)
  · intro axis
    by_cases haxis : axis = kind
    · exact haxis ▸ hbalanced
    · rw [hjournal, if_neg haxis, openDeposits_cons_congr hid hr (hother axis haxis)]
      exact h.balanced axis
  · intro e he
    rw [hlength]
    obtain rfl | he := hmem e he
    · exact hr ▸ h.bounded f hf
    · exact h.bounded e (hthere e he)
  · intro w c hw e he
    rw [hworkers] at hw
    obtain rfl | he := hmem e he
    · rw [hr]
      exact h.owned w c hw f hf
    · exact h.owned w c hw e (hthere e he)
  · intro e he
    rw [hworkers, hsince]
    obtain rfl | he := hmem e he
    · rw [hr, hid]
      exact h.since f hf
    · exact h.since e (hthere e he)

end Move

section Loads

variable {id : RequestId} {r : Registration} {stage stage' : Stage}
  {rest : Multiset (Flight RequestId)} {kind : ActiveLoadKind}

omit [DecidableEq RequestId] in
theorem holding_deposit_self (deposits : Multiset (Deposit RequestId CountersRef)) :
    holding (deposit kind id r ::ₘ deposits) r.counters =
      (r.load kind).toNat + holding deposits r.counters :=
  holding_cons.trans (congrArg (· + _) (if_pos rfl))

omit [DecidableEq RequestId] in
/-- A flight deposits nothing into other counters. -/
theorem holding_openDeposits_of_ne {c : CountersRef} (hc : c ≠ r.counters) (stage : Stage) :
    holding (openDeposits kind ((⟨id, r, stage⟩ : Flight RequestId) ::ₘ rest)) c =
      holding (openDeposits kind rest) c := by
  by_cases hposted : stage.posting kind = .posted
  · rw [openDeposits_cons_of_posted hposted, holding_cons]
    exact (congrArg (· + _) (if_neg (Ne.symm hc))).trans (Nat.zero_add _)
  · rw [openDeposits_cons_of_not_posted hposted]

/-- The counters after the counter of one axis has changed in one place. -/
theorem counters_modify {f : UInt64 → UInt64} (h : s.Accounts (⟨id, r, stage⟩ ::ₘ rest))
    (hother : ∀ axis, axis ≠ kind → stage'.posting axis = stage.posting axis)
    (hhere : f (UInt64.ofNat (holding (openDeposits kind (⟨id, r, stage⟩ ::ₘ rest)) r.counters)) =
      UInt64.ofNat (holding (openDeposits kind (⟨id, r, stage'⟩ ::ₘ rest)) r.counters))
    (axis : ActiveLoadKind) (c : CountersRef) (counters : WorkerCounters)
    (hget : (s.modifyCounters r.counters kind f).counters[c]? = some counters) :
    counters.load axis =
      UInt64.ofNat (holding (openDeposits axis (⟨id, r, stage'⟩ ::ₘ rest)) c) := by
  rw [getElem?_modifyCounters] at hget
  obtain ⟨old, hold, rfl⟩ := Option.map_eq_some_iff.1 hget
  by_cases hcc : r.counters = c
  · subst hcc
    rw [if_pos rfl, WorkerCounters.load_modify]
    by_cases haxis : axis = kind
    · subst haxis
      rw [if_pos rfl, h.counters axis _ old hold, hhere]
    · rw [if_neg haxis, h.counters axis _ old hold, openDeposits_cons_congr (f := ⟨id, r, stage⟩)
        (g := ⟨id, r, stage'⟩) rfl rfl (hother axis haxis)]
  · rw [if_neg hcc, h.counters axis c old hold, holding_openDeposits_of_ne (Ne.symm hcc),
      holding_openDeposits_of_ne (Ne.symm hcc)]

/-- A load that was not added yet is added. -/
theorem Accounts.fetchAdd (kind : ActiveLoadKind) (stage' : Stage)
    (h : s.Accounts (⟨id, r, stage⟩ ::ₘ rest))
    (hbefore : stage.posting kind = .unposted) (hafter : stage'.posting kind = .posted)
    (hother : ∀ axis, axis ≠ kind → stage'.posting axis = stage.posting axis) :
    (s.fetchAdd kind id r).Accounts (⟨id, r, stage'⟩ ::ₘ rest) := by
  have hf := Multiset.mem_cons_self (⟨id, r, stage⟩ : Flight RequestId) rest
  have hold : openDeposits kind ((⟨id, r, stage⟩ : Flight RequestId) ::ₘ rest) =
      openDeposits kind rest :=
    openDeposits_cons_of_not_posted (by simp [hbefore])
  have hnew : openDeposits kind ((⟨id, r, stage'⟩ : Flight RequestId) ::ₘ rest) =
      deposit kind id r ::ₘ openDeposits kind rest :=
    openDeposits_cons_of_posted hafter
  have hunmoved : movementsOf (s.journal kind) id = [] := by
    have hmoved := h.moved _ hf kind
    rwa [Flight.movements, hbefore] at hmoved
  refine h.move (m := .deposited (deposit kind id r)) rfl rfl rfl (journal_record kind · _)
    ?_ hother rfl rfl (length_modifyCounters ..) ?_ ?_
  · rw [Flight.movements, Flight.movements, hbefore, hafter]
    rfl
  · rw [ActiveLoadRegistry.fetchAdd, journal_record, if_pos rfl, hnew]
    exact (hold ▸ h.balanced kind).deposit hunmoved
  · refine counters_modify h hother ?_
    rw [hnew, hold, holding_deposit_self, UInt64.ofNat_add, UInt64.ofNat_toNat, UInt64.add_comm]

/-- A load that is in its counters is subtracted. -/
theorem Accounts.fetchSub (kind : ActiveLoadKind) (stage' : Stage)
    (h : s.Accounts (⟨id, r, stage⟩ ::ₘ rest))
    (hbefore : stage.posting kind = .posted) (hafter : stage'.posting kind = .returned)
    (hother : ∀ axis, axis ≠ kind → stage'.posting axis = stage.posting axis) :
    (s.fetchSub kind id r).Accounts (⟨id, r, stage'⟩ ::ₘ rest) := by
  have hf := Multiset.mem_cons_self (⟨id, r, stage⟩ : Flight RequestId) rest
  have hold : openDeposits kind ((⟨id, r, stage⟩ : Flight RequestId) ::ₘ rest) =
      deposit kind id r ::ₘ openDeposits kind rest :=
    openDeposits_cons_of_posted hbefore
  have hnew : openDeposits kind ((⟨id, r, stage'⟩ : Flight RequestId) ::ₘ rest) =
      openDeposits kind rest :=
    openDeposits_cons_of_not_posted (by simp [hafter])
  refine h.move (m := .withdrawn (deposit kind id r)) rfl rfl rfl (journal_record kind · _)
    ?_ hother rfl rfl (length_modifyCounters ..) ?_ ?_
  · rw [Flight.movements, Flight.movements, hbefore, hafter]
    rfl
  · rw [ActiveLoadRegistry.fetchSub, journal_record, if_pos rfl, hnew]
    exact (hold ▸ h.balanced kind).withdraw
  · refine counters_modify h hother ?_
    rw [hnew, hold, holding_deposit_self, UInt64.ofNat_add, UInt64.ofNat_toNat, UInt64.add_comm,
      UInt64.add_sub_cancel]

/-- A request whose loads were subtracted is no longer in flight. -/
theorem Accounts.discharge (h : s.Accounts (⟨id, r, .subtracted⟩ ::ₘ rest)) : s.Accounts rest := by
  have hf := Multiset.mem_cons_self (⟨id, r, .subtracted⟩ : Flight RequestId) rest
  have hthere : ∀ e ∈ rest, e ∈ (⟨id, r, .subtracted⟩ : Flight RequestId) ::ₘ rest :=
    fun e he => Multiset.mem_cons_of_mem he
  have hnodup := h.nodup
  rw [Multiset.map_cons, Multiset.nodup_cons] at hnodup
  have hdeposits : ∀ kind,
      openDeposits kind ((⟨id, r, .subtracted⟩ : Flight RequestId) ::ₘ rest) =
        openDeposits kind rest :=
    fun kind => openDeposits_cons_of_not_posted (by simp [Stage.posting])
  refine ⟨hnodup.2, fun e he => h.moved e (hthere e he), ?_, h.used, h.unique,
    fun e he => h.registered e (hthere e he), fun kind => hdeposits kind ▸ h.balanced kind,
    fun kind => hdeposits kind ▸ h.counters kind, fun e he => h.bounded e (hthere e he), h.known,
    h.distinct, fun w c hw e he => h.owned w c hw e (hthere e he),
    fun e he => h.since e (hthere e he)⟩
  intro id' r' hvisit hfree kind
  by_cases hid : id' = id
  · subst hid
    rw [h.unique id' r' r hvisit (h.registered _ hf)]
    exact h.moved _ hf kind
  · refine h.settled id' r' hvisit ?_ kind
    rw [Multiset.map_cons, Multiset.mem_cons, not_or]
    exact ⟨hid, hfree⟩

end Loads

/-! ### Lookups -/

section Lookups

variable {s' : ActiveLoadRegistry RequestId} {flights : Multiset (Flight RequestId)}

theorem registeredSince_of_registered {id : RequestId} {r : Registration}
    (hvisits : s'.visits = .registered id r :: s.visits)
    (w : WorkerId) (id' : RequestId) : s'.registeredSince w id' =
      (decide (id = id' ∧ r.worker = w) || s.registeredSince w id') := by
  rw [registeredSince, hvisits, List.takeWhile_cons_of_pos (by simp), List.any_cons]
  rfl

theorem registeredSince_of_forgot_self {w : WorkerId} (hvisits : s'.visits = .forgot w :: s.visits)
    (id : RequestId) : s'.registeredSince w id = false := by
  rw [registeredSince, hvisits, List.takeWhile_cons_of_neg (by simp), List.any_nil]

theorem registeredSince_of_forgot {w w' : WorkerId} (hne : w' ≠ w)
    (hvisits : s'.visits = .forgot w :: s.visits) (id : RequestId) :
    s'.registeredSince w' id = s.registeredSince w' id := by
  rw [registeredSince, hvisits, List.takeWhile_cons_of_pos (by simpa using Ne.symm hne),
    List.any_cons, Bool.false_or, registeredSince]

/-- The books depend on the history, the counters and the workers only. -/
theorem Accounts.congr (h : s.Accounts flights) (hjournal : s'.journal = s.journal)
    (hvisits : s'.visits = s.visits) (hcounters : s'.counters = s.counters)
    (hworkers : s'.workers = s.workers) : s'.Accounts flights := by
  have hsince : ∀ w id, s'.registeredSince w id = s.registeredSince w id := by
    intro w id
    rw [registeredSince, registeredSince, hvisits]
  refine ⟨h.nodup, hjournal ▸ h.moved, hvisits ▸ hjournal ▸ h.settled,
    hvisits ▸ hjournal ▸ h.used, hvisits ▸ h.unique, hvisits ▸ h.registered,
    hjournal ▸ h.balanced, hcounters ▸ h.counters, hcounters ▸ h.bounded,
    hcounters ▸ hworkers ▸ h.known, hworkers ▸ h.distinct, hworkers ▸ h.owned, fun f hf => ?_⟩
  rw [hsince, hworkers]
  exact h.since f hf

/-- New counters for a worker that has none. -/
theorem Accounts.allocate {w : WorkerId} (h : s.Accounts flights) (hw : s.workers w = none)
    (hjournal : s'.journal = s.journal) (hvisits : s'.visits = s.visits)
    (hcounters : s'.counters = s.counters ++ [({} : WorkerCounters)])
    (hworkers : s'.workers = Function.update s.workers w (some s.counters.length)) :
    s'.Accounts flights := by
  have hlength : s'.counters.length = s.counters.length + 1 := by simp [hcounters]
  have hcases : ∀ w' c, s'.workers w' = some c →
      (w' = w ∧ c = s.counters.length) ∨ (w' ≠ w ∧ s.workers w' = some c) := by
    intro w' c hw'
    rw [hworkers] at hw'
    by_cases heq : w' = w
    · rw [heq, Function.update_self] at hw'
      exact .inl ⟨heq, (Option.some.inj hw').symm⟩
    · rw [Function.update_of_ne heq] at hw'
      exact .inr ⟨heq, hw'⟩
  have hempty : ∀ kind, holding (openDeposits kind flights) s.counters.length = 0 := by
    intro kind
    rw [holding, Multiset.filter_eq_nil.2, Multiset.map_zero, Multiset.sum_zero]
    intro d hd heq
    obtain ⟨f, hf, hopen⟩ := (Multiset.mem_filterMap _ _).1 hd
    rw [Flight.openDeposit] at hopen
    split_ifs at hopen
    cases hopen
    exact absurd (h.bounded f hf) (Nat.not_lt.2 (Nat.le_of_eq (Eq.symm heq)))
  refine ⟨h.nodup, hjournal ▸ h.moved, hvisits ▸ hjournal ▸ h.settled,
    hvisits ▸ hjournal ▸ h.used, hvisits ▸ h.unique, hvisits ▸ h.registered,
    hjournal ▸ h.balanced, ?_, ?_, ?_, ?_, ?_, ?_⟩
  · intro kind c counters hget
    rw [hcounters] at hget
    obtain hlt | rfl | hgt := Nat.lt_trichotomy c s.counters.length
    · rw [List.getElem?_append_left hlt] at hget
      exact h.counters kind c counters hget
    · rw [List.getElem?_concat_length] at hget
      cases hget
      rw [hempty, WorkerCounters.load_default]
      rfl
    · rw [List.getElem?_eq_none (by rw [List.length_append]; exact hgt)] at hget
      cases hget
  · intro f hf
    rw [hlength]
    exact Nat.lt_succ_of_lt (h.bounded f hf)
  · intro w' c hw'
    rw [hlength]
    obtain ⟨-, rfl⟩ | ⟨-, hw'⟩ := hcases w' c hw'
    · exact Nat.lt_succ_self _
    · exact Nat.lt_succ_of_lt (h.known w' c hw')
  · intro w' w'' c hw' hw''
    obtain ⟨rfl, rfl⟩ | ⟨-, hw'⟩ := hcases w' c hw' <;>
      obtain ⟨rfl, hc⟩ | ⟨-, hw''⟩ := hcases w'' _ hw''
    · rfl
    · exact absurd (h.known w'' _ hw'') (Nat.lt_irrefl _)
    · exact absurd (h.known w' c hw') (hc ▸ Nat.lt_irrefl _)
    · exact h.distinct w' w'' c hw' hw''
  · intro w' c hw' f hf hc
    obtain ⟨-, rfl⟩ | ⟨-, hw'⟩ := hcases w' c hw'
    · exact absurd (h.bounded f hf) (hc ▸ Nat.lt_irrefl _)
    · exact h.owned w' c hw' f hf hc
  · intro f hf
    have hsame : s'.registeredSince f.registration.worker f.id =
        s.registeredSince f.registration.worker f.id := by
      rw [registeredSince, registeredSince, hvisits]
    rw [hsame, hworkers]
    by_cases heq : f.registration.worker = w
    · have hbounded := h.bounded f hf
      rw [h.since f hf, heq, hw, Function.update_self]
      simp only [reduceCtorEq, Option.some.injEq, false_iff]
      exact Nat.ne_of_gt hbounded
    · rw [Function.update_of_ne heq]
      exact h.since f hf

/-- A request is registered with the counters of its worker. -/
theorem Accounts.register {id : RequestId} {r : Registration} (h : s.Accounts flights)
    (hnew : ∀ r', .registered id r' ∉ s.visits) (hr : s.workers r.worker = some r.counters)
    (hjournal : s'.journal = s.journal) (hvisits : s'.visits = .registered id r :: s.visits)
    (hcounters : s'.counters = s.counters) (hworkers : s'.workers = s.workers) :
    s'.Accounts (⟨id, r, .unadded⟩ ::ₘ flights) := by
  have hunmoved : ∀ kind, movementsOf (s.journal kind) id = [] := by
    intro kind
    by_contra hused
    obtain ⟨r', hr'⟩ := h.used kind id hused
    exact hnew r' hr'
  have hother : ∀ f ∈ flights, f.id ≠ id :=
    fun f hf heq => hnew f.registration (heq ▸ h.registered f hf)
  have hdeposits : ∀ kind,
      openDeposits kind ((⟨id, r, .unadded⟩ : Flight RequestId) ::ₘ flights) =
        openDeposits kind flights :=
    fun kind => openDeposits_cons_of_not_posted (by simp [Stage.posting])
  refine ⟨?_, ?_, ?_, ?_, ?_, ?_, fun kind => hdeposits kind ▸ hjournal ▸ h.balanced kind,
    fun kind => hdeposits kind ▸ hcounters ▸ h.counters kind, ?_,
    hcounters ▸ hworkers ▸ h.known, hworkers ▸ h.distinct, ?_, ?_⟩
  · rw [Multiset.map_cons, Multiset.nodup_cons]
    refine ⟨fun hmem => ?_, h.nodup⟩
    obtain ⟨f, hf, heq⟩ := Multiset.mem_map.1 hmem
    exact hother f hf heq
  · intro f hf kind
    rw [hjournal]
    obtain rfl | hf := Multiset.mem_cons.1 hf
    · exact hunmoved kind
    · exact h.moved f hf kind
  · intro id' r' hvisit hfree kind
    rw [Multiset.map_cons, Multiset.mem_cons, not_or] at hfree
    rw [hvisits] at hvisit
    rw [hjournal]
    obtain heq | hvisit := List.mem_cons.1 hvisit
    · cases heq
      exact absurd rfl hfree.1
    · exact h.settled id' r' hvisit hfree.2 kind
  · intro kind id' hused
    rw [hjournal] at hused
    rw [hvisits]
    obtain ⟨r', hr'⟩ := h.used kind id' hused
    exact ⟨r', List.mem_cons_of_mem _ hr'⟩
  · intro id' r₁ r₂ h₁ h₂
    rw [hvisits] at h₁ h₂
    obtain h₁ | h₁ := List.mem_cons.1 h₁ <;> obtain h₂ | h₂ := List.mem_cons.1 h₂
    · cases h₁
      cases h₂
      rfl
    · cases h₁
      exact absurd h₂ (hnew r₂)
    · cases h₂
      exact absurd h₁ (hnew r₁)
    · exact h.unique id' r₁ r₂ h₁ h₂
  · intro f hf
    rw [hvisits]
    obtain rfl | hf := Multiset.mem_cons.1 hf
    · exact List.mem_cons_self
    · exact List.mem_cons_of_mem _ (h.registered f hf)
  · intro f hf
    rw [hcounters]
    obtain rfl | hf := Multiset.mem_cons.1 hf
    · exact h.known r.worker r.counters hr
    · exact h.bounded f hf
  · intro w c hw f hf hc
    rw [hworkers] at hw
    obtain rfl | hf := Multiset.mem_cons.1 hf
    · exact h.distinct _ _ c (hc ▸ hr) hw
    · exact h.owned w c hw f hf hc
  · intro f hf
    rw [registeredSince_of_registered hvisits, hworkers]
    obtain rfl | hf := Multiset.mem_cons.1 hf
    · simp [hr]
    · simp only [Ne.symm (hother f hf), false_and, decide_false, Bool.false_or]
      exact h.since f hf

/-- A worker is forgotten. -/
theorem Accounts.forget {w : WorkerId} (h : s.Accounts flights) (hjournal : s'.journal = s.journal)
    (hvisits : s'.visits = .forgot w :: s.visits) (hcounters : s'.counters = s.counters)
    (hworkers : s'.workers = Function.update s.workers w none) : s'.Accounts flights := by
  have hstill : ∀ w' c, s'.workers w' = some c → s.workers w' = some c := by
    intro w' c hw'
    rw [hworkers] at hw'
    by_cases heq : w' = w
    · rw [heq, Function.update_self] at hw'
      cases hw'
    · rwa [Function.update_of_ne heq] at hw'
  have hvisit : ∀ id r, .registered id r ∈ s'.visits ↔ .registered id r ∈ s.visits := by
    intro id r
    simp [hvisits]
  refine ⟨h.nodup, hjournal ▸ h.moved, fun id r hr => ?_, fun kind id hused => ?_,
    fun id r r' hr hr' => ?_, fun f hf => (hvisit _ _).2 (h.registered f hf),
    hjournal ▸ h.balanced, hcounters ▸ h.counters, hcounters ▸ h.bounded,
    fun w' c hw' => hcounters ▸ h.known w' c (hstill w' c hw'),
    fun w' w'' c hw' hw'' => h.distinct w' w'' c (hstill w' c hw') (hstill w'' c hw''),
    fun w' c hw' => h.owned w' c (hstill w' c hw'), fun f hf => ?_⟩
  · exact hjournal ▸ h.settled id r ((hvisit id r).1 hr)
  · obtain ⟨r, hr⟩ := h.used kind id (hjournal ▸ hused)
    exact ⟨r, (hvisit id r).2 hr⟩
  · exact h.unique id r r' ((hvisit id r).1 hr) ((hvisit id r').1 hr')
  · by_cases heq : f.registration.worker = w
    · rw [heq, registeredSince_of_forgot_self hvisits, hworkers, Function.update_self]
      simp
    · rw [registeredSince_of_forgot heq hvisits, hworkers, Function.update_of_ne heq]
      exact h.since f hf

end Lookups

/-! ### Steps -/

section Steps

variable {op op' : Operation RequestId} {k : ℕ} {operations : List (Operation RequestId)}

/-- The requests that the calls have in hand. -/
def inHand (operations : List (Operation RequestId)) : Multiset (Flight RequestId) :=
  (operations.filterMap Operation.flight : Multiset (Flight RequestId))

/-- The tracked requests. -/
def trackedFlights (requests : List (RequestId × RequestEntry)) : Multiset (Flight RequestId) :=
  (requests.map tracked : Multiset (Flight RequestId))

omit [DecidableEq RequestId] in
theorem flights_eq : s.flights = inHand s.operations + trackedFlights s.requests := rfl

omit [DecidableEq RequestId] in
theorem join_add (op : Operation RequestId) (flights flights' : Multiset (Flight RequestId)) :
    op.join flights + flights' = op.join (flights + flights') := by
  rw [Operation.join, Operation.join]
  cases op.flight with
  | none => rfl
  | some f => exact Multiset.cons_add ..

/-- The requests in flight but for those that a call has in hand. -/
def others (s : ActiveLoadRegistry RequestId) (k : ℕ) : Multiset (Flight RequestId) :=
  inHand (s.operations.eraseIdx k) + trackedFlights s.requests

omit [DecidableEq RequestId] in
theorem flights_of_getElem? (hk : s.operations[k]? = some op) :
    s.flights = op.join (s.others k) := by
  obtain ⟨hlt, rfl⟩ := List.getElem?_eq_some_iff.1 hk
  have hperm := (List.getElem_cons_eraseIdx_perm hlt).symm.filterMap Operation.flight
  rw [flights_eq, inHand, Multiset.coe_eq_coe.2 hperm, List.filterMap_cons, others, ← join_add,
    Operation.join]
  cases (s.operations[k]).flight <;> rfl

omit [DecidableEq RequestId] in
theorem flights_setOperation (hk : s.operations[k]? = some op) (op' : Operation RequestId) :
    (s.setOperation k op').flights = op'.join (s.others k) := by
  obtain ⟨hlt, -⟩ := List.getElem?_eq_some_iff.1 hk
  have hset : (s.setOperation k op').operations[k]? = some op' := List.getElem?_set_self hlt
  rw [flights_of_getElem? hset, others, others, setOperation, List.eraseIdx_set_eq]

omit [DecidableEq RequestId] in
theorem flights_spawn (op : Operation RequestId) : (s.spawn op).flights = op.join s.flights := by
  have hperm : ((s.operations ++ [op]).filterMap Operation.flight).Perm
      ((op :: s.operations).filterMap Operation.flight) :=
    (List.perm_append_singleton op s.operations).filterMap _
  rw [flights_eq, flights_eq, ← join_add, Operation.join, spawn, inHand,
    Multiset.coe_eq_coe.2 hperm,
    List.filterMap_cons]
  cases op.flight <;> rfl

/-- A call that moves on without a load leaves the requests in flight as they are. -/
theorem Accounts.setOperation (h : s.Accounts s.flights) (hk : s.operations[k]? = some op)
    (hflight : op'.flight = op.flight) :
    (s.setOperation k op').Accounts (s.setOperation k op').flights := by
  have hflights : (s.setOperation k op').flights = s.flights := by
    rw [flights_setOperation hk, flights_of_getElem? hk, Operation.join, Operation.join, hflight]
  rw [hflights]
  exact h.congr rfl rfl rfl rfl

theorem Accounts.spawn (h : s.Accounts s.flights) (hflight : op.flight = none) :
    (s.spawn op).Accounts (s.spawn op).flights := by
  have hflights : (s.spawn op).flights = s.flights := by
    rw [flights_spawn, Operation.join, hflight]
    rfl
  rw [hflights]
  exact h.congr rfl rfl rfl rfl

/-- The entry of a request is one of the requests. -/
theorem trackedFlights_of_entry {id : RequestId} {e : RequestEntry} (he : s.entry id = some e) :
    trackedFlights s.requests = ⟨id, e.toRegistration, .added⟩ ::ₘ
      trackedFlights (s.requests.eraseP (·.1 = id)) := by
  obtain ⟨⟨id', e'⟩, hfind, rfl⟩ := Option.map_eq_some_iff.1 he
  obtain ⟨hid, before, after, heq, hbefore⟩ := List.find?_eq_some_iff_append.1 hfind
  have hid' : id' = id := by simpa using hid
  have herase : s.requests.eraseP (·.1 = id) = before ++ after := by
    rw [heq, List.eraseP_append_right _ fun x hx => by simpa using hbefore x hx,
      List.eraseP_cons_of_pos (by simpa using hid')]
  rw [herase, heq, trackedFlights, trackedFlights, Multiset.cons_coe, Multiset.coe_eq_coe]
  subst hid'
  simp only [List.map_append, List.map_cons]
  exact List.perm_middle

theorem Accounts.advance (h : s.Accounts s.flights) (hk : s.operations[k]? = some op) :
    (s.advance k op).Accounts (s.advance k op).flights := by
  have hflights := flights_of_getElem? hk
  rw [hflights] at h
  cases op with
  | addPrefill id r =>
      replace h : s.Accounts (⟨id, r, .unadded⟩ ::ₘ s.others k) := h
      have hadded := Accounts.fetchAdd .prefillTokens .prefillAdded h rfl rfl
        (by rintro (_ | _) hne <;> first | rfl | exact absurd rfl hne)
      have hnew := flights_setOperation (s := s.fetchAdd .prefillTokens id r) hk (.addDecode id r)
      exact hnew ▸ hadded.congr rfl rfl rfl rfl
  | addDecode id r =>
      replace h : s.Accounts (⟨id, r, .prefillAdded⟩ ::ₘ s.others k) := h
      have hadded := Accounts.fetchAdd .decodeBlocks .added h rfl rfl
        (by rintro (_ | _) hne <;> first | rfl | exact absurd rfl hne)
      have hnew := flights_setOperation (s := s.fetchAdd .decodeBlocks id r) hk (.insertEntry id r)
      exact hnew ▸ hadded.congr rfl rfl rfl rfl
  | insertEntry id r =>
      replace h : s.Accounts (⟨id, r, .added⟩ ::ₘ s.others k) := h
      have hnodup := h.nodup
      rw [Multiset.map_cons, Multiset.nodup_cons] at hnodup
      have herase : s.requests.eraseP (·.1 = id) = s.requests := by
        refine List.eraseP_of_forall_not fun e he heq => hnodup.1 ?_
        have hmem : tracked e ∈ s.others k :=
          Multiset.mem_add.2 (.inr (Multiset.mem_coe.2 (List.mem_map_of_mem he)))
        exact Multiset.mem_map.2 ⟨tracked e, hmem, of_decide_eq_true heq⟩
      have hnew : (s.advance k (.insertEntry id r)).flights = ⟨id, r, .added⟩ ::ₘ s.others k := by
        rw [ActiveLoadRegistry.advance, herase]
        refine (flights_setOperation (s := { s with
          requests := (id, ⟨r, s.clock⟩) :: s.requests, guards := _ }) hk .done).trans ?_
        show inHand _ + (tracked (id, ⟨r, s.clock⟩) ::ₘ trackedFlights s.requests) = _
        exact Multiset.add_cons ..
      exact hnew ▸ h.congr rfl rfl rfl rfl
  | scanning now expired => exact (hflights ▸ h).setOperation hk rfl
  | removing ids =>
      rw [← hflights] at h
      cases ids with
      | nil => exact h.setOperation hk rfl
      | cons id ids =>
          cases he : s.entry id with
          | none =>
              have hadvance : s.advance k (.removing (id :: ids)) =
                  s.setOperation k (.removing ids) := by
                simp only [ActiveLoadRegistry.advance, he]
              exact hadvance ▸ h.setOperation hk rfl
          | some e =>
              have hadvance : s.advance k (.removing (id :: ids)) =
                  ({ s with requests := s.requests.eraseP (·.1 = id) } :
                    ActiveLoadRegistry RequestId).setOperation k
                      (.subPrefill id e.toRegistration ids) := by
                simp only [ActiveLoadRegistry.advance, he]
              have hnew : (s.advance k (.removing (id :: ids))).flights = s.flights := by
                rw [hadvance, hflights]
                refine (flights_setOperation
                  (s := { s with requests := s.requests.eraseP (·.1 = id) }) hk _).trans ?_
                show ⟨id, e.toRegistration, .added⟩ ::ₘ (inHand _ + trackedFlights _) =
                  inHand _ + trackedFlights s.requests
                rw [trackedFlights_of_entry he, Multiset.add_cons]
              rw [hnew]
              exact h.congr (by rw [hadvance]; rfl) (by rw [hadvance]; rfl) (by rw [hadvance]; rfl)
                (by rw [hadvance]; rfl)
  | subPrefill id r ids =>
      replace h : s.Accounts (⟨id, r, .added⟩ ::ₘ s.others k) := h
      have hsubtracted := Accounts.fetchSub .prefillTokens .prefillSubtracted h rfl rfl
        (by rintro (_ | _) hne <;> first | rfl | exact absurd rfl hne)
      have hnew := flights_setOperation (s := s.fetchSub .prefillTokens id r) hk
        (.subDecode id r ids)
      exact hnew ▸ hsubtracted.congr rfl rfl rfl rfl
  | subDecode id r ids =>
      replace h : s.Accounts (⟨id, r, .prefillSubtracted⟩ ::ₘ s.others k) := h
      have hsubtracted := Accounts.fetchSub .decodeBlocks .subtracted h rfl rfl
        (by rintro (_ | _) hne <;> first | rfl | exact absurd rfl hne)
      have hnew := flights_setOperation (s := s.fetchSub .decodeBlocks id r) hk (.removing ids)
      exact hnew ▸ (hsubtracted.discharge).congr rfl rfl rfl rfl
  | done => exact hflights ▸ h

/-- The books of a reachable state: they are balanced, and the requests registered so far are those
of the calls made so far. -/
structure Invariant (newV4 : ℕ → RequestId) (s : ActiveLoadRegistry RequestId) : Prop where
  accounts : s.Accounts s.flights
  drawn : ∀ id r, .registered id r ∈ s.visits → ∃ n < s.operations.length, id = newV4 n

variable {newV4 : ℕ → RequestId}

theorem Accounts.lookup {id : RequestId} {worker : WorkerId} {prefillLoad decodeLoad : UInt64}
    (h : s.Accounts s.flights) (hnew : ∀ r, .registered id r ∉ s.visits) :
    (s.lookup id worker prefillLoad decodeLoad).Accounts
      (s.lookup id worker prefillLoad decodeLoad).flights := by
  cases hw : s.workers worker with
  | some c =>
      have hlookup : s.lookup id worker prefillLoad decodeLoad =
          { s.spawn (.addPrefill id ⟨worker, c, prefillLoad, decodeLoad⟩) with
            visits := .registered id ⟨worker, c, prefillLoad, decodeLoad⟩ :: s.visits } := by
        simp only [ActiveLoadRegistry.lookup, hw]
      rw [hlookup]
      exact (flights_spawn (s := s) (.addPrefill id ⟨worker, c, prefillLoad, decodeLoad⟩)).symm ▸
        h.register hnew hw rfl rfl rfl rfl
  | none =>
      have hallocated : ({ s with
          workers := Function.update s.workers worker (some s.counters.length)
          counters := s.counters ++ [({} : WorkerCounters)] } :
          ActiveLoadRegistry RequestId).Accounts s.flights :=
        h.allocate hw rfl rfl rfl rfl
      have hlookup : s.lookup id worker prefillLoad decodeLoad =
          { s.spawn (.addPrefill id ⟨worker, s.counters.length, prefillLoad, decodeLoad⟩) with
            workers := Function.update s.workers worker (some s.counters.length)
            counters := s.counters ++ [{}]
            visits := .registered id ⟨worker, s.counters.length, prefillLoad, decodeLoad⟩ ::
              s.visits } := by
        simp only [ActiveLoadRegistry.lookup, hw]
      rw [hlookup]
      exact (flights_spawn (s := s)
        (.addPrefill id ⟨worker, s.counters.length, prefillLoad, decodeLoad⟩)).symm ▸
        hallocated.register hnew (Function.update_self ..) rfl rfl rfl rfl

theorem visits_advance (k : ℕ) (op : Operation RequestId) : (s.advance k op).visits = s.visits := by
  cases op with
  | removing ids =>
      cases ids with
      | nil => rfl
      | cons id ids =>
          simp only [ActiveLoadRegistry.advance]
          cases s.entry id <;> rfl
  | _ => rfl

omit [DecidableEq RequestId] in
theorem visits_lookup (id : RequestId) (worker : WorkerId) (prefillLoad decodeLoad : UInt64) :
    ∃ r, (s.lookup id worker prefillLoad decodeLoad).visits = .registered id r :: s.visits ∧
      (s.lookup id worker prefillLoad decodeLoad).operations =
        s.operations ++ [.addPrefill id r] := by
  rw [ActiveLoadRegistry.lookup]
  cases s.workers worker with
  | some c => exact ⟨_, rfl, rfl⟩
  | none => exact ⟨_, rfl, rfl⟩

theorem length_operations_advance (k : ℕ) (op : Operation RequestId) :
    (s.advance k op).operations.length = s.operations.length := by
  cases op with
  | removing ids =>
      cases ids with
      | nil => exact List.length_set
      | cons id ids =>
          cases he : s.entry id <;> simp only [ActiveLoadRegistry.advance, he] <;>
            exact List.length_set
  | done => rfl
  | _ => exact List.length_set

/-- A sweep that looks at an entry changes its own list only. -/
theorem scan_eq (k : ℕ) (id : RequestId) (op : Operation RequestId) : s.scan k id op = s ∨
    ∃ now expired expired', op = .scanning now expired ∧
      s.scan k id op = s.setOperation k (.scanning now expired') := by
  cases op with
  | scanning now expired =>
      cases he : s.entry id with
      | none => exact .inl (by simp only [scan, he])
      | some e =>
          by_cases hstale : s.isStale now e = true
          · exact .inr ⟨now, expired, expired ++ [id], rfl, by simp only [scan, he, if_pos hstale]⟩
          · exact .inl (by simp only [scan, he, if_neg hstale])
  | _ => exact .inl rfl

theorem Invariant.step (hnewV4 : Function.Injective newV4) (h : s.Invariant newV4)
    (a : ActiveLoadStep RequestId) : (s.step newV4 a).Invariant newV4 := by
  have hdrawn : ∀ {s' : ActiveLoadRegistry RequestId},
      (∀ id r, .registered id r ∈ s'.visits → .registered id r ∈ s.visits) →
      s.operations.length ≤ s'.operations.length →
      ∀ id r, .registered id r ∈ s'.visits → ∃ n < s'.operations.length, id = newV4 n := by
    intro s' hvisits hlength id r hr
    obtain ⟨n, hn, rfl⟩ := h.drawn id r (hvisits id r hr)
    exact ⟨n, Nat.lt_of_lt_of_le hn hlength, rfl⟩
  have hspawned : ∀ op, s.operations.length ≤ (s.spawn op).operations.length := by
    intro op
    rw [spawn, List.length_append]
    exact Nat.le_add_right _ _
  cases a with
  | register worker prefillLoad decodeLoad =>
      have hnew : ∀ r, .registered (newV4 s.operations.length) r ∉ s.visits := by
        intro r hr
        obtain ⟨n, hn, heq⟩ := h.drawn _ r hr
        exact absurd (hnewV4 heq) (Nat.ne_of_gt hn)
      refine ⟨h.accounts.lookup hnew, fun id r hr => ?_⟩
      obtain ⟨r', hvisits, hoperations⟩ :=
        s.visits_lookup (newV4 s.operations.length) worker prefillLoad decodeLoad
      have hlength : (s.step newV4 (.register worker prefillLoad decodeLoad)).operations.length =
          s.operations.length + 1 := by
        rw [ActiveLoadRegistry.step, hoperations, List.length_append]
        rfl
      rw [hlength]
      rw [ActiveLoadRegistry.step, hvisits] at hr
      obtain heq | hr := List.mem_cons.1 hr
      · cases heq
        exact ⟨s.operations.length, Nat.lt_succ_self _, rfl⟩
      · obtain ⟨n, hn, rfl⟩ := h.drawn id r hr
        exact ⟨n, Nat.lt_succ_of_lt hn, rfl⟩
  | dropGuard id =>
      by_cases hguard : id ∈ s.guards
      · simp only [ActiveLoadRegistry.step, if_pos hguard]
        have hspawn : (s.spawn (.removing [id])).Accounts (s.spawn (.removing [id])).flights :=
          h.accounts.spawn rfl
        exact ⟨hspawn.congr rfl rfl rfl rfl, hdrawn (fun _ _ hr => hr) (hspawned _)⟩
      · simp only [ActiveLoadRegistry.step, if_neg hguard]
        exact h
  | sweepStale => exact ⟨h.accounts.spawn rfl, hdrawn (fun _ _ hr => hr) (hspawned _)⟩
  | visit k id =>
      rw [ActiveLoadRegistry.step]
      cases hk : s.operations[k]? with
      | none => exact h
      | some op =>
          show (s.scan k id op).Invariant newV4
          obtain hsame | ⟨now, expired, expired', rfl, hscan⟩ := s.scan_eq k id op
          · rw [hsame]
            exact h
          · rw [hscan]
            exact ⟨h.accounts.setOperation hk rfl,
              hdrawn (fun _ _ hr => hr) (Nat.le_of_eq List.length_set.symm)⟩
  | advance k =>
      rw [ActiveLoadRegistry.step]
      cases hk : s.operations[k]? with
      | none => exact h
      | some op =>
          refine ⟨h.accounts.advance hk, hdrawn (fun id r hr => ?_) ?_⟩
          · rwa [visits_advance] at hr
          · rw [length_operations_advance]
  | forgetWorker worker =>
      refine ⟨h.accounts.forget rfl rfl rfl rfl, hdrawn (fun id r hr => ?_) (Nat.le_refl _)⟩
      exact (List.mem_cons.1 hr).resolve_left (by simp)
  | elapse time =>
      exact ⟨h.accounts.congr rfl rfl rfl rfl, hdrawn (fun _ _ hr => hr) (Nat.le_refl _)⟩

theorem invariant_new (timeout : ℕ) : (new timeout).Invariant newV4 where
  accounts := by
    refine ⟨Multiset.nodup_zero, ?_, ?_, ?_, ?_, ?_, fun kind => Balanced.empty, ?_, ?_, ?_, ?_, ?_,
      ?_⟩ <;> simp [new, flights, movementsOf]
  drawn := by simp [new]

theorem invariant_run (hnewV4 : Function.Injective newV4) (timeout : ℕ)
    (steps : List (ActiveLoadStep RequestId)) : ((new timeout).run newV4 steps).Invariant newV4 :=
  Transition.foldl_invariant (P := fun _ _ => True) (I := Invariant newV4)
    (fun _ a _ h => h.step hnewV4 a) (Transition.along_of_forall (fun _ _ => trivial) _ _)
    (invariant_new timeout)

end Steps

/-! ### The accounts of a run -/

/-- What holds of the loads and the counters. -/
structure Accounted (s : ActiveLoadRegistry RequestId) : Prop where
  /-- The load of a request is added at most once and subtracted at most once, and to and from the
  counters that it looked up. -/
  once : ∀ id r, .registered id r ∈ s.visits → ∀ kind,
    movementsOf (s.journal kind) id = [] ∨
    movementsOf (s.journal kind) id = [.deposited (deposit kind id r)] ∨
    movementsOf (s.journal kind) id =
      [.withdrawn (deposit kind id r), .deposited (deposit kind id r)]
  /-- Nothing else moves. -/
  only : ∀ kind id, movementsOf (s.journal kind) id ≠ [] → ∃ r, .registered id r ∈ s.visits
  /-- No more is subtracted from a counter than was added to it. -/
  covered : ∀ kind c, withdrawn (s.journal kind) c ≤ deposited (s.journal kind) c
  /-- A counter holds what was added and not subtracted. -/
  holds : ∀ kind c counters, s.counters[c]? = some counters → (counters.load kind).toNat =
    (deposited (s.journal kind) c - withdrawn (s.journal kind) c) % 2 ^ 64
  /-- In a quiet registry the load of a request was subtracted unless the request is tracked. -/
  subtracted : s.Quiet → ∀ id r, .registered id r ∈ s.visits → ∀ kind,
    movementsOf (s.journal kind) id = if (s.entry id).isSome then [.deposited (deposit kind id r)]
      else [.withdrawn (deposit kind id r), .deposited (deposit kind id r)]
  /-- In a quiet registry the counters of a worker hold the loads that are tracked for it. -/
  tracked : s.Quiet → ∀ worker,
    (s.prefillLoad worker).toNat = s.trackedLoad .prefillTokens worker % 2 ^ 64 ∧
    (s.decodeLoad worker).toNat = s.trackedLoad .decodeBlocks worker % 2 ^ 64

omit [DecidableEq RequestId] in
theorem Quiet.flights_eq (h : s.Quiet) : s.flights = trackedFlights s.requests := by
  have hnone : s.operations.filterMap Operation.flight = [] :=
    List.filterMap_eq_nil_iff.2 fun op hop => (h op hop).flight_eq
  rw [ActiveLoadRegistry.flights_eq, inHand, hnone]
  exact zero_add _

omit [DecidableEq RequestId] in
theorem holding_trackedFlights (kind : ActiveLoadKind) (c : CountersRef)
    (requests : List (RequestId × RequestEntry)) :
    holding (openDeposits kind (trackedFlights requests)) c =
      ((requests.filter (·.2.counters = c)).map fun e => (e.2.load kind).toNat).sum := by
  induction requests with
  | nil => rfl
  | cons e requests ih =>
      have hcons : trackedFlights (e :: requests) =
        ⟨e.1, e.2.toRegistration, .added⟩ ::ₘ trackedFlights requests := rfl
      rw [hcons]
      by_cases hc : e.2.counters = c
      · rw [openDeposits_cons_of_posted rfl, Flight.deposit, ← hc, holding_deposit_self,
          List.filter_cons_of_pos (by simp), List.map_cons, List.sum_cons, hc, ih]
      · rw [holding_openDeposits_of_ne (Ne.symm hc), List.filter_cons_of_neg (by simpa using hc),
          ih]

/-- Only the registration of a request counts as one since its worker was forgotten. -/
theorem registered_of_registeredSince {worker : WorkerId} {id : RequestId}
    (h : s.registeredSince worker id = true) : ∃ r, r.worker = worker ∧
      .registered id r ∈ s.visits := by
  obtain ⟨visit, hvisit, hmatch⟩ := List.any_eq_true.1 h
  cases visit with
  | forgot w => exact absurd hmatch Bool.false_ne_true
  | registered id' r =>
      obtain ⟨rfl, hworker⟩ := of_decide_eq_true hmatch
      exact ⟨r, hworker, (List.takeWhile_prefix _).subset hvisit⟩

/-- The tracked requests of a worker are those that refer to its counters. -/
theorem Accounts.registeredSince_iff (h : s.Accounts (trackedFlights s.requests))
    {worker : WorkerId} {e : RequestId × RequestEntry} (he : e ∈ s.requests) :
    s.registeredSince worker e.1 = true ↔ s.workers worker = some e.2.counters := by
  have hmem : ActiveLoadRegistry.tracked e ∈ trackedFlights s.requests :=
    Multiset.mem_coe.2 (List.mem_map_of_mem he)
  have hsince := h.since _ hmem
  refine ⟨fun hregistered => ?_, fun hworker => ?_⟩
  · obtain ⟨r, rfl, hr⟩ := registered_of_registeredSince hregistered
    have heq : r = e.2.toRegistration := h.unique _ _ _ hr (h.registered _ hmem)
    subst heq
    exact hsince.1 hregistered
  · have howner : e.2.worker = worker := h.owned worker _ hworker _ hmem rfl
    subst howner
    exact hsince.2 hworker

theorem Accounts.load_eq (h : s.Accounts (trackedFlights s.requests)) (kind : ActiveLoadKind)
    (worker : WorkerId) : (s.load kind worker).toNat = s.trackedLoad kind worker % 2 ^ 64 := by
  cases hworker : s.workers worker with
  | none =>
      have hnone : s.requests.filter (fun e => s.registeredSince worker e.1) = [] := by
        refine List.filter_eq_nil_iff.2 fun e he hsince => ?_
        rw [h.registeredSince_iff he, hworker] at hsince
        cases hsince
      rw [trackedLoad, hnone, load, hworker]
      rfl
  | some c =>
      have hfilter : s.requests.filter (fun e => s.registeredSince worker e.1) =
          s.requests.filter (·.2.counters = c) := by
        refine List.filter_congr fun e he => ?_
        rw [Bool.eq_iff_iff, h.registeredSince_iff he, hworker]
        simp [eq_comm]
      obtain ⟨counters, hget⟩ : ∃ counters, s.counters[c]? = some counters :=
        ⟨_, List.getElem?_eq_getElem (h.known worker c hworker)⟩
      rw [trackedLoad, hfilter, ← holding_trackedFlights, load, hworker]
      show ((s.counters.getD c {}).load kind).toNat = _
      rw [List.getD_eq_getElem?_getD, hget, Option.getD_some, h.counters kind c counters hget,
        UInt64.toNat_ofNat']

theorem Accounts.movements_cases {flights : Multiset (Flight RequestId)} (h : s.Accounts flights)
    {id : RequestId} {r : Registration} (hr : .registered id r ∈ s.visits) (kind : ActiveLoadKind) :
    movementsOf (s.journal kind) id = [] ∨
    movementsOf (s.journal kind) id = [.deposited (deposit kind id r)] ∨
    movementsOf (s.journal kind) id =
      [.withdrawn (deposit kind id r), .deposited (deposit kind id r)] := by
  by_cases hflight : id ∈ flights.map Flight.id
  · obtain ⟨f, hf, rfl⟩ := Multiset.mem_map.1 hflight
    have heq : f.registration = r := h.unique _ _ _ (h.registered f hf) hr
    rw [h.moved f hf, Flight.movements, Flight.deposit, heq]
    cases f.stage.posting kind with
    | unposted => exact .inl rfl
    | posted => exact .inr (.inl rfl)
    | returned => exact .inr (.inr rfl)
  · exact .inr (.inr (h.settled id r hr hflight kind))

/-- **The active load is accounted for.** After every sequence of atomic accesses of the calls, the
load of each request was added to the counters that the request looked up, and subtracted from the
same counters, at most once each; no counter was ever overdrawn; and while no call is registering or
releasing a request, the loads of all requests but the tracked ones were subtracted again, and the
counters of each worker hold the sums over the tracked requests that were registered for it since it
was last forgotten. The counters hold these sums modulo `2 ^ 64`. -/
theorem active_load_accounted (newV4 : ℕ → RequestId) (hnewV4 : Function.Injective newV4)
    (timeout : ℕ) (steps : List (ActiveLoadStep RequestId)) :
    ((new timeout).run newV4 steps).Accounted := by
  have h := (invariant_run hnewV4 timeout steps).accounts
  generalize (new timeout).run newV4 steps = s at h
  refine ⟨fun id r hr kind => h.movements_cases hr kind, h.used,
    fun kind c => (h.balanced kind).withdrawn_le c, fun kind c counters hget => ?_,
    fun hquiet id r hr kind => ?_, fun hquiet worker => ?_⟩
  · rw [(h.balanced kind).balance c, Nat.add_sub_cancel_left, h.counters kind c counters hget,
      UInt64.toNat_ofNat']
  · rw [hquiet.flights_eq] at h
    by_cases htracked : (s.entry id).isSome
    · obtain ⟨e, he⟩ := Option.isSome_iff_exists.1 htracked
      have hmem : (⟨id, e.toRegistration, .added⟩ : Flight RequestId) ∈
          trackedFlights s.requests :=
        trackedFlights_of_entry he ▸ Multiset.mem_cons_self _ _
      rw [if_pos htracked, h.moved _ hmem kind, h.unique id r _ hr (h.registered _ hmem)]
      rfl
    · rw [if_neg htracked]
      refine h.settled id r hr (fun hmem => htracked ?_) kind
      obtain ⟨f, hf, rfl⟩ := Multiset.mem_map.1 hmem
      obtain ⟨e, he, rfl⟩ := List.mem_map.1 (Multiset.mem_coe.1 hf)
      rw [entry, Option.isSome_map, List.find?_isSome]
      exact ⟨e, he, by simp [ActiveLoadRegistry.tracked]⟩
  · rw [hquiet.flights_eq] at h
    exact ⟨h.load_eq .prefillTokens worker, h.load_eq .decodeBlocks worker⟩

/-- Two requests of a worker. The guard of the first is dropped; when the timeout has passed and the
worker is forgotten, a sweep releases the second. -/
def releasingSteps : List (ActiveLoadStep ℕ) :=
  [.register ⟨"w0"⟩ 100 5, .advance 0, .advance 0, .advance 0,
    .register ⟨"w0"⟩ 7 1, .advance 1, .advance 1, .advance 1,
    .dropGuard 0, .advance 2, .advance 2, .advance 2, .advance 2,
    .elapse 10, .forgetWorker ⟨"w0"⟩, .sweepStale, .visit 3 1,
    .advance 3, .advance 3, .advance 3, .advance 3, .advance 3]

/-- The theorem applied to these steps. After the drop the worker has the load of the second
request; in the end both loads were subtracted from the counters they were added to. -/
theorem active_load_accounted_of_releases :
    Function.Injective (id : ℕ → ℕ) ∧
    (((new 10).run id (releasingSteps.take 13)).prefillLoad ⟨"w0"⟩).toNat = 7 ∧
    movementsOf (((new 10).run id releasingSteps).journal .prefillTokens) 0 =
      [.withdrawn (deposit .prefillTokens 0 ⟨⟨"w0"⟩, 0, 100, 5⟩),
        .deposited (deposit .prefillTokens 0 ⟨⟨"w0"⟩, 0, 100, 5⟩)] ∧
    movementsOf (((new 10).run id releasingSteps).journal .prefillTokens) 1 =
      [.withdrawn (deposit .prefillTokens 1 ⟨⟨"w0"⟩, 0, 7, 1⟩),
        .deposited (deposit .prefillTokens 1 ⟨⟨"w0"⟩, 0, 7, 1⟩)] := by
  have hquiet (steps : List (ActiveLoadStep ℕ))
      (h : ∀ op ∈ ((new 10).run id steps).operations, op = .done) :
      ((new 10).run id steps).Quiet := fun op hop => h op hop ▸ trivial
  have hdropped := active_load_accounted id Function.injective_id 10 (releasingSteps.take 13)
  have hswept := active_load_accounted id Function.injective_id 10 releasingSteps
  refine ⟨Function.injective_id, ?_, ?_, ?_⟩
  · rw [(hdropped.tracked (hquiet _ (by decide)) ⟨"w0"⟩).1]
    decide
  · exact hswept.subtracted (hquiet _ (by decide)) 0 _ (by decide) .prefillTokens
  · exact hswept.subtracted (hquiet _ (by decide)) 1 _ (by decide) .prefillTokens

/-- The two loads of the worker wrap around. -/
def wrappingSteps : List (ActiveLoadStep ℕ) :=
  [.register ⟨"w0"⟩ 18446744073709551615 0, .advance 0, .advance 0, .advance 0,
    .register ⟨"w0"⟩ 1 0, .advance 1, .advance 1, .advance 1]

/-- Two requests are tracked for the worker, and its counter holds 0. -/
theorem exists_wrapped_load : ¬ ∀ (steps : List (ActiveLoadStep ℕ)) (worker : WorkerId),
    ((new 0).run id steps).Quiet → (((new 0).run id steps).prefillLoad worker).toNat =
      ((new 0).run id steps).trackedLoad .prefillTokens worker := by
  intro h
  have hquiet : ((new 0).run id wrappingSteps).Quiet := by
    intro op hop
    have hops : ((new 0).run id wrappingSteps).operations = [.done, .done] := by decide
    rw [hops] at hop
    simp only [List.mem_cons, List.not_mem_nil, or_false, or_self] at hop
    subst hop
    trivial
  exact absurd (h wrappingSteps ⟨"w0"⟩ hquiet) (by decide)

end ActiveLoadRegistry

end SglangRs.Router
