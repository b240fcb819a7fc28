import SglangRs.Collections.FallibleMap
import SglangRs.Distributed.DpCoordinator
import SglangRs.Distributed.DpOutputs

/-!
# Completions of the data-parallel coordinator

A completion should be returned once, to the caller that it is for. The calls share the two lists of
outputs of the scheduler, and two things go wrong. `generate` takes the finished outputs of all
requests and drops those that are not its own. A call that reads the step outputs leaves the
finished output of its request behind, and the next step of the coordinator returns it again.

## Main definitions

* `DpCoordinator.Undisturbed`: the outputs that a call takes are for that call.
* `DpCoordinator.Sound`: what holds in runs that meet this.

## Main results

* `DpCoordinator.Sound.apply`: the invariant is kept.
* `dp_coordinator_delivers_iff`: all completions are delivered once exactly if no call takes outputs
  that are for others.
-/

namespace SglangRs

open Transition

namespace DpCoordinator

variable {ε : Type} {tokenizer : Tokenizer ε} {c c' : DpCoordinator ε}

/-! ### Outputs passed to a sink -/

/-- A sink that never stops gets the outputs of the target up to the last one. -/
theorem passOutputs_true (target : RequestId) (outputs : List TokenGenerateOutput)
    (items : List ScheduledOutput) (hopen : ∀ output ∈ outputs, output.finished = false) :
    (∃ outputs', passOutputs target (fun _ => true) outputs items = (outputs', .exhausted) ∧
        (∀ output ∈ outputs', output.finished = false) ∧
        ∀ item ∈ items, item.requestId = target → item.finished = false) ∨
      ∃ outputs' last, passOutputs target (fun _ => true) outputs items =
          (outputs' ++ [last], .finished) ∧
        (∀ output ∈ outputs', output.finished = false) ∧ last.requestId = target ∧
        last.finished = true ∧ ∃ item ∈ items, item.requestId = target ∧ item.finished = true := by
  induction items generalizing outputs with
  | nil => exact .inl ⟨outputs, rfl, hopen, by simp⟩
  | cons item items ih =>
    rw [passOutputs]
    by_cases hid : item.requestId = target
    · simp only [hid, if_true, Bool.true_eq_false, if_false]
      cases hfinished : item.finished with
      | true =>
        exact .inr ⟨outputs, toTokenOutput item, rfl, hopen, hid, hfinished, item,
          List.mem_cons_self, hid, hfinished⟩
      | false =>
        have hopen' : ∀ output ∈ outputs ++ [toTokenOutput item], output.finished = false := by
          intro output hmem
          rcases List.mem_append.mp hmem with hmem | hmem
          · exact hopen output hmem
          · rw [List.mem_singleton.mp hmem]
            exact hfinished
        simp only [Bool.false_eq_true, if_false]
        rcases ih _ hopen' with ⟨outputs', heq, hrest, hitems⟩ |
          ⟨outputs', last, heq, hrest, hlast, hdone, item', hmem, hitem⟩
        · exact .inl ⟨outputs', heq, hrest, List.forall_mem_cons.mpr ⟨fun _ => hfinished, hitems⟩⟩
        · exact .inr ⟨outputs', last, heq, hrest, hlast, hdone, item', List.mem_cons_of_mem _ hmem,
            hitem⟩
    · simp only [hid, if_false]
      rcases ih outputs hopen with ⟨outputs', heq, hrest, hitems⟩ |
        ⟨outputs', last, heq, hrest, hlast, hdone, item', hmem, hitem⟩
      · exact .inl ⟨outputs', heq, hrest,
          List.forall_mem_cons.mpr ⟨fun heq => absurd heq hid, hitems⟩⟩
      · exact .inr ⟨outputs', last, heq, hrest, hlast, hdone, item', List.mem_cons_of_mem _ hmem,
          hitem⟩

/-- The response of a call reports the request that it has submitted, and it once. -/
structure Answering (target : RequestId)
    (respond : Except (DpCoordinatorError ε) (List TokenGenerateOutput) → Response ε) : Prop where
  recipient : ∀ result, (respond result).recipient = .call target
  completions : ∀ outputs last, (∀ output ∈ outputs, output.finished = false) →
    last.requestId = target → last.finished = true →
    (respond (.ok (outputs ++ [last]))).completions = [target]

theorem answering_generateTokens (target : RequestId) :
    Answering (ε := ε) target fun result =>
      .generateTokens target (result.map (collectTokens target)) where
  recipient := fun _ => rfl
  completions := fun outputs last _ _ hdone => by
    simp [Except.map, Response.completions, collectTokens, hdone]

theorem answering_generateTokenStream (target : RequestId) :
    Answering (ε := ε) target (.generateTokenStream target) where
  recipient := fun _ => rfl
  completions := fun outputs last hopen hlast hdone => by
    have hnil : outputs.filter (·.finished) = [] :=
      List.filter_eq_nil_iff.mpr fun output hmem => by simp [hopen output hmem]
    simp [Response.completions, hnil, hlast, hdone]

/-! ### Responses -/

@[simp] theorem returned_respond (c : DpCoordinator ε) (response : Response ε) :
    (c.respond response).returned =
      c.returned ++ response.completions.map fun id => (id, response.recipient) := by
  simp [returned, respond]

theorem ids_returned_respond (c : DpCoordinator ε) (response : Response ε) :
    (c.respond response).returned.map Prod.fst =
      c.returned.map Prod.fst ++ response.completions := by
  simp [Function.comp_def]

theorem completions_tokens {items : List ScheduledOutput}
    (hmarked : ∀ item ∈ items, item.finished = true) :
    (Response.stepTokens (ε := ε) (.ok (items.map toTokenOutput))).completions =
      items.map (·.requestId) := by
  have hall : (items.map toTokenOutput).filter (·.finished) = items.map toTokenOutput :=
    List.filter_eq_self.mpr fun output hmem => by
      obtain ⟨item, hitem, rfl⟩ := List.mem_map.mp hmem
      exact hmarked item hitem
  rw [Response.completions, hall, List.map_map]
  rfl

theorem toTextOutput_eq_ok {item : ScheduledOutput} {text : String}
    (htext : tokenizer.decode item.tokenIds = .ok text) :
    toTextOutput tokenizer item = .ok ⟨item.requestId, text, item.finished⟩ := by
  rw [toTextOutput, htext]

/-- A step returns the text of all outputs, -/
theorem completions_text {items : List ScheduledOutput}
    (hmarked : ∀ item ∈ items, item.finished = true)
    (hreadable : ∀ item ∈ items, ∃ text, tokenizer.decode item.tokenIds = .ok text) :
    (Response.step (items.mapM (toTextOutput tokenizer))).completions =
      items.map (·.requestId) := by
  obtain ⟨outputs, hok, hids⟩ : ∃ outputs, items.mapM (toTextOutput tokenizer) = .ok outputs ∧
      (outputs.filter (·.finished)).map (·.requestId) = items.map (·.requestId) := by
    induction items with
    | nil => exact ⟨[], rfl, rfl⟩
    | cons item items ih =>
      rw [List.forall_mem_cons] at hmarked hreadable
      obtain ⟨text, htext⟩ := hreadable.1
      obtain ⟨outputs, hok, hids⟩ := ih hmarked.2 hreadable.2
      refine ⟨_, mapM_cons_eq_ok.mpr ⟨_, outputs, toTextOutput_eq_ok htext, hok, rfl⟩, ?_⟩
      simp only [List.filter_cons, hmarked.1, if_true, List.map_cons, hids]
  rw [hok]
  exact hids

/-- or nothing. -/
theorem completions_text_eq_nil {items : List ScheduledOutput}
    (hreadable : ¬∀ item ∈ items, ∃ text, tokenizer.decode item.tokenIds = .ok text) :
    (Response.step (items.mapM (toTextOutput tokenizer))).completions = [] := by
  cases hresult : items.mapM (toTextOutput tokenizer) with
  | error error => rfl
  | ok outputs =>
    refine absurd (fun item hmem => ?_) hreadable
    obtain ⟨output, houtput⟩ := exists_mapM_eq_ok_iff.mp ⟨outputs, hresult⟩ item hmem
    unfold toTextOutput at houtput
    cases hdecode : tokenizer.decode item.tokenIds with
    | error error => simp [hdecode] at houtput
    | ok text => exact ⟨text, rfl⟩

/-! ### The invariant -/

/-- The request that the call has submitted. -/
def CallLoop.target : CallLoop ε → Option RequestId
  | .step | .stepTokens => none
  | .generate target => some target
  | .stream target _ _ _ => some target

def currentTarget (c : DpCoordinator ε) : Option RequestId :=
  c.current.bind fun current => current.1.target

theorem currentTarget_eq {loop : CallLoop ε} {point : LoopPoint}
    (hcurrent : c.current = some (loop, point)) : c.currentTarget = loop.target := by
  rw [currentTarget, hcurrent]
  rfl

theorem currentTarget_eq_none (hnone : c.current = none) : c.currentTarget = none := by
  rw [currentTarget, hnone]
  rfl

/-- A call that reads the step outputs does not stop before the last output. -/
def CallLoop.Streams : CallLoop ε → Prop
  | .stream target sink respond outputs =>
      sink = (fun _ => true) ∧ Answering target respond ∧
        ∀ output ∈ outputs, output.finished = false
  | _ => True

/-- The requests of the finished outputs that have not been drained. -/
def buffered (c : DpCoordinator ε) : List RequestId :=
  c.scheduler.finishedOutputs.map (·.requestId)

/-- Between calls of its own, a request waits for the next step. -/
theorem pending_iff (htarget : c.currentTarget = none) (id : RequestId) :
    c.Pending id ↔ (id, Recipient.steps) ∈ c.submissions ∧ id ∈ c.buffered := by
  unfold currentTarget at htarget
  unfold Pending
  cases hcurrent : c.current with
  | none => exact iff_of_eq (or_false _)
  | some current =>
    obtain ⟨loop, point⟩ := current
    rw [hcurrent] at htarget
    cases loop with
    | step => exact iff_of_eq (or_false _)
    | stepTokens => exact iff_of_eq (or_false _)
    | generate target => cases htarget
    | stream target sink respond outputs => cases htarget

/-- While a call goes on and outputs are only added, what is pending stays pending. -/
theorem Pending.mono {id : RequestId} (hpending : c.Pending id)
    (hsubmissions : c'.submissions = c.submissions)
    (hcurrent : c'.current.map Prod.fst = c.current.map Prod.fst)
    (hbuffered : c.buffered ⊆ c'.buffered)
    (hsteps : c.scheduler.stepOutputs ⊆ c'.scheduler.stepOutputs) : c'.Pending id := by
  rcases hpending with ⟨hsubmission, hmem⟩ | hpending
  · exact .inl ⟨hsubmissions ▸ hsubmission, hbuffered hmem⟩
  refine .inr ?_
  cases hbefore : c.current with
  | none => rw [hbefore] at hpending; exact hpending.elim
  | some current =>
    obtain ⟨loop, point⟩ := current
    rw [hbefore] at hpending hcurrent
    obtain ⟨⟨loop', point'⟩, hafter, rfl⟩ := Option.map_eq_some_iff.mp hcurrent
    rw [hafter]
    cases loop' with
    | step => exact hpending
    | stepTokens => exact hpending
    | generate target => exact ⟨hpending.1, hbuffered hpending.2⟩
    | stream target sink respond outputs =>
      obtain ⟨rfl, item, hmem, hitem⟩ := hpending
      exact ⟨rfl, item, hsteps hmem, hitem⟩

/-- The completion of the call in progress is pending when its outputs are there. -/
theorem pending_of_currentTarget {id : RequestId} (htarget : c.currentTarget = some id)
    (hbuffered : id ∈ c.buffered)
    (hsteps : ∃ item ∈ c.scheduler.stepOutputs, item.requestId = id ∧ item.finished = true) :
    c.Pending id := by
  refine .inr ?_
  unfold currentTarget at htarget
  cases hcurrent : c.current with
  | none => rw [hcurrent] at htarget; cases htarget
  | some current =>
    obtain ⟨loop, point⟩ := current
    rw [hcurrent] at htarget
    cases loop with
    | step => cases htarget
    | stepTokens => cases htarget
    | generate target => exact ⟨Option.some.inj htarget, hbuffered⟩
    | stream target sink respond outputs => exact ⟨Option.some.inj htarget, hsteps⟩

/-- A completion is delivered once, up to now. -/
structure Sound (c : DpCoordinator ε) : Prop where
  inOrder : c.scheduler.InOrder
  ids : (c.submissions.map Prod.fst).Nodup
  account : c.scheduler.liveIds + (c.finished : Multiset RequestId) =
    (c.submissions.map Prod.fst : List RequestId)
  recipients : ∀ submission ∈ c.submissions,
    submission.2 = .steps ∨ submission.2 = .call submission.1
  buffer : c.buffered <:+ c.finished
  marked : ∀ item ∈ c.scheduler.finishedOutputs, item.finished = true
  steps_finished : ∀ item ∈ c.scheduler.stepOutputs, item.finished = true →
    item.requestId ∈ c.finished
  delivers : c.DeliversOnce
  returned_finished : ∀ id ∈ c.returned.map Prod.fst, id ∈ c.finished
  waiting : ∀ id ∈ c.buffered, (id, Recipient.steps) ∈ c.submissions →
    id ∉ c.returned.map Prod.fst
  calls_end : ∀ id, (id, Recipient.call id) ∈ c.submissions →
    id ∈ c.finished ∨ c.currentTarget = some id
  target : ∀ id, c.currentTarget = some id →
    (id, Recipient.call id) ∈ c.submissions ∧ id ∉ c.returned.map Prod.fst
  streams : ∀ current, c.current = some current → current.1.Streams

/-- All finished outputs can be decoded. -/
def Readable (tokenizer : Tokenizer ε) (c : DpCoordinator ε) : Prop :=
  ∀ item ∈ c.scheduler.finishedOutputs, ∃ text, tokenizer.decode item.tokenIds = .ok text

/-- The outputs that a call takes are for that call, and can be decoded if the call returns text. A
step whose outputs cannot all be decoded returns none of them. -/
def Undisturbed (tokenizer : Tokenizer ε) (c : DpCoordinator ε) : Action → Prop
  | .proceed =>
      match c.current with
      | some (.step, .drains) =>
          ∀ id ∈ c.buffered, ((id, Recipient.steps) ∈ c.submissions ↔ Readable tokenizer c)
      | some (.stepTokens, .drains) => ∀ id ∈ c.buffered, (id, Recipient.steps) ∈ c.submissions
      | some (.generate target, .drains) =>
          (∀ id ∈ c.buffered, (id, Recipient.steps) ∉ c.submissions) ∧
            ∀ item ∈ c.scheduler.finishedOutputs, item.requestId = target →
              ∃ text, tokenizer.decode item.tokenIds = .ok text
      | _ => True
  | _ => True

/-- The threads of the workers do not fail. -/
def WorkersAnswer (c : DpCoordinator ε) : Action → Prop
  | .complete rank result => c.scheduler.Answers rank result
  | _ => True

namespace Sound

theorem recipient_unique (h : Sound c) {id : RequestId} {r r' : Recipient}
    (hr : (id, r) ∈ c.submissions) (hr' : (id, r') ∈ c.submissions) : r = r' :=
  (Prod.mk.inj (List.inj_on_of_nodup_map h.ids hr hr' rfl)).2

theorem finished_le (h : Sound c) :
    (c.finished : Multiset RequestId) ≤ (c.submissions.map Prod.fst : List RequestId) := by
  rw [← h.account]
  exact Multiset.le_add_left _ _

theorem finished_nodup (h : Sound c) : c.finished.Nodup := by
  rw [← Multiset.coe_nodup]
  exact Multiset.nodup_of_le h.finished_le (Multiset.coe_nodup.mpr h.ids)

theorem buffered_nodup (h : Sound c) : c.buffered.Nodup :=
  h.finished_nodup.sublist h.buffer.sublist

/-- A request that is accounted for has been submitted. -/
theorem exists_submission_of_le (h : Sound c) {ids : List RequestId} {id : RequestId}
    (hle : (ids : Multiset RequestId) ≤ (c.submissions.map Prod.fst : List RequestId))
    (hid : id ∈ ids) :
    (id, Recipient.steps) ∈ c.submissions ∨ (id, Recipient.call id) ∈ c.submissions := by
  have hmem : id ∈ c.submissions.map Prod.fst :=
    Multiset.mem_coe.mp (Multiset.mem_of_le hle (Multiset.mem_coe.mpr hid))
  obtain ⟨⟨id', r⟩, hsubmission, rfl⟩ := List.mem_map.mp hmem
  rcases h.recipients _ hsubmission with hr | hr <;> dsimp only at hr <;> subst hr
  · exact .inl hsubmission
  · exact .inr hsubmission

/-- The scheduler still has a request that has been submitted and not finished. -/
theorem mem_liveIds (h : Sound c) {id : RequestId} {r : Recipient}
    (hid : (id, r) ∈ c.submissions) (hfinished : id ∉ c.finished) :
    id ∈ c.scheduler.liveIds := by
  have hmem : id ∈ c.scheduler.liveIds + (c.finished : Multiset RequestId) := by
    rw [h.account]
    exact List.mem_map.mpr ⟨_, hid, rfl⟩
  exact (Multiset.mem_add.mp hmem).resolve_right fun h => hfinished (Multiset.mem_coe.mp h)

/-! ### Steps of the scheduler -/

theorem finished_stepped {s' : DpScheduler} {newFinished : List ScheduledOutput}
    (hfinished : s'.finishedOutputs = c.scheduler.finishedOutputs ++ newFinished) :
    (c.stepped s').finished = c.finished ++ newFinished.map (·.requestId) := by
  simp [DpCoordinator.stepped, hfinished]

/-- The requests of the outputs that a step adds are no longer live. -/
theorem account_stepped (h : Sound c) {s' : DpScheduler} {newFinished : List ScheduledOutput}
    (hfinished : s'.finishedOutputs = c.scheduler.finishedOutputs ++ newFinished)
    (haccount : s'.account = c.scheduler.account) :
    s'.liveIds + ((c.stepped s').finished : Multiset RequestId) =
      (c.submissions.map Prod.fst : List RequestId) := by
  have hlive : s'.liveIds + (newFinished.map (·.requestId) : List RequestId) =
      c.scheduler.liveIds := by
    rw [DpScheduler.account_eq, DpScheduler.account_eq, hfinished, List.map_append,
      ← Multiset.coe_add, add_left_comm, add_comm] at haccount
    exact add_right_cancel haccount
  rw [← h.account, ← hlive, finished_stepped hfinished, ← Multiset.coe_add]
  abel

/-- The outputs that a step adds are pending. -/
theorem stepped (h : Sound c) {loop : CallLoop ε} {point point' : LoopPoint}
    (hcurrent : c.current = some (loop, point)) {s' : DpScheduler} (hin : s'.InOrder)
    (houtputs : s'.OutputsSince c.scheduler.stepOutputs c.scheduler.finishedOutputs)
    (haccount : s'.account = c.scheduler.account) :
    Sound { c.stepped s' with current := some (loop, point') } := by
  obtain ⟨newSteps, newFinished, hsteps, hfinished, hids, hmarked⟩ := houtputs
  have hadded : (c.stepped s').finished = c.finished ++ newFinished.map (·.requestId) :=
    finished_stepped hfinished
  have haccount' := h.account_stepped hfinished haccount
  have hfinished_le : ((c.stepped s').finished : Multiset RequestId) ≤
      (c.submissions.map Prod.fst : List RequestId) := by
    rw [← haccount']
    exact Multiset.le_add_left _ _
  have hnodup : (c.stepped s').finished.Nodup := by
    rw [← Multiset.coe_nodup]
    exact Multiset.nodup_of_le hfinished_le (Multiset.coe_nodup.mpr h.ids)
  have htarget : ∀ id,
      currentTarget { c.stepped s' with current := some (loop, point') } = some id →
        c.currentTarget = some id := fun id hid => (currentTarget_eq hcurrent).trans hid
  have hbuffered : buffered { c.stepped s' with current := some (loop, point') } =
      c.buffered ++ newFinished.map (·.requestId) := by
    change s'.finishedOutputs.map _ = _
    rw [hfinished, List.map_append]
    rfl
  have hpending : ∀ id, c.Pending id →
      Pending { c.stepped s' with current := some (loop, point') } id := by
    refine fun id hid => hid.mono rfl (by rw [hcurrent]; rfl) ?_ ?_
    · rw [hbuffered]
      exact List.subset_append_left ..
    · change _ ⊆ s'.stepOutputs
      rw [hsteps]
      exact List.subset_append_left ..
  have hnew : ∀ id ∈ newFinished.map (·.requestId),
      Pending { c.stepped s' with current := some (loop, point') } id := by
    intro id hid
    have hmem : id ∈ buffered { c.stepped s' with current := some (loop, point') } := by
      rw [hbuffered]
      exact List.mem_append_right _ hid
    have hold : id ∉ c.finished := by
      rw [hadded] at hnodup
      exact fun hold => (List.nodup_append.mp hnodup).2.2 id hold id hid rfl
    rcases h.exists_submission_of_le hfinished_le (hadded ▸ List.mem_append_right _ hid) with
      hsubmission | hsubmission
    · exact .inl ⟨hsubmission, hmem⟩
    · have hcall := (h.calls_end id hsubmission).resolve_left hold
      refine pending_of_currentTarget ?_ hmem ?_
      · exact (currentTarget_eq hcurrent).symm.trans hcall
      · rw [← hids] at hid
        obtain ⟨item, hitem, rfl⟩ := List.mem_map.mp hid
        obtain ⟨hitem, hdone⟩ := List.mem_filter.mp hitem
        have hout : item ∈ s'.stepOutputs := hsteps ▸ List.mem_append_right _ hitem
        exact ⟨item, hout, rfl, hdone⟩
  refine ⟨hin, h.ids, haccount', h.recipients, ?_, ?_, ?_,
    ⟨h.delivers.once, h.delivers.recipient, ?_⟩, ?_, ?_, ?_,
    fun id hid => h.target id (htarget id hid), ?_⟩
  · rw [hbuffered]
    change _ <:+ (c.stepped s').finished
    rw [hadded]
    obtain ⟨earlier, hearlier⟩ := h.buffer
    exact ⟨earlier, by rw [← List.append_assoc, hearlier]⟩
  · intro item hmem
    change item ∈ s'.finishedOutputs at hmem
    rw [hfinished] at hmem
    exact (List.mem_append.mp hmem).elim (h.marked item) (hmarked item)
  · intro item hmem hdone
    change item ∈ s'.stepOutputs at hmem
    rw [hsteps] at hmem
    change item.requestId ∈ (c.stepped s').finished
    rw [hadded, ← hids]
    rcases List.mem_append.mp hmem with hmem | hmem
    · exact List.mem_append_left _ (h.steps_finished item hmem hdone)
    · exact List.mem_append_right _
        (List.mem_map.mpr ⟨item, List.mem_filter.mpr ⟨hmem, hdone⟩, rfl⟩)
  · intro id hid
    change id ∈ (c.stepped s').finished at hid
    rw [hadded] at hid
    rcases List.mem_append.mp hid with hid | hid
    · exact (h.delivers.kept id hid).imp_right (hpending id)
    · exact .inr (hnew id hid)
  · intro id hid
    change id ∈ (c.stepped s').finished
    rw [hadded]
    exact List.mem_append_left _ (h.returned_finished id hid)
  · intro id hid hsubmission
    rw [hbuffered] at hid
    rcases List.mem_append.mp hid with hid | hid
    · exact h.waiting id hid hsubmission
    · intro hreturned
      rw [hadded] at hnodup
      exact (List.nodup_append.mp hnodup).2.2 id (h.returned_finished id hreturned) id hid rfl
  · intro id hid
    refine (h.calls_end id hid).imp (fun hold => ?_) fun hcall => ?_
    · change id ∈ (c.stepped s').finished
      rw [hadded]
      exact List.mem_append_left _ hold
    · exact (currentTarget_eq hcurrent).symm.trans hcall
  · intro current heq
    obtain rfl := Option.some.inj heq
    exact h.streams (loop, point) hcurrent

/-! ### Calls -/

/-- A step call begins. -/
theorem enter (h : Sound c) (hnone : c.current = none) {loop : CallLoop ε} {point : LoopPoint}
    (htarget : loop.target = none) (hstreams : loop.Streams) :
    Sound { c with current := some (loop, point) } := by
  have hcurrent : currentTarget { c with current := some (loop, point) } = none := htarget
  have hbefore := currentTarget_eq_none hnone
  refine ⟨h.inOrder, h.ids, h.account, h.recipients, h.buffer, h.marked, h.steps_finished,
    ⟨h.delivers.once, h.delivers.recipient, fun id hid => ?_⟩, h.returned_finished, h.waiting,
    fun id hid => ?_, fun id hid => ?_, ?_⟩
  · refine (h.delivers.kept id hid).imp_right fun hpending => ?_
    exact (pending_iff hcurrent id).mpr ((pending_iff hbefore id).mp hpending)
  · refine (h.calls_end id hid).imp_right fun hcall => ?_
    rw [hbefore] at hcall
    cases hcall
  · rw [hcurrent] at hid
    cases hid
  · intro current heq
    obtain rfl := Option.some.inj heq
    exact hstreams

/-- A request is submitted, for the steps to come or by a call that begins. -/
theorem submit (h : Sound c) (hnone : c.current = none) {id : RequestId} {recipient : Recipient}
    {inputIds : List UInt32} {sampling : SamplingParams} {dataParallelRank : ℤ}
    {current : Option (CallLoop ε × LoopPoint)}
    (hrecipient : recipient = .steps ∧ current = none ∨ recipient = .call id ∧
      ∃ loop, current = some (loop, .polls) ∧ loop.target = some id ∧ loop.Streams)
    (hids : ((c.submissions ++ [(id, recipient)]).map Prod.fst).Nodup) :
    Sound { c.submit recipient id inputIds sampling dataParallelRank with current } := by
  have hnew : id ∉ c.submissions.map Prod.fst := by
    rw [List.map_append, List.nodup_append] at hids
    exact fun hmem => hids.2.2 id hmem id (List.mem_singleton_self id) rfl
  have hfresh : id ∉ c.finished := fun hmem =>
    hnew (Multiset.mem_coe.mp (Multiset.mem_of_le h.finished_le (Multiset.mem_coe.mpr hmem)))
  have hlive : (c.submit recipient id inputIds sampling dataParallelRank).scheduler.liveIds =
      c.scheduler.liveIds + {id} := by
    simp only [DpCoordinator.submit, DpScheduler.apply, DpScheduler.enqueue, DpScheduler.liveIds,
      DpScheduler.idsOf_append, DpScheduler.idsOf_cons, DpScheduler.idsOf_nil, ScheduledRequest.new]
    abel
  have hbefore := currentTarget_eq_none hnone
  refine ⟨h.inOrder.enqueue .., hids, ?_, ?_, ?_, h.marked, h.steps_finished,
    ⟨h.delivers.once, ?_, ?_⟩, h.returned_finished, ?_, ?_, ?_, ?_⟩
  · change (c.submit recipient id inputIds sampling dataParallelRank).scheduler.liveIds +
      (c.finished : Multiset RequestId) =
        ((c.submissions ++ [(id, recipient)]).map Prod.fst : List RequestId)
    rw [hlive, List.map_append, ← Multiset.coe_add, ← h.account, List.map_singleton,
      Multiset.coe_singleton]
    abel
  · intro submission hmem
    rcases List.mem_append.mp hmem with hmem | hmem
    · exact h.recipients submission hmem
    · rw [List.mem_singleton.mp hmem]
      exact hrecipient.imp And.left And.left
  · exact h.buffer
  · exact fun delivery hmem => List.mem_append_left _ (h.delivers.recipient delivery hmem)
  · intro id' hid'
    refine (h.delivers.kept id' hid').imp_right fun hpending => .inl ?_
    obtain ⟨hsubmission, hmem⟩ := (pending_iff hbefore id').mp hpending
    exact ⟨List.mem_append_left _ hsubmission, hmem⟩
  · intro id' hid' hsubmission
    rcases List.mem_append.mp hsubmission with hsubmission | hsubmission
    · exact h.waiting id' hid' hsubmission
    · obtain rfl := (Prod.mk.inj (List.mem_singleton.mp hsubmission)).1
      exact fun hreturned => hfresh (h.returned_finished id' hreturned)
  · intro id' hid'
    rcases List.mem_append.mp hid' with hid' | hid'
    · refine .inl ((h.calls_end id' hid').resolve_right fun hcall => ?_)
      rw [hbefore] at hcall
      cases hcall
    · obtain ⟨rfl, hcall⟩ := Prod.mk.inj (List.mem_singleton.mp hid')
      rcases hrecipient with ⟨rfl, -⟩ | ⟨-, loop, rfl, htarget, -⟩
      · cases hcall
      · exact .inr htarget
  · intro id' hid'
    rcases hrecipient with ⟨-, rfl⟩ | ⟨rfl, loop, rfl, htarget, -⟩
    · cases hid'
    · obtain rfl : id = id' := Option.some.inj (htarget.symm.trans hid')
      exact ⟨List.mem_append_right _ (List.mem_singleton_self _),
        fun hreturned => hfresh (h.returned_finished id hreturned)⟩
  · intro current' heq
    rcases hrecipient with ⟨-, rfl⟩ | ⟨-, loop, rfl, -, hstreams⟩
    · cases heq
    · obtain rfl := Option.some.inj heq
      exact hstreams

theorem begin (h : Sound c) (hnone : c.current = none) (call : Call)
    (hids : ((c.begin tokenizer call).submissions.map Prod.fst).Nodup) :
    Sound (c.begin tokenizer call) := by
  have hsame (call : Call) (hcurrent : (c.begin tokenizer call).current = c.current) :
      c.begin tokenizer call = { c.begin tokenizer call with current := none } := by
    rw [← hnone, ← hcurrent]
  cases call with
  | enqueueRequest request =>
    rw [hsame _ rfl]
    exact h.submit hnone (.inl ⟨rfl, rfl⟩) hids
  | enqueueTokenRequest request =>
    rw [hsame _ rfl]
    exact h.submit hnone (.inl ⟨rfl, rfl⟩) hids
  | step => exact h.enter hnone rfl trivial
  | stepTokens => exact h.enter hnone rfl trivial
  | generate request => exact h.submit hnone (.inr ⟨rfl, _, rfl, rfl, trivial⟩) hids
  | generateTokens request =>
    exact h.submit hnone (.inr ⟨rfl, _, rfl, rfl, rfl, answering_generateTokens _, by simp⟩) hids
  | generateTokenStream request =>
    exact h.submit hnone (.inr ⟨rfl, _, rfl, rfl, rfl, answering_generateTokenStream _, by simp⟩)
      hids

/-! ### Outputs that a call takes -/

/-- A call returns what was pending, or leaves it where it is. -/
theorem respond (h : Sound c) {s' : DpScheduler} (hin : s'.InOrder)
    (hlive : s'.liveIds = c.scheduler.liveIds) {response : Response ε}
    (hbuffer : s'.finishedOutputs <:+ c.scheduler.finishedOutputs)
    (hrecipient : s'.finishedOutputs = [] ∨ response.recipient ≠ .steps)
    (hsteps : s'.stepOutputs ⊆ c.scheduler.stepOutputs)
    (hnodup : response.completions.Nodup)
    (hgiven : ∀ id ∈ response.completions, (id, response.recipient) ∈ c.submissions ∧
      id ∈ c.finished ∧ id ∉ c.returned.map Prod.fst)
    (hkept : ∀ id, c.Pending id → id ∈ response.completions ∨
      (id, Recipient.steps) ∈ c.submissions ∧ id ∈ s'.finishedOutputs.map (·.requestId))
    (htarget : ∀ id, c.currentTarget = some id → id ∈ response.completions) :
    Sound ({ c with scheduler := s' }.respond response) := by
  have hreturned : ({ c with scheduler := s' }.respond response).returned.map Prod.fst =
      c.returned.map Prod.fst ++ response.completions := ids_returned_respond _ _
  have hnone : ({ c with scheduler := s' }.respond response).currentTarget = none := rfl
  have hleft : s'.finishedOutputs.map (·.requestId) <:+ c.buffered := hbuffer.map _
  refine ⟨hin, h.ids, ?_, h.recipients, hleft.trans h.buffer,
    fun item hmem => h.marked item (hbuffer.subset hmem),
    fun item hmem => h.steps_finished item (hsteps hmem), ⟨?_, ?_, ?_⟩, ?_, ?_, ?_, ?_, ?_⟩
  · change s'.liveIds + _ = _
    rw [hlive]
    exact h.account
  · rw [hreturned, List.nodup_append]
    refine ⟨h.delivers.once, hnodup, fun id hid id' hid' heq => ?_⟩
    subst heq
    exact (hgiven id hid').2.2 hid
  · intro delivery hmem
    rw [returned_respond] at hmem
    rcases List.mem_append.mp hmem with hmem | hmem
    · exact h.delivers.recipient delivery hmem
    · obtain ⟨id, hid, rfl⟩ := List.mem_map.mp hmem
      exact (hgiven id hid).1
  · intro id hid
    rw [hreturned, List.mem_append, pending_iff hnone]
    rcases h.delivers.kept id hid with hold | hpending
    · exact .inl (.inl hold)
    · exact (hkept id hpending).imp_left .inr
  · intro id hid
    rw [hreturned] at hid
    exact (List.mem_append.mp hid).elim (h.returned_finished id) fun hid => (hgiven id hid).2.1
  · intro id hid hsubmission
    change id ∈ s'.finishedOutputs.map _ at hid
    rw [hreturned, List.mem_append, not_or]
    refine ⟨h.waiting id (hleft.subset hid) hsubmission, fun hid' => ?_⟩
    rcases hrecipient with hnil | hrecipient
    · rw [hnil] at hid
      cases hid
    · exact hrecipient (h.recipient_unique (hgiven id hid').1 hsubmission)
  · intro id hid
    refine .inl ((h.calls_end id hid).elim (fun hfinished => hfinished) fun hcall => ?_)
    exact (hgiven id (htarget id hcall)).2.1
  · exact fun id hid => by cases hid
  · exact fun current hcurrent => by cases hcurrent

/-- A call that goes on leaves what is pending where it is. -/
theorem goOn (h : Sound c) {loop : CallLoop ε} {point : LoopPoint} {target : RequestId}
    (hcurrent : c.current = some (loop, point)) (hloop : loop.target = some target)
    (loop' : CallLoop ε) (hloop' : loop'.target = some target) (hstreams : loop'.Streams)
    {s' : DpScheduler} (hin : s'.InOrder) (hlive : s'.liveIds = c.scheduler.liveIds)
    (hbuffer : s'.finishedOutputs <:+ c.scheduler.finishedOutputs)
    (hsteps : s'.stepOutputs ⊆ c.scheduler.stepOutputs)
    (hkept : ∀ id, c.Pending id →
      (id, Recipient.steps) ∈ c.submissions ∧ id ∈ s'.finishedOutputs.map (·.requestId)) :
    Sound ({ c with scheduler := s' }.goOn loop' target) := by
  have htarget : c.currentTarget = some target := (currentTarget_eq hcurrent).trans hloop
  obtain ⟨hcall, hunreturned⟩ := h.target target htarget
  have hunfinished : target ∉ c.finished := by
    intro hfinished
    have hpending := (h.delivers.kept target hfinished).resolve_left hunreturned
    cases h.recipient_unique hcall (hkept target hpending).1
  have hidle : s'.isIdle = false := by
    by_contra hidle
    have hmem := h.mem_liveIds hcall hunfinished
    rw [← hlive, DpScheduler.liveIds_of_isIdle (Bool.not_eq_false _ ▸ hidle)] at hmem
    exact Multiset.notMem_zero _ hmem
  have hnext : { c with scheduler := s' }.goOn loop' target =
      { c with scheduler := s', current := some (loop', .waits) } := by
    rw [DpCoordinator.goOn, hidle]
    rfl
  have hleft : s'.finishedOutputs.map (·.requestId) <:+ c.buffered := hbuffer.map _
  rw [hnext]
  refine ⟨hin, h.ids, ?_, h.recipients, hleft.trans h.buffer,
    fun item hmem => h.marked item (hbuffer.subset hmem),
    fun item hmem => h.steps_finished item (hsteps hmem),
    ⟨h.delivers.once, h.delivers.recipient, ?_⟩, h.returned_finished,
    fun id hid => h.waiting id (hleft.subset hid), ?_, ?_, ?_⟩
  · change s'.liveIds + _ = _
    rw [hlive]
    exact h.account
  · exact fun id hid => (h.delivers.kept id hid).imp_right fun hpending => .inl (hkept id hpending)
  · intro id hid
    refine (h.calls_end id hid).imp_right fun hcall => ?_
    obtain rfl := Option.some.inj (htarget.symm.trans hcall)
    exact hloop'
  · intro id hid
    obtain rfl : target = id := Option.some.inj (hloop'.symm.trans hid)
    exact ⟨hcall, hunreturned⟩
  · intro current heq
    obtain rfl := Option.some.inj heq
    exact hstreams

/-- A call takes its outputs. -/
theorem drain (h : Sound c) {loop : CallLoop ε} (hcurrent : c.current = some (loop, .drains))
    (hok : Undisturbed tokenizer c .proceed) : Sound (c.drain tokenizer loop) := by
  simp only [Undisturbed, hcurrent] at hok
  have hbuffer {id : RequestId} (hid : id ∈ c.buffered) : id ∈ c.finished := h.buffer.subset hid
  cases loop with
  | step =>
    have hnone : c.currentTarget = none := currentTarget_eq hcurrent
    by_cases hreadable : Readable tokenizer c
    · have hids := completions_text h.marked hreadable
      refine h.respond h.inOrder.drainFinishedOutputs rfl List.nil_suffix (.inl rfl)
        (List.Subset.refl _) ?_ ?_ ?_ ?_ <;> rw [hids]
      · exact h.buffered_nodup
      · intro id hid
        have hsteps := (hok id hid).mpr hreadable
        exact ⟨hsteps, hbuffer hid, h.waiting id hid hsteps⟩
      · exact fun id hpending => .inl ((pending_iff hnone id).mp hpending).2
      · exact fun id hid => by simp [hnone] at hid
    · have hids := completions_text_eq_nil hreadable
      refine h.respond h.inOrder.drainFinishedOutputs rfl List.nil_suffix (.inl rfl)
        (List.Subset.refl _) ?_ ?_ ?_ ?_ <;> rw [hids]
      · exact List.nodup_nil
      · exact fun id hid => by cases hid
      · intro id hpending
        obtain ⟨hsteps, hid⟩ := (pending_iff hnone id).mp hpending
        exact absurd ((hok id hid).mp hsteps) hreadable
      · exact fun id hid => by simp [hnone] at hid
  | stepTokens =>
    have hnone : c.currentTarget = none := currentTarget_eq hcurrent
    have hids := completions_tokens (ε := ε) h.marked
    refine h.respond h.inOrder.drainFinishedOutputs rfl List.nil_suffix (.inl rfl)
      (List.Subset.refl _) ?_ ?_ ?_ ?_ <;> rw [hids]
    · exact h.buffered_nodup
    · exact fun id hid => ⟨hok id hid, hbuffer hid, h.waiting id hid (hok id hid)⟩
    · exact fun id hpending => .inl ((pending_iff hnone id).mp hpending).2
    · exact fun id hid => by simp [hnone] at hid
  | generate target =>
    obtain ⟨hothers, hreadable⟩ := hok
    have htarget : c.currentTarget = some target := currentTarget_eq hcurrent
    have hpending (id : RequestId) (hid : c.Pending id) : target = id ∧ id ∈ c.buffered := by
      rw [Pending, hcurrent] at hid
      exact hid.resolve_left fun hsteps => hothers id hsteps.2 hsteps.1
    simp only [DpCoordinator.drain]
    cases hfind : c.scheduler.finishedOutputs.find? (·.requestId = target) with
    | none =>
      refine h.goOn hcurrent rfl (.generate target) rfl trivial h.inOrder.drainFinishedOutputs rfl
        List.nil_suffix (List.Subset.refl _) fun id hid => ?_
      obtain ⟨rfl, hmem⟩ := hpending id hid
      obtain ⟨item, hitem, heq⟩ := List.mem_map.mp hmem
      exact absurd (by simpa using heq) (List.find?_eq_none.mp hfind item hitem)
    | some item =>
      have hmem := List.mem_of_find?_eq_some hfind
      obtain rfl : item.requestId = target := by simpa using List.find?_some hfind
      obtain ⟨text, htext⟩ := hreadable item hmem rfl
      have hids : (Response.generate item.requestId
          (toTextOutput tokenizer item)).completions = [item.requestId] := by
        rw [toTextOutput_eq_ok htext, Response.completions, if_pos (h.marked item hmem)]
      refine h.respond h.inOrder.drainFinishedOutputs rfl List.nil_suffix (.inl rfl)
        (List.Subset.refl _) ?_ ?_ ?_ ?_ <;> rw [hids]
      · exact List.nodup_singleton _
      · intro id hid
        rw [List.mem_singleton.mp hid]
        obtain ⟨hcall, hunreturned⟩ := h.target _ htarget
        exact ⟨hcall, hbuffer (List.mem_map.mpr ⟨item, hmem, rfl⟩), hunreturned⟩
      · exact fun id hid => .inl (List.mem_singleton.mpr (hpending id hid).1.symm)
      · exact fun id hid => List.mem_singleton.mpr (Option.some.inj (htarget.symm.trans hid)).symm
  | stream target sink answer outputs =>
    have htarget : c.currentTarget = some target := currentTarget_eq hcurrent
    obtain ⟨rfl, hanswer, hopen⟩ := h.streams _ hcurrent
    have hpending (id : RequestId) (hid : c.Pending id) :
        (id, Recipient.steps) ∈ c.submissions ∧ id ∈ c.buffered ∨ target = id ∧
          ∃ item ∈ c.scheduler.stepOutputs, item.requestId = id ∧ item.finished = true := by
      rw [Pending, hcurrent] at hid
      exact hid
    simp only [DpCoordinator.drain]
    rcases passOutputs_true target outputs c.scheduler.stepOutputs hopen with
      ⟨outputs', heq, hopen', hitems⟩ | ⟨outputs', last, heq, hopen', hlast, hdone, item, hmem, hid,
        hdone'⟩ <;> rw [heq]
    · refine h.goOn hcurrent rfl (.stream target _ answer outputs') rfl ⟨rfl, hanswer, hopen'⟩
        h.inOrder.drainStepOutputs rfl (List.suffix_refl _) (List.nil_subset _)
        fun id hid => (hpending id hid).resolve_right ?_
      rintro ⟨rfl, item, hmem, hid, hdone⟩
      simp [hitems item hmem hid] at hdone
    · have hids := hanswer.completions outputs' last hopen' hlast hdone
      refine h.respond h.inOrder.drainStepOutputs rfl (List.suffix_refl _)
        (.inr (by rw [hanswer.recipient]; simp)) (List.nil_subset _) ?_ ?_ ?_ ?_ <;> rw [hids]
      · exact List.nodup_singleton _
      · intro id hmem'
        rw [List.mem_singleton.mp hmem', hanswer.recipient]
        obtain ⟨hcall, hunreturned⟩ := h.target _ htarget
        exact ⟨hcall, hid ▸ h.steps_finished item hmem hdone', hunreturned⟩
      · exact fun id hid => (hpending id hid).symm.imp_left fun hid =>
          List.mem_singleton.mpr hid.1.symm
      · exact fun id hid => List.mem_singleton.mpr (Option.some.inj (htarget.symm.trans hid)).symm

/-! ### Actions -/

theorem poll (h : Sound c) {loop : CallLoop ε} (hcurrent : c.current = some (loop, .polls)) :
    Sound (c.poll loop) := by
  obtain ⟨hin, count, hcount⟩ := h.inOrder.step
  obtain ⟨dropped, haccount, hnil⟩ := DpScheduler.account_apply h.inOrder.toRegular .step
  rw [hnil.mpr h.inOrder.contained_step] at haccount
  have hkept : c.scheduler.step.1.account = c.scheduler.account := by
    simpa [DpScheduler.apply, DpScheduler.abortedBy, DpScheduler.drainedBy,
      DpScheduler.enqueuedBy] using haccount
  have hpoll : c.poll loop =
      { c.stepped c.scheduler.step.1 with current := some (loop, .drains) } := by
    simp only [DpCoordinator.poll, hcount]
  rw [hpoll]
  exact h.stepped hcurrent hin (DpScheduler.outputsSince_step h.inOrder.pooled) hkept

theorem wait (h : Sound c) {loop : CallLoop ε} (hcurrent : c.current = some (loop, .waits)) :
    Sound (c.wait loop) := by
  obtain ⟨hin, ⟨-, hblocked⟩ | hdone⟩ := h.inOrder.stepBlocking
  · have hwait : c.wait loop = c := by simp only [DpCoordinator.wait, hblocked]
    rwa [hwait]
  · obtain ⟨dropped, haccount, hnil⟩ :=
      DpScheduler.account_apply h.inOrder.toRegular .stepBlocking
    rw [hnil.mpr h.inOrder.contained_stepBlocking] at haccount
    have hkept : c.scheduler.stepBlocking.1.account = c.scheduler.account := by
      simpa [DpScheduler.apply, DpScheduler.abortedBy, DpScheduler.drainedBy,
        DpScheduler.enqueuedBy] using haccount
    have hwait : c.wait loop =
        { c.stepped c.scheduler.stepBlocking.1 with current := some (loop, .polls) } := by
      simp only [DpCoordinator.wait, hdone]
    rw [hwait]
    exact h.stepped hcurrent hin (DpScheduler.outputsSince_stepBlocking h.inOrder.pooled) hkept

/-- **Every step keeps the invariant** if the call takes outputs that are for it. -/
theorem apply (h : Sound c) {action : Action}
    (hids : ((c.apply tokenizer action).submissions.map Prod.fst).Nodup)
    (hanswers : WorkersAnswer c action) (hok : Undisturbed tokenizer c action) :
    Sound (c.apply tokenizer action) := by
  cases action with
  | call call =>
    cases hcurrent : c.current with
    | some current => simpa [DpCoordinator.apply, hcurrent] using h
    | none =>
      have hbegin : c.apply tokenizer (.call call) = c.begin tokenizer call := by
        simp [DpCoordinator.apply, hcurrent]
      rw [hbegin] at hids ⊢
      exact h.begin hcurrent call hids
  | proceed =>
    cases hcurrent : c.current with
    | none => simpa [DpCoordinator.apply, hcurrent] using h
    | some current =>
      obtain ⟨loop, point⟩ := current
      simp only [DpCoordinator.apply, hcurrent]
      cases point with
      | polls => exact h.poll hcurrent
      | drains => exact h.drain hcurrent hok
      | waits => exact h.wait hcurrent
  | complete rank result =>
    exact ⟨h.inOrder.complete hanswers, h.ids, h.account, h.recipients, h.buffer, h.marked,
      h.steps_finished, ⟨h.delivers.once, h.delivers.recipient, h.delivers.kept⟩,
      h.returned_finished, h.waiting, h.calls_end, h.target, h.streams⟩

/-! ### Outputs that are for others -/

/-- An output that was taken and not returned is lost. -/
theorem lost (h : Sound c) {id : RequestId} (hid : id ∈ c.buffered)
    (hsteps : (id, Recipient.steps) ∈ c.submissions ∨ c.currentTarget = some id)
    (hfinished : c'.finished = c.finished) (hempty : c'.scheduler.finishedOutputs = [])
    (hcurrent : c'.current = none ∨ ∃ target point, c'.current = some (.generate target, point))
    (hreturned : id ∈ c'.returned.map Prod.fst → id ∈ c.returned.map Prod.fst) :
    ¬c'.DeliversOnce := by
  intro hdelivers
  have hunreturned : id ∉ c.returned.map Prod.fst :=
    hsteps.elim (h.waiting id hid) fun htarget => (h.target id htarget).2
  rcases hdelivers.kept id (hfinished ▸ h.buffer.subset hid) with hback | hpending
  · exact hunreturned (hreturned hback)
  · unfold Pending at hpending
    rw [hempty] at hpending
    rcases hcurrent with hnone | ⟨target, point, hgenerate⟩
    · rw [hnone] at hpending
      simp at hpending
    · rw [hgenerate] at hpending
      simp at hpending

/-- `generate` takes all finished outputs and returns at most its own. -/
theorem drain_generate (c : DpCoordinator ε) (target : RequestId) :
    (c.drain tokenizer (.generate target)).finished = c.finished ∧
      (c.drain tokenizer (.generate target)).scheduler.finishedOutputs = [] ∧
      ((c.drain tokenizer (.generate target)).current = none ∨ ∃ target' point,
        (c.drain tokenizer (.generate target)).current = some (.generate target', point)) ∧
      ∀ id ∈ (c.drain tokenizer (.generate target)).returned.map Prod.fst,
        id ∈ c.returned.map Prod.fst ∨ id = target ∧ ∃ item,
          c.scheduler.finishedOutputs.find? (·.requestId = target) = some item ∧
            ∃ text, tokenizer.decode item.tokenIds = .ok text := by
  simp only [DpCoordinator.drain]
  cases hfind : c.scheduler.finishedOutputs.find? (·.requestId = target) with
  | none =>
    dsimp only [DpCoordinator.goOn]
    split_ifs
    · refine ⟨rfl, rfl, .inl rfl, fun id hid => .inl ?_⟩
      rw [ids_returned_respond] at hid
      exact (List.mem_append.mp hid).resolve_right List.not_mem_nil
    · exact ⟨rfl, rfl, .inr ⟨target, .waits, rfl⟩, fun id hid => .inl hid⟩
  | some item =>
    obtain rfl : item.requestId = target := by simpa using List.find?_some hfind
    refine ⟨rfl, rfl, .inl rfl, fun id hid => ?_⟩
    rw [ids_returned_respond] at hid
    refine (List.mem_append.mp hid).imp_right fun hid => ?_
    unfold toTextOutput at hid
    cases htext : tokenizer.decode item.tokenIds with
    | error error => simp [htext, Response.completions] at hid
    | ok text =>
      simp only [htext, Response.completions] at hid
      split_ifs at hid
      · exact ⟨List.mem_singleton.mp hid, item, rfl, text, htext⟩
      · cases hid

/-- **What goes wrong.** If a call takes outputs that are for others then a completion is lost, or
is returned to the wrong caller. -/
theorem not_delivers (h : Sound c) {action : Action} (hbad : ¬Undisturbed tokenizer c action) :
    ¬(c.apply tokenizer action).DeliversOnce := by
  cases action with
  | call call => exact absurd trivial hbad
  | complete rank result => exact absurd trivial hbad
  | proceed =>
    cases hcurrent : c.current with
    | none => simp [Undisturbed, hcurrent] at hbad
    | some current =>
      obtain ⟨loop, point⟩ := current
      simp only [Undisturbed, hcurrent] at hbad
      simp only [DpCoordinator.apply, hcurrent]
      cases point with
      | polls => cases loop <;> exact absurd trivial hbad
      | waits => cases loop <;> exact absurd trivial hbad
      | drains =>
        cases loop with
        | step =>
          push Not at hbad
          obtain ⟨id, hid, ⟨hsteps, hreadable⟩ | ⟨hsteps, hreadable⟩⟩ := hbad
          · refine h.lost hid (.inl hsteps) rfl rfl (.inl rfl) fun hreturned => ?_
            simp only [DpCoordinator.drain, ids_returned_respond,
              completions_text_eq_nil hreadable, List.append_nil] at hreturned
            exact hreturned
          · refine fun hdelivers => hsteps (hdelivers.recipient (id, .steps) ?_)
            simp only [DpCoordinator.drain, returned_respond]
            refine List.mem_append_right _ (List.mem_map.mpr ⟨id, ?_, rfl⟩)
            rw [completions_text h.marked hreadable]
            exact hid
        | stepTokens =>
          push Not at hbad
          obtain ⟨id, hid, hsteps⟩ := hbad
          refine fun hdelivers => hsteps (hdelivers.recipient (id, .steps) ?_)
          simp only [DpCoordinator.drain, returned_respond]
          refine List.mem_append_right _ (List.mem_map.mpr ⟨id, ?_, rfl⟩)
          rw [completions_tokens h.marked]
          exact hid
        | generate target =>
          have htarget : c.currentTarget = some target := currentTarget_eq hcurrent
          obtain ⟨hfinished, hempty, hnext, hreturned⟩ := @drain_generate _ tokenizer c target
          by_cases hothers : ∀ id ∈ c.buffered, (id, Recipient.steps) ∉ c.submissions
          · have hown : ¬∀ item ∈ c.scheduler.finishedOutputs, item.requestId = target →
                ∃ text, tokenizer.decode item.tokenIds = .ok text :=
              fun hown => hbad ⟨hothers, hown⟩
            push Not at hown
            obtain ⟨item, hmem, rfl, hunreadable⟩ := hown
            refine h.lost (List.mem_map.mpr ⟨item, hmem, rfl⟩) (.inr htarget) hfinished hempty hnext
              fun hmem' => (hreturned _ hmem').resolve_right ?_
            rintro ⟨-, item', hfind, text, htext⟩
            have heq : item'.requestId = item.requestId := by simpa using List.find?_some hfind
            obtain rfl := List.inj_on_of_nodup_map h.buffered_nodup
              (List.mem_of_find?_eq_some hfind) hmem heq
            exact hunreadable text htext
          · push Not at hothers
            obtain ⟨id, hid, hsteps⟩ := hothers
            refine h.lost hid (.inl hsteps) hfinished hempty hnext fun hmem => ?_
            refine (hreturned id hmem).resolve_right fun ⟨heq, _⟩ => ?_
            cases h.recipient_unique hsteps (heq ▸ (h.target target htarget).1)
        | stream target sink answer outputs => exact absurd trivial hbad

end Sound

/-! ### Runs -/

theorem sound_new {s : DpScheduler} (hnew : s.IsNew) : Sound (new s : DpCoordinator ε) := by
  have hin := DpScheduler.inOrder_new hnew
  obtain ⟨_, _, _, _, _, _, -, -, hs⟩ := hnew
  unfold DpScheduler.new at hs
  split_ifs at hs
  obtain rfl := Except.ok.inj hs
  exact ⟨hin, List.nodup_nil, rfl, nofun, List.suffix_refl _, nofun, nofun,
    ⟨List.nodup_nil, nofun, nofun⟩, nofun, nofun, nofun, nofun, nofun⟩

theorem submissions_proceed (c : DpCoordinator ε) :
    (c.apply tokenizer .proceed).submissions = c.submissions := by
  simp only [apply]
  cases hcurrent : c.current with
  | none => rfl
  | some current =>
    obtain ⟨loop, point⟩ := current
    cases point with
    | polls =>
      dsimp only [poll]
      split <;> rfl
    | waits =>
      dsimp only [wait]
      split <;> rfl
    | drains =>
      cases loop with
      | step => rfl
      | stepTokens => rfl
      | generate target =>
        dsimp only [drain, goOn]
        split
        · rfl
        · split_ifs <;> rfl
      | stream target sink answer outputs =>
        dsimp only [drain, goOn]
        split
        · rfl
        · rfl
        · split_ifs <;> rfl

/-- Submissions are only added. -/
theorem submissions_apply (c : DpCoordinator ε) (action : Action) :
    c.submissions <+: (c.apply tokenizer action).submissions := by
  cases action with
  | proceed => rw [submissions_proceed]
  | complete rank result => exact List.prefix_refl _
  | call call =>
    simp only [apply]
    cases c.current with
    | some current => exact List.prefix_refl _
    | none =>
      cases call with
      | step => exact List.prefix_refl _
      | stepTokens => exact List.prefix_refl _
      | _ => exact List.prefix_append _ _

theorem submissions_run (c : DpCoordinator ε) (actions : List Action) :
    c.submissions <+: (c.run tokenizer actions).submissions := by
  induction actions generalizing c with
  | nil => exact List.prefix_refl _
  | cons action actions ih => exact (submissions_apply c action).trans (ih _)

/-- Deliveries along the rest of a run. -/
theorem Sound.delivers_iff (h : Sound c) (actions : List Action)
    (hids : ((c.run tokenizer actions).submissions.map Prod.fst).Nodup)
    (hworkers : Along (DpCoordinator.apply tokenizer) WorkersAnswer c actions) :
    (∀ before, before <+: actions → (c.run tokenizer before).DeliversOnce) ↔
      Along (DpCoordinator.apply tokenizer) (Undisturbed tokenizer) c actions := by
  induction actions generalizing c with
  | nil =>
    refine iff_of_true (fun before hbefore => ?_) trivial
    rw [List.prefix_nil.mp hbefore]
    exact h.delivers
  | cons action actions ih =>
    have hnext (hok : Undisturbed tokenizer c action) : Sound (c.apply tokenizer action) :=
      h.apply (hids.sublist ((submissions_run _ actions).map Prod.fst).sublist) hworkers.1 hok
    rw [along_cons]
    constructor
    · intro hdelivers
      have hok : Undisturbed tokenizer c action := by
        by_contra hbad
        exact h.not_delivers hbad (hdelivers [action] (List.prefix_append [action] actions))
      refine ⟨hok, (ih (hnext hok) hids hworkers.2).mp fun before hbefore => ?_⟩
      exact hdelivers (action :: before) (List.cons_prefix_cons.mpr ⟨rfl, hbefore⟩)
    · rintro ⟨hok, hrest⟩ before hbefore
      cases before with
      | nil => exact h.delivers
      | cons first before =>
        obtain ⟨rfl, hbefore'⟩ := List.cons_prefix_cons.mp hbefore
        exact (ih (hnext hok) hids hworkers.2).mpr hrest before hbefore'

end DpCoordinator

open DpCoordinator in
/-- **Completions of the coordinator.** If the workers do not fail and identifiers are not used
twice, then in every state of a run every completion has been returned at most once, to the caller
that it is for, and waits for that caller if it has not been returned, if and only if all calls find
the outputs undisturbed: `step` and `step_tokens` take outputs of enqueued requests only, `generate`
takes none of them, and what is returned as text can be decoded. -/
theorem dp_coordinator_delivers_iff {ε : Type} (tokenizer : Tokenizer ε) {s : DpScheduler}
    (hnew : s.IsNew) (actions : List Action)
    (hids : (((new s).run tokenizer actions).submissions.map Prod.fst).Nodup)
    (hworkers : Along (apply tokenizer) WorkersAnswer (new s) actions) :
    (∀ before, before <+: actions → ((new s).run tokenizer before).DeliversOnce) ↔
      Along (apply tokenizer) (Undisturbed tokenizer) (new s) actions :=
  (sound_new hnew).delivers_iff actions hids hworkers

namespace DpCoordinator

/-- A new scheduler with one rank and four pages of two slots. -/
def oneRank : DpScheduler where
  waitingQueue := []
  decodeQueue := []
  prefixCache := {}
  cacheOrigins := {}
  allocators := [⟨8, 2, [0, 1, 2, 3], ∅⟩]
  workerPool := ⟨[⟨[], true⟩], [], 1, false⟩
  runningBatches := []
  finishedOutputs := []
  stepOutputs := []
  maxBatchSize := 4
  pageSize := 2
  chunkedPrefillSize := none
  releases := []

theorem isNew_oneRank : oneRank.IsNew := by
  refine ⟨1, _, [⟨8, 2, [0, 1, 2, 3], ∅⟩], 4, 2, none, rfl, fun allocator h => ⟨8, ?_⟩, rfl⟩
  rw [List.mem_singleton.mp h]
  rfl

/-- A request is enqueued and its completion returned by a step. -/
theorem delivers_stepTokens :
    ((new oneRank : DpCoordinator Unit).run ⟨fun _ => [1], fun _ => .ok ""⟩
      [.call (.enqueueTokenRequest ⟨⟨"a"⟩, [1], ⟨1⟩, 0⟩), .call .stepTokens, .proceed, .proceed,
        .complete 0 (.ok ⟨[⟨[7], true⟩]⟩), .call .stepTokens, .proceed,
        .proceed]).DeliversOnce := by
  refine (dp_coordinator_delivers_iff _ isNew_oneRank _ ?_ ?_).mpr ?_ _ (List.prefix_refl _)
  · decide
  · exact ⟨trivial, trivial, trivial, trivial, .of_running rfl rfl rfl (Nat.le_refl 1), trivial,
      trivial, trivial, trivial⟩
  · refine ⟨trivial, trivial, trivial, fun id hid => ?_, trivial, trivial, trivial,
      fun id hid => ?_, trivial⟩
    · cases hid
    · rw [List.mem_singleton.mp hid]
      exact List.mem_singleton_self _

/-- After `generate_tokens` has returned the completion of its request, a step returns it again.
And `generate` drops the completion of a request that was enqueued before. All workers answer. -/
theorem not_delivers_mixedCalls :
    (let actions : List Action :=
        [.call (.generateTokens ⟨⟨"a"⟩, [1], ⟨1⟩, 0⟩), .proceed, .proceed,
          .complete 0 (.ok ⟨[⟨[7], true⟩]⟩), .proceed, .proceed, .proceed, .call .stepTokens,
          .proceed, .proceed]
      let c := (new oneRank : DpCoordinator Unit).run ⟨fun _ => [1], fun _ => .ok ""⟩ actions
      oneRank.IsNew ∧ (c.submissions.map Prod.fst).Nodup ∧
        Along (apply ⟨fun _ => [1], fun _ => .ok ""⟩) WorkersAnswer
          (new oneRank : DpCoordinator Unit) actions ∧
        c.returned = [(⟨"a"⟩, .call ⟨"a"⟩), (⟨"a"⟩, .steps)] ∧ ¬c.DeliversOnce) ∧
      let actions : List Action :=
        [.call (.enqueueTokenRequest ⟨⟨"a"⟩, [1], ⟨1⟩, 0⟩), .call (.generate ⟨⟨"b"⟩, "b", ⟨1⟩⟩),
          .proceed, .proceed, .complete 0 (.ok ⟨[⟨[7], true⟩, ⟨[8], true⟩]⟩), .proceed, .proceed,
          .proceed, .call .stepTokens, .proceed, .proceed]
      let c := (new oneRank : DpCoordinator Unit).run ⟨fun _ => [1], fun _ => .ok ""⟩ actions
      oneRank.IsNew ∧ (c.submissions.map Prod.fst).Nodup ∧
        Along (apply ⟨fun _ => [1], fun _ => .ok ""⟩) WorkersAnswer
          (new oneRank : DpCoordinator Unit) actions ∧
        c.finished = [⟨"a"⟩, ⟨"b"⟩] ∧ c.returned = [(⟨"b"⟩, .call ⟨"b"⟩)] ∧ ¬c.DeliversOnce := by
  refine ⟨⟨isNew_oneRank, by decide, ?_, by decide, fun h => absurd h.once (by decide)⟩,
    isNew_oneRank, by decide, ?_, by decide, by decide, fun h => ?_⟩
  · exact ⟨trivial, trivial, trivial, .of_running rfl rfl rfl (Nat.le_refl 1), trivial, trivial,
      trivial, trivial, trivial, trivial, trivial⟩
  · exact ⟨trivial, trivial, trivial, trivial, .of_running rfl rfl rfl (Nat.le_refl 2), trivial,
      trivial, trivial, trivial, trivial, trivial, trivial⟩
  · rcases h.kept ⟨"a"⟩ (by decide) with hreturned | ⟨-, hbuffered⟩ | hcurrent
    · exact absurd hreturned (by decide)
    · exact absurd hbuffered (by decide)
    · exact hcurrent

end DpCoordinator

end SglangRs
