import SglangRs.Router.Removal
import SglangRs.Transition.Run

/-!
# What the router knows of a publisher

A worker that stays attached publishes numbered batches of events, and a marker when its publisher
shuts down; the next publisher starts with an empty cache and counts from the beginning. The pump
(`policies/kv_events/index.rs`, lines 322–397) skips the batches that do not have a larger number
than the last one applied, and forgets this number at a marker. The blocks of the worker stay in the
tree.

The runs of this file are runs of the index in which nobody asks to remove the worker. Other workers
come and go, and the events of all workers are interleaved.

## Main definitions

* `IndexState.accepts`: what the pump accepts for a worker.
* `sinceReset`: the batches accepted since the last marker.
* `IndexState.Follows`: the blocks of the worker in the tree are those of its publisher.

## Main results

* `IndexState.Pumped.step`: the invariant.
* `IndexState.follows_iff`: when the tree follows the publisher.
-/

namespace SglangRs.Router

open Transition

/-! ### Batches of a publisher -/

/-- The batches since the last marker, with their numbers. -/
def sinceReset (messages : List Message) : List (Int64 × List KvCacheEvent) :=
  messages.foldl (fun batches message => match message with
    | .publisherReset => []
    | .batch seq events => batches ++ [(seq, events)]) []

/-- The events of the batches since the last marker. -/
def eventsSinceReset (messages : List Message) : List KvCacheEvent :=
  (sinceReset messages).flatMap Prod.snd

/-- The events of all batches. -/
def allEvents (messages : List Message) : List KvCacheEvent :=
  messages.flatMap fun message => match message with
    | .publisherReset => []
    | .batch _ events => events

/-- The number of the last batch. -/
def lastSeq (batches : List (Int64 × List KvCacheEvent)) : Option Int64 :=
  batches.getLast?.map Prod.fst

section Messages

variable (messages : List Message)

@[simp] theorem sinceReset_reset : sinceReset (messages ++ [.publisherReset]) = [] := by
  simp [sinceReset]

@[simp] theorem sinceReset_batch (seq : Int64) (events : List KvCacheEvent) :
    sinceReset (messages ++ [.batch seq events]) = sinceReset messages ++ [(seq, events)] := by
  simp [sinceReset]

@[simp] theorem allEvents_reset :
    allEvents (messages ++ [.publisherReset]) = allEvents messages := by
  simp [allEvents]

@[simp] theorem allEvents_batch (seq : Int64) (events : List KvCacheEvent) :
    allEvents (messages ++ [.batch seq events]) = allEvents messages ++ events := by
  simp [allEvents]

@[simp] theorem lastSeq_concat (batches : List (Int64 × List KvCacheEvent)) (seq : Int64)
    (events : List KvCacheEvent) : lastSeq (batches ++ [(seq, events)]) = some seq := by
  simp [lastSeq]

/-- The batches before every marker leave no blocks. -/
def CleanResets (messages : List Message) : Prop :=
  ∀ before after, messages = before ++ .publisherReset :: after →
    blockSet (eventsSinceReset before) = ∅

theorem blockSet_append (events more : List KvCacheEvent) :
    blockSet (events ++ more) = more.foldl KvCacheEvent.update (blockSet events) := by
  simp [blockSet]

/-- If the batches before every marker leave no blocks, what came before the last one can be
forgotten. -/
theorem CleanResets.split (h : CleanResets messages) :
    ∃ old, allEvents messages = old ++ eventsSinceReset messages ∧ blockSet old = ∅ := by
  induction messages using List.reverseRecOn with
  | nil => exact ⟨[], rfl, rfl⟩
  | append_singleton messages message ih =>
      have hclean : CleanResets messages := fun before after hsplit =>
        h before (after ++ [message]) (by rw [hsplit]; simp)
      obtain ⟨old, hold, hempty⟩ := ih hclean
      cases message with
      | publisherReset =>
          refine ⟨allEvents messages, by simp [eventsSinceReset], ?_⟩
          rw [hold, blockSet_append, hempty]
          exact h messages [] rfl
      | batch seq events =>
          refine ⟨old, ?_, hempty⟩
          rw [allEvents_batch, hold, eventsSinceReset, eventsSinceReset, sinceReset_batch,
            List.flatMap_append, List.append_assoc]
          simp

end Messages

/-- A step that asks to remove a worker URL. -/
def IndexStep.AsksToRemove (url : String) : IndexStep → Prop
  | .callRemove _ url' => url' = url
  | _ => False

namespace IndexState

/-! ### What the pump does for a worker -/

/-- What the pump accepts for a worker: the markers, and the batches that are new. -/
def accepts (w : KvWorkerId) (s : IndexState) : IndexStep → List Message
  | .pump _ _ =>
      match s.pump with
      | .checked event =>
          if s.cursorsLock = none ∧ event.worker = w then
            match event.message with
            | .publisherReset => [.publisherReset]
            | .batch seq events =>
                if isNew (s.cursors w) seq then [.batch seq events] else []
          else []
      | _ => []
  | _ => []

/-- What the pump has accepted for a worker in a run. -/
def accepted (w : KvWorkerId) (now : ℕ) (steps : List IndexStep) : List Message :=
  emitted step (accepts w) (new now) steps

/-- The number of the batch of a worker that is being applied. -/
def applyingSeq (s : IndexState) (w : KvWorkerId) : Option Int64 :=
  match s.pump with
  | .applying worker _ seq _ => if worker = w then some seq else none
  | _ => none

/-- The events of a worker that are still to be applied. -/
def unapplied (s : IndexState) (w : KvWorkerId) : List KvCacheEvent :=
  match s.pump with
  | .applying worker _ _ events => if worker = w then events else []
  | _ => []

/-- The blocks of the worker in the tree are those of the batches since the last marker, as far as
they have been applied. -/
def Follows (w : KvWorkerId) (messages : List Message) (s : IndexState) : Prop :=
  ∀ done, eventsSinceReset messages = done ++ s.unapplied w →
    ∀ blockHash, s.tree.Lists blockHash w ↔ blockHash ∈ blockSet done

/-- The invariant: the blocks of the worker are those of all batches accepted, and the cursor is the
number of the last one since the last marker. -/
structure Pumped (w : KvWorkerId) (messages : List Message) (s : IndexState) : Prop where
  wellFormed : s.tree.WellFormed
  others : ∀ id url stage, s.calls id = some (.remove url stage) →
    url ≠ w.url ∧ ∀ worker ∈ stage.pending, worker.url = url
  cursor : s.applyingSeq w = none → s.cursors w = lastSeq (sinceReset messages)
  applying : ∀ seq, s.applyingSeq w = some seq → ∃ before events,
    sinceReset messages = before ++ [(seq, events)]
  blocks : ∃ done, allEvents messages = done ++ s.unapplied w ∧
    ∀ blockHash, s.tree.Lists blockHash w ↔ blockHash ∈ blockSet done
  increasing : (sinceReset messages).Pairwise fun earlier later => earlier.1 < later.1

variable {w : KvWorkerId} {messages : List Message} {s s' : IndexState}

theorem pumped_new (w : KvWorkerId) (now : ℕ) : Pumped w [] (new now) := by
  refine ⟨(TreeState.represents_new (fun _ => none) now).wellFormed, by simp [new], fun _ => rfl,
    by simp [applyingSeq, new], ⟨[], rfl, ?_⟩, .nil⟩
  intro blockHash
  exact (TreeState.represents_new (fun _ => none) now).lists_iff blockHash w

/-- A step that does not concern the worker. -/
theorem Pumped.frame (h : Pumped w messages s) (hpump : s'.pump = s.pump)
    (hcursor : s'.cursors w = s.cursors w) (hwf : s'.tree.WellFormed)
    (hlists : ∀ blockHash, s'.tree.Lists blockHash w ↔ s.tree.Lists blockHash w)
    (hcalls : ∀ id url stage, s'.calls id = some (.remove url stage) →
      url ≠ w.url ∧ ∀ worker ∈ stage.pending, worker.url = url) : Pumped w messages s' := by
  have hseq : s'.applyingSeq w = s.applyingSeq w := by rw [applyingSeq, hpump, applyingSeq]
  have hunapplied : s'.unapplied w = s.unapplied w := by rw [unapplied, hpump, unapplied]
  obtain ⟨done, hdone, hblocks⟩ := h.blocks
  exact ⟨hwf, hcalls, fun hnone => hcursor.trans (h.cursor (hseq ▸ hnone)),
    fun seq hseq' => h.applying seq (hseq ▸ hseq'),
    ⟨done, hunapplied ▸ hdone, fun blockHash => (hlists blockHash).trans (hblocks blockHash)⟩,
    h.increasing⟩

/-- A step of the pump on which nothing is being applied for the worker. -/
theorem Pumped.repump (h : Pumped w messages s) (hseq : s.applyingSeq w = none)
    (hunapplied : s.unapplied w = []) (htree : s'.tree = s.tree)
    (hcursor : s'.cursors w = s.cursors w) (hcalls : s'.calls = s.calls)
    (hseq' : s'.applyingSeq w = none) (hunapplied' : s'.unapplied w = []) :
    Pumped w messages s' := by
  obtain ⟨done, hdone, hblocks⟩ := h.blocks
  refine ⟨htree ▸ h.wellFormed, hcalls ▸ h.others, fun _ => hcursor.trans (h.cursor hseq),
    fun seq hsome => absurd (hseq'.symm.trans hsome) (by simp), ⟨done, ?_, ?_⟩, h.increasing⟩
  · rw [hunapplied', ← hunapplied]
    exact hdone
  · rw [htree]
    exact hblocks

/-- A step of a call that does not touch the tree. -/
theorem Pumped.frame_call (h : Pumped w messages s) (hpump : s'.pump = s.pump)
    (hcursors : s'.cursors = s.cursors) (htree : s'.tree = s.tree) {id : ℕ} {call : Option Call}
    (hcalls : s'.calls = Function.update s.calls id call)
    (hcall : ∀ url stage, call = some (.remove url stage) →
      url ≠ w.url ∧ ∀ worker ∈ stage.pending, worker.url = url) : Pumped w messages s' := by
  refine h.frame hpump (by rw [hcursors]) (htree ▸ h.wellFormed) (by simp [htree]) ?_
  intro id' url stage hid
  rw [hcalls] at hid
  by_cases heq : id' = id
  · subst heq
    exact hcall url stage (by simpa using hid)
  · exact h.others id' url stage (by simpa [Function.update_of_ne heq] using hid)

/-! ### Steps of the calls -/

theorem foldl_subscribeRank_frame (ids : List KvWorkerId) (s : IndexState) :
    (ids.foldl subscribeRank s).tree = s.tree ∧ (ids.foldl subscribeRank s).cursors = s.cursors ∧
      (ids.foldl subscribeRank s).pump = s.pump ∧ (ids.foldl subscribeRank s).calls = s.calls := by
  induction ids generalizing s with
  | nil => exact ⟨rfl, rfl, rfl, rfl⟩
  | cons id ids ih =>
      have hone : (s.subscribeRank id).tree = s.tree ∧ (s.subscribeRank id).cursors = s.cursors ∧
          (s.subscribeRank id).pump = s.pump ∧ (s.subscribeRank id).calls = s.calls := by
        rw [subscribeRank]
        split_ifs <;> exact ⟨rfl, rfl, rfl, rfl⟩
      obtain ⟨htree, hcursors, hpump, hcalls⟩ := ih (s.subscribeRank id)
      exact ⟨htree.trans hone.1, hcursors.trans hone.2.1, hpump.trans hone.2.2.1,
        hcalls.trans hone.2.2.2⟩

theorem Pumped.advanceAdd (h : Pumped w messages s) (id : ℕ) (url : String) (cfg : EventConfig)
    (stage : AddStage) : Pumped w messages (s.advanceAdd id url cfg stage) := by
  cases stage with
  | resolve =>
      rw [IndexState.advanceAdd]
      split
      · exact h.frame_call rfl rfl rfl rfl (by simp)
      · refine h.frame_call rfl rfl rfl rfl ?_
        split_ifs <;> simp
  | markLive => exact h.frame_call rfl rfl rfl rfl (by simp)
  | register => exact h.frame_call rfl rfl rfl rfl (by simp)
  | subscribe =>
      obtain ⟨htree, hcursors, hpump, hcalls⟩ :=
        foldl_subscribeRank_frame (rankIds url cfg.dpRanks) s
      have hupdate : (s.advanceAdd id url cfg .subscribe).calls = Function.update s.calls id none := by
        rw [← hcalls]
        rfl
      exact h.frame_call hpump hcursors htree hupdate (by simp)

theorem Pumped.advanceRemove (h : Pumped w messages s) {id : ℕ} {url : String} {stage : RemoveStage}
    (hc : s.calls id = some (.remove url stage)) (order : IterationOrder)
    (drained : List (KvWorkerId × TaskId)) :
    Pumped w messages (s.advanceRemove order drained id url stage) := by
  obtain ⟨hurl, hpending⟩ := h.others id url stage hc
  -- the next stage of the call has the same ranks or fewer
  have hnext : ∀ {stage' : RemoveStage}, (∀ worker ∈ stage'.pending, worker.url = url) →
      ∀ url' stage'', some (Call.remove url stage') = some (.remove url' stage'') →
        url' ≠ w.url ∧ ∀ worker ∈ stage''.pending, worker.url = url' := by
    rintro stage' hworkers url' stage'' heq
    obtain ⟨rfl, rfl⟩ := Call.remove.inj (Option.some.inj heq)
    exact ⟨hurl, hworkers⟩
  cases stage with
  | take =>
      rw [IndexState.advanceRemove]
      split
      · exact h.frame_call rfl rfl rfl rfl (by simp)
      · refine h.frame_call rfl rfl rfl rfl (hnext fun worker hworker => ?_)
        obtain ⟨rank, -, rfl⟩ := List.mem_map.1 hworker
        rfl
  | markDead ids => exact h.frame_call rfl rfl rfl rfl (hnext hpending)
  | drain ids =>
      rw [IndexState.advanceRemove]
      split_ifs
      · exact h.frame_call rfl rfl rfl rfl (hnext hpending)
      · exact h
  | join ids bound tasks =>
      cases tasks with
      | nil => exact h.frame_call rfl rfl rfl rfl (hnext hpending)
      | cons head tasks =>
          rw [IndexState.advanceRemove]
          split
          · exact h
          · split_ifs
            · exact h.frame rfl rfl h.wellFormed (fun _ => Iff.rfl) h.others
            · exact h.frame_call rfl rfl rfl rfl (hnext hpending)
            · exact h
  | lockCursors ids bound =>
      rw [IndexState.advanceRemove]
      split_ifs
      · exact h.frame_call rfl rfl rfl rfl (hnext hpending)
      · exact h
  | clear ids bound =>
      cases ids with
      | nil => exact h.frame_call rfl rfl rfl rfl (by simp)
      | cons worker ids =>
          have hne : w ≠ worker := by
            rintro rfl
            exact hurl (hpending w List.mem_cons_self).symm
          refine h.frame rfl (Function.update_of_ne hne _ _)
            (TreeState.clearWorker_spec order worker h.wellFormed).2 (fun blockHash => ?_) ?_
          · refine (TreeState.lists_clearWorker h.wellFormed order worker blockHash w).trans ?_
            exact and_iff_left hne
          · intro id' url' stage' hid
            by_cases heq : id' = id
            · subst heq
              have hfewer : ∀ other ∈ (RemoveStage.clear ids bound).pending, other.url = url :=
                fun other hother => hpending other (List.mem_cons_of_mem _ hother)
              exact hnext hfewer url' stage' (by simpa [IndexState.advanceRemove, setCall] using hid)
            · refine h.others id' url' stage' ?_
              simpa [IndexState.advanceRemove, setCall, Function.update_of_ne heq] using hid

/-! ### Steps of the pump -/

theorem lists_applyEvent_self {tree : TreeState} (hwf : tree.WellFormed) (order : IterationOrder)
    (now : ℕ) (worker : KvWorkerId) (event : KvCacheEvent) {held : Finset Int64}
    (hheld : ∀ blockHash, tree.Lists blockHash worker ↔ blockHash ∈ held) (blockHash : Int64) :
    (applyEvent order now worker tree event).Lists blockHash worker ↔
      blockHash ∈ event.update held := by
  cases event with
  | blockStored parentBlockHash blockHashes =>
      refine (TreeState.lists_insert hwf order now worker parentBlockHash blockHashes blockHash
        worker).trans ?_
      simp [hheld, KvCacheEvent.update]
  | blockRemoved blockHashes =>
      refine (TreeState.lists_remove hwf order worker blockHashes blockHash worker).trans ?_
      simp [hheld, KvCacheEvent.update]
  | allBlocksCleared =>
      refine (TreeState.lists_clearWorker hwf order worker blockHash worker).trans ?_
      simp [KvCacheEvent.update]

/-- The events of other workers leave the blocks of a worker alone. -/
theorem lists_applyEvent_of_ne {tree : TreeState} (hwf : tree.WellFormed) (order : IterationOrder)
    (now : ℕ) {worker w : KvWorkerId} (hne : w ≠ worker) (event : KvCacheEvent)
    (blockHash : Int64) :
    (applyEvent order now worker tree event).Lists blockHash w ↔ tree.Lists blockHash w := by
  cases event with
  | blockStored parentBlockHash blockHashes =>
      refine (TreeState.lists_insert hwf order now worker parentBlockHash blockHashes blockHash
        w).trans ?_
      simp [hne]
  | blockRemoved blockHashes =>
      refine (TreeState.lists_remove hwf order worker blockHashes blockHash w).trans ?_
      simp [hne]
  | allBlocksCleared =>
      refine (TreeState.lists_clearWorker hwf order worker blockHash w).trans ?_
      simp [hne]

/-- A new batch has a larger number than all batches since the last marker. -/
theorem lt_of_isNew {batches : List (Int64 × List KvCacheEvent)} {seq : Int64}
    (hpairs : batches.Pairwise fun earlier later => earlier.1 < later.1)
    (hnew : isNew (lastSeq batches) seq) : ∀ batch ∈ batches, batch.1 < seq := by
  obtain rfl | ⟨init, ⟨last, events⟩, rfl⟩ := List.eq_nil_or_concat batches
  · simp
  · rw [List.concat_eq_append] at hnew hpairs ⊢
    rw [lastSeq_concat] at hnew
    have hlast : last < seq := Int64.not_le.1 (by simpa [isNew] using hnew)
    intro batch hmem
    obtain hmem | hmem := List.mem_append.1 hmem
    · exact Int64.lt_trans ((List.pairwise_append.1 hpairs).2.2 batch hmem _
        (List.mem_singleton_self _)) hlast
    · obtain rfl := List.mem_singleton.1 hmem
      exact hlast

theorem Pumped.pumpChecked (h : Pumped w messages s) {event : WorkerEvent}
    (hp : s.pump = .checked event) (order : IterationOrder) (now : ℕ) :
    Pumped w (messages ++ accepts w s (.pump order now)) (s.pumpStep order now) := by
  have hseq : s.applyingSeq w = none := by rw [applyingSeq, hp]
  have hunapplied : s.unapplied w = [] := by rw [unapplied, hp]
  obtain ⟨done, hdone, hblocks⟩ := h.blocks
  rw [hunapplied, List.append_nil] at hdone
  rw [IndexState.pumpStep, hp]
  by_cases hlock : s.cursorsLock = none
  · by_cases hworker : event.worker = w
    · subst hworker
      cases hmessage : event.message with
      | publisherReset =>
          simp only [accepts, hp, hlock, hmessage, and_self, if_true]
          exact ⟨h.wellFormed, h.others, fun _ => by simp [lastSeq], by simp [applyingSeq],
            ⟨done, by simpa [unapplied] using hdone, hblocks⟩, by simp⟩
      | batch seq events =>
          by_cases hnew : isNew (s.cursors event.worker) seq = true
          · simp only [accepts, hp, hlock, hmessage, hnew, and_self, if_true]
            refine ⟨h.wellFormed, h.others, by simp [applyingSeq], ?_,
              ⟨done, by simpa [unapplied] using hdone, hblocks⟩, ?_⟩
            · intro seq' hseq'
              obtain rfl : seq = seq' := by simpa [applyingSeq] using hseq'
              exact ⟨sinceReset messages, events, sinceReset_batch messages seq events⟩
            · rw [h.cursor hseq] at hnew
              rw [sinceReset_batch, List.pairwise_append]
              refine ⟨h.increasing, List.pairwise_singleton _ _, fun batch hmem later hlater => ?_⟩
              obtain rfl := List.mem_singleton.1 hlater
              exact lt_of_isNew h.increasing hnew batch hmem
          · simp only [accepts, hp, hlock, hmessage, hnew, and_self, if_true, if_false,
              List.append_nil, Bool.false_eq_true]
            exact h.repump hseq hunapplied rfl rfl rfl rfl rfl
    · simp only [accepts, hp, hlock, hworker, and_false, if_false, if_true, List.append_nil]
      cases event.message with
      | publisherReset =>
          exact h.repump hseq hunapplied rfl (Function.update_of_ne (Ne.symm hworker) _ _) rfl rfl rfl
      | batch seq events =>
          dsimp only
          split_ifs
          · exact h.repump hseq hunapplied rfl rfl rfl (by simp [applyingSeq, hworker])
              (by simp [unapplied, hworker])
          · exact h.repump hseq hunapplied rfl rfl rfl rfl rfl
  · simpa [accepts, hp, hlock] using h

theorem Pumped.pumpApplying (h : Pumped w messages s) {worker : KvWorkerId} {sender : TaskId}
    {seq : Int64} {events : List KvCacheEvent} (hp : s.pump = .applying worker sender seq events)
    (order : IterationOrder) (now : ℕ) : Pumped w messages (s.pumpStep order now) := by
  obtain ⟨done, hdone, hblocks⟩ := h.blocks
  rw [IndexState.pumpStep, hp]
  by_cases hworker : worker = w
  · subst hworker
    have hseq : s.applyingSeq worker = some seq := by simp [applyingSeq, hp]
    have hunapplied : s.unapplied worker = events := by simp [unapplied, hp]
    rw [hunapplied] at hdone
    cases events with
    | nil =>
        dsimp only
        split_ifs
        · obtain ⟨before, events, hsince⟩ := h.applying seq hseq
          exact ⟨h.wellFormed, h.others, fun _ => by simp [hsince], by simp [applyingSeq],
            ⟨done, by simpa [unapplied] using hdone, hblocks⟩, h.increasing⟩
        · exact h
    | cons event events =>
        refine ⟨(Consistent.lists_applyEvent h.wellFormed order now worker event).1, h.others,
          by simp [applyingSeq], fun seq' hseq' => h.applying seq' ?_,
          ⟨done ++ [event], by simpa [unapplied] using hdone, fun blockHash => ?_⟩, h.increasing⟩
        · rw [hseq]
          simpa [applyingSeq] using hseq'
        · rw [blockSet_append]
          exact lists_applyEvent_self h.wellFormed order now worker event hblocks blockHash
  · have hseq : s.applyingSeq w = none := by simp [applyingSeq, hp, hworker]
    have hunapplied : s.unapplied w = [] := by simp [unapplied, hp, hworker]
    cases events with
    | nil =>
        dsimp only
        split_ifs
        · exact h.repump hseq hunapplied rfl (Function.update_of_ne (Ne.symm hworker) _ _) rfl rfl rfl
        · exact h
    | cons event events =>
        rw [hunapplied] at hdone
        refine ⟨(Consistent.lists_applyEvent h.wellFormed order now worker event).1, h.others,
          fun _ => h.cursor hseq, by simp [applyingSeq, hworker],
          ⟨done, by simpa [unapplied, hworker] using hdone, fun blockHash => ?_⟩, h.increasing⟩
        exact (lists_applyEvent_of_ne h.wellFormed order now (Ne.symm hworker) event
          blockHash).trans (hblocks blockHash)

theorem Pumped.pumpStep (h : Pumped w messages s) (order : IterationOrder) (now : ℕ) :
    Pumped w (messages ++ accepts w s (.pump order now)) (s.pumpStep order now) := by
  cases hp : s.pump with
  | idle =>
      have hseq : s.applyingSeq w = none := by rw [applyingSeq, hp]
      have hunapplied : s.unapplied w = [] := by rw [unapplied, hp]
      simp only [accepts, IndexState.pumpStep, hp, List.append_nil]
      cases s.channel with
      | nil => exact h
      | cons event channel => exact h.repump hseq hunapplied rfl rfl rfl rfl rfl
  | received event =>
      have hseq : s.applyingSeq w = none := by rw [applyingSeq, hp]
      have hunapplied : s.unapplied w = [] := by rw [unapplied, hp]
      simp only [accepts, IndexState.pumpStep, hp, List.append_nil]
      split_ifs <;> exact h.repump hseq hunapplied rfl rfl rfl rfl rfl
  | checked event => exact h.pumpChecked hp order now
  | applying worker sender seq events =>
      have hnothing : accepts w s (.pump order now) = [] := by simp [accepts, hp]
      rw [hnothing, List.append_nil]
      exact h.pumpApplying hp order now

theorem Pumped.select (h : Pumped w messages s) (id : TaskId) (message : Option Message) :
    Pumped w messages (s.select id message) := by
  rw [IndexState.select]
  split
  · exact h
  · split
    · split_ifs
      · exact h.frame rfl rfl h.wellFormed (fun _ => Iff.rfl) h.others
      · split <;> exact h.frame rfl rfl h.wellFormed (fun _ => Iff.rfl) h.others
    · exact h

theorem Pumped.send (h : Pumped w messages s) (id : TaskId) : Pumped w messages (s.send id) := by
  rw [IndexState.send]
  split
  · exact h
  · split
    · split_ifs
      · exact h.frame rfl rfl h.wellFormed (fun _ => Iff.rfl) h.others
      · exact h
    · exact h

/-- **The invariant is kept** by every step that does not ask to remove the worker. -/
theorem Pumped.step (h : Pumped w messages s) (a : IndexStep) (hlive : ¬a.AsksToRemove w.url) :
    Pumped w (messages ++ accepts w s a) (s.step a) := by
  have hpass : ∀ t, Pumped w messages t → Pumped w (messages ++ []) t := by
    intro t ht
    rwa [List.append_nil]
  cases a with
  | callAdd id url cfg =>
      refine hpass _ ?_
      rw [IndexState.step]
      split
      · exact h.frame_call rfl rfl rfl rfl (by simp)
      · exact h
  | callRemove id url =>
      refine hpass _ ?_
      rw [IndexState.step]
      split
      · refine h.frame_call rfl rfl rfl rfl ?_
        rintro url' stage heq
        obtain ⟨rfl, rfl⟩ := Call.remove.inj (Option.some.inj heq)
        exact ⟨hlive, by simp [RemoveStage.pending]⟩
      · exact h
  | advance id order drained =>
      refine hpass _ ?_
      rw [IndexState.step]
      split
      · exact h
      · exact h.advanceAdd id _ _ _
      · next hc => exact h.advanceRemove hc order drained
  | select id message => exact hpass _ (h.select id message)
  | send id => exact hpass _ (h.send id)
  | pump order now => exact h.pumpStep order now

theorem Pumped.run (h : Pumped w messages s) {steps : List IndexStep}
    (hlive : ∀ a ∈ steps, ¬a.AsksToRemove w.url) :
    Pumped w (messages ++ emitted IndexState.step (accepts w) s steps) (s.run steps) := by
  induction steps generalizing s messages with
  | nil => simpa [emitted, IndexState.run] using h
  | cons a steps ih =>
      have hstep := h.step a (hlive a List.mem_cons_self)
      have hrun := ih hstep fun b hb => hlive b (List.mem_cons_of_mem _ hb)
      rw [List.append_assoc] at hrun
      exact hrun

/-! ### Following a publisher -/

theorem pumped_accepted (w : KvWorkerId) (now : ℕ) {steps : List IndexStep}
    (hlive : ∀ a ∈ steps, ¬a.AsksToRemove w.url) :
    Pumped w (accepted w now steps) ((new now).run steps) :=
  (pumped_new w now).run hlive

/-- A state follows the publisher if the batches before every marker leave no blocks. -/
theorem Pumped.follows (h : Pumped w messages s) (hclean : CleanResets messages) :
    Follows w messages s := by
  intro done hdone blockHash
  obtain ⟨old, hold, hempty⟩ := hclean.split
  obtain ⟨done', hdone', hblocks⟩ := h.blocks
  have hsame : done' ++ s.unapplied w = (old ++ done) ++ s.unapplied w := by
    rw [← hdone', hold, hdone, List.append_assoc]
  obtain rfl := List.append_cancel_right hsame
  rw [hblocks, blockSet_append, hempty]
  rfl

/-- The pump accepts at most one message at a step, and at a marker the tree stays as it is. -/
theorem step_of_accepts_reset {a : IndexStep} {here rest : List Message}
    (h : accepts w s a = here ++ .publisherReset :: rest) :
    here = [] ∧ (s.step a).tree = s.tree ∧ s.unapplied w = [] ∧ (s.step a).unapplied w = [] ∧
      accepts w s a = [.publisherReset] := by
  cases a with
  | pump order now =>
      have hsplit := h
      rw [accepts] at h
      split at h
      · next event hp =>
          split_ifs at h with hcond
          · split at h
            · next hmessage =>
                obtain ⟨rfl, -⟩ : here = [] ∧ rest = [] := by
                  cases here with
                  | nil => simpa using h.symm
                  | cons first here => simp at h
                refine ⟨rfl, ?_, by simp [unapplied, hp], ?_, ?_⟩
                · simp [IndexState.step, IndexState.pumpStep, hp, hcond.1, hmessage]
                · simp [IndexState.step, IndexState.pumpStep, hp, hcond.1, hmessage, unapplied]
                · simp [accepts, hp, hcond, hmessage]
            · split_ifs at h
              · cases here <;> simp at h
              · simp at h
          · simp at h
      · simp at h
  | _ => simp [accepts] at h

/-- **When the router follows a publisher.** In every run in which nobody asks to remove the worker,
the batches accepted since the last marker have increasing numbers at any time. The blocks of the
worker in the tree are at any time those of the batches since the last marker exactly when, at every
marker, the batches since the one before leave no blocks.

Source: `policies/kv_events/index.rs`, lines 322–397. -/
theorem follows_iff (w : KvWorkerId) (now : ℕ) (steps : List IndexStep)
    (hlive : ∀ a ∈ steps, ¬a.AsksToRemove w.url) :
    (∀ before, before <+: steps →
      (sinceReset (accepted w now before)).Pairwise fun earlier later => earlier.1 < later.1) ∧
    ((∀ before, before <+: steps →
        Follows w (accepted w now before) ((new now).run before)) ↔
      CleanResets (accepted w now steps)) := by
  have hpumped : ∀ before, before <+: steps →
      Pumped w (accepted w now before) ((new now).run before) :=
    fun before hpre => pumped_accepted w now fun a ha => hlive a (hpre.subset ha)
  refine ⟨fun before hpre => (hpumped before hpre).increasing, fun hfollows => ?_,
    fun hclean before hpre => (hpumped before hpre).follows ?_⟩
  · -- the tree does not change at a marker, and after it the publisher has no blocks
    intro earlier later hsplit
    obtain ⟨before, a, after, here, rest, rfl, hemits, hearlier⟩ := exists_emitting hsplit
    change accepts w ((new now).run before) a = _ at hemits
    obtain ⟨rfl, htree, hunapplied, hunapplied', haccepts⟩ := step_of_accepts_reset hemits
    rw [List.append_nil] at hearlier
    have hrun : (new now).run (before ++ [a]) = ((new now).run before).step a := by
      simp [IndexState.run]
    have haccepted : accepted w now (before ++ [a]) = earlier ++ [.publisherReset] := by
      rw [accepted, emitted_append, hearlier, emitted, emitted, List.append_nil]
      exact congrArg (earlier ++ ·) haccepts
    have hbefore := hfollows before ⟨a :: after, rfl⟩ (eventsSinceReset earlier)
    have hafter := hfollows (before ++ [a]) ⟨after, by simp⟩ []
    rw [show accepted w now before = earlier from hearlier] at hbefore
    rw [haccepted, hrun, hunapplied'] at hafter
    ext blockHash
    rw [← hbefore (by rw [hunapplied, List.append_nil]) blockHash, ← htree]
    exact hafter (by simp [eventsSinceReset]) blockHash
  · obtain ⟨after, rfl⟩ := hpre
    intro earlier later hsplit
    refine hclean earlier (later ++ emitted step (accepts w) ((new now).run before) after) ?_
    rw [accepted, emitted_append]
    rw [accepted] at hsplit
    rw [hsplit, List.append_assoc]
    rfl

/-- The worker of the runs below. -/
def publisher : KvWorkerId := ⟨"http://a", 0⟩

/-- A worker is added, and its subscriber hands over messages, each of which the pump applies. -/
def publishing (messages : List Message) : List IndexStep :=
  [.callAdd 0 "http://a" ⟨5000, 16, 1⟩] ++ List.replicate 4 (.advance 0 TreeState.ascending []) ++
    messages.flatMap fun message => [.select 0 (some message), .send 0] ++
      List.replicate 5 (.pump TreeState.ascending 1)

/-- Nobody asks to remove the worker. -/
theorem not_asksToRemove_publishing (messages : List Message) :
    ∀ a ∈ publishing messages, ¬a.AsksToRemove publisher.url := by
  intro a ha
  simp only [publishing, List.mem_append, List.mem_replicate,
    List.mem_flatMap, List.mem_cons, List.not_mem_nil, or_false] at ha
  rcases ha with (rfl | ⟨-, rfl⟩) | ⟨message, -, (rfl | rfl) | ⟨-, rfl⟩⟩ <;> exact id

/-- A publisher stores a block and shuts down. Its successor has an empty cache, but the router
still believes that it holds the block. -/
theorem exists_stale_block :
    let steps := publishing [.batch 1 [.blockStored none [7]], .publisherReset]
    eventsSinceReset (accepted publisher 0 steps) = [] ∧
      ((new 0).run steps).tree.Lists 7 publisher ∧
      ¬Follows publisher (accepted publisher 0 steps) ((new 0).run steps) := by
  intro steps
  have haccepted : accepted publisher 0 steps =
      [.batch 1 [.blockStored none [7]], .publisherReset] := by decide
  have hunapplied : ((new 0).run steps).unapplied publisher = [] := by decide
  have hnone : eventsSinceReset (accepted publisher 0 steps) = [] := by
    rw [haccepted]
    rfl
  have hlists : ((new 0).run steps).tree.Lists 7 publisher := by
    obtain ⟨done, hdone, hblocks⟩ :=
      (pumped_accepted publisher 0 (not_asksToRemove_publishing _)).blocks
    rw [hblocks]
    rw [haccepted, hunapplied, List.append_nil] at hdone
    rw [← hdone]
    decide
  refine ⟨hnone, hlists, fun hfollows => ?_⟩
  have hempty := (hfollows [] (by rw [hnone, hunapplied]; rfl) 7).1 hlists
  exact absurd hempty (by decide)

/-- A publisher that clears its cache before it shuts down is followed. -/
theorem follows_of_cleared :
    let steps := publishing
      [.batch 1 [.blockStored none [7]], .batch 2 [.allBlocksCleared], .publisherReset,
        .batch 1 [.blockStored none [9]]]
    ∀ before, before <+: steps →
      Follows publisher (accepted publisher 0 before) ((new 0).run before) := by
  intro steps
  have haccepted : accepted publisher 0 steps =
      [.batch 1 [.blockStored none [7]], .batch 2 [.allBlocksCleared], .publisherReset,
        .batch 1 [.blockStored none [9]]] := by decide
  refine (follows_iff publisher 0 steps (not_asksToRemove_publishing _)).2.2 ?_
  rw [haccepted]
  intro before after hsplit
  rcases before with _ | ⟨first, _ | ⟨second, _ | ⟨third, _ | ⟨fourth, before⟩⟩⟩⟩
  · simp at hsplit
  · simp at hsplit
  · obtain ⟨rfl, rfl, -⟩ : .batch 1 [.blockStored none [7]] = first ∧
        .batch 2 [.allBlocksCleared] = second ∧ _ := by simpa using hsplit
    decide
  · simp at hsplit
  · simp at hsplit

end IndexState

end SglangRs.Router
