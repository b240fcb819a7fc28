import SglangRs.Distributed.DpScheduler

/-!
# Weight reloads in the worker pool

The pool of the data-parallel ranks (`dp_worker_pool.rs`) sends its threads batches to execute and,
to all of them at once, requests to reload their weights. A thread takes its commands in order and
answers each with an event. The pool has one flag for every rank, which says that the rank is idle:
any command clears it, and any event of the rank sets it again. So a rank with two commands on the
way is idle when the first of them is answered.

Here the threads take steps of their own: a thread takes a command, answers it, or panics. The state
records the commands that were sent and the events that were delivered; the command that an event
answers is the first one that no earlier event of the rank has answered. Joining the threads, which
only waits for them, is not modelled, nor is the wrapping of the 64-bit sequence numbers.

## Main definitions

* `WeightReload.DpWorkerPool` and its calls.
* `DpWorkerPool.step`: a call or a step of a thread.
* `DpWorkerPool.unanswered`: the commands of a rank that no delivered event answers.
* `DpWorkerPool.OneAtATime`: idle ranks have answered all their commands, and no rank has two
  batches.

## Main results

* `DpWorkerPool.step_keeps`: a step keeps the account of the commands unless it sends a reload to a
  busy rank.
* `DpWorkerPool.one_batch_at_a_time`: idle ranks have answered all their commands, and no rank has
  two batches, in every state that is reached while no reload is sent to a busy rank.
-/

namespace SglangRs.WeightReload

structure WorkerWeightUpdateRequest where
  modelPath : String
  loadFormat : Option String
  weightVersion : String
deriving DecidableEq, Repr

inductive DpWorkerCommand where
  | executeBatch (sequence : ℕ) (batch : ScheduleBatch)
  | updateWeights (request : WorkerWeightUpdateRequest)
  | shutdown
deriving DecidableEq, Repr

namespace DpWorkerCommand

/-- The command is answered by an event. -/
def expectsEvent : DpWorkerCommand → Bool
  | .shutdown => false
  | _ => true

def isBatch : DpWorkerCommand → Bool
  | .executeBatch _ _ => true
  | _ => false

end DpWorkerCommand

inductive DpWorkerPoolError where
  | zeroSize
  | alreadyShutdown
  | invalidRank (rank dpSize : ℕ)
  | rankBusy (rank : ℕ)
  | channelDisconnected (rank : ℕ)
  | eventReceiverClosed
deriving DecidableEq, Repr

/-- The handle of a rank, with the channel of its commands and its thread: the command that the
thread works on, and whether it has ended. -/
structure DpRankHandle where
  isIdle : Bool
  commands : List DpWorkerCommand
  running : Option DpWorkerCommand
  ended : Bool
deriving DecidableEq, Repr

/-- The pool, with the channel of the events and the history. -/
structure DpWorkerPool where
  ranks : List DpRankHandle
  events : List DpWorkerEvent
  nextSequence : ℕ
  isShutdown : Bool
  sent : List (ℕ × DpWorkerCommand)
  delivered : List DpWorkerEvent

/-- A call of the pool, or a step of the thread of a rank. -/
inductive PoolStep where
  | submitBatch (rank : ℕ) (batch : ScheduleBatch)
  | broadcastWeightUpdate (request : WorkerWeightUpdateRequest)
  | pollEvents
  | waitForEvent
  | shutdown
  | receive (rank : ℕ)
  /-- The thread has executed a batch or reloaded its weights, and sends an event. -/
  | complete (rank : ℕ) (generated : Except WorkerExecutionError BatchGeneratedTokens)
      (updated : Except WorkerExecutionError Unit)
  | panic (rank : ℕ)

namespace DpWorkerPool

/-- Source: `dp_worker_pool.rs`, lines 68–122. -/
def launch (dpSize : ℕ) : Except DpWorkerPoolError DpWorkerPool :=
  if dpSize = 0 then .error .zeroSize
  else
    .ok { ranks := List.replicate dpSize ⟨true, [], none, false⟩
          events := []
          nextSequence := 1
          isShutdown := false
          sent := []
          delivered := [] }

variable (s : DpWorkerPool)

def isIdle (rank : ℕ) : Bool := (s.ranks[rank]?).any (·.isIdle)

def setIdle (rank : ℕ) (isIdle : Bool) : DpWorkerPool :=
  { s with ranks := s.ranks.modify rank ({ · with isIdle }) }

/-- Send a command. It fails when the thread has ended. -/
def send (rank : ℕ) (command : DpWorkerCommand) : Option DpWorkerPool :=
  match s.ranks[rank]? with
  | none => none
  | some handle =>
      if handle.ended then none
      else
        some { s with
          ranks := s.ranks.set rank { handle with commands := handle.commands ++ [command] }
          sent := s.sent ++ [(rank, command)] }

/-! ### Calls -/

/-- Source: `dp_worker_pool.rs`, lines 140–170. -/
def submitBatch (rank : ℕ) (batch : ScheduleBatch) :
    DpWorkerPool × Except DpWorkerPoolError ℕ :=
  if s.isShutdown then (s, .error .alreadyShutdown)
  else
    match s.ranks[rank]? with
    | none => (s, .error (.invalidRank rank s.ranks.length))
    | some handle =>
        if handle.isIdle then
          let seq := s.nextSequence
          let s := { s with nextSequence := seq + 1 }
          match s.send rank (.executeBatch seq batch) with
          | none => (s, .error (.channelDisconnected rank))
          | some s => (s.setIdle rank false, .ok seq)
        else (s, .error (.rankBusy rank))

/-- The loop of `broadcast_weight_update` over the first ranks. -/
def broadcastTo (request : WorkerWeightUpdateRequest) : ℕ →
    DpWorkerPool × Except DpWorkerPoolError Unit
  | 0 => (s, .ok ())
  | rank + 1 =>
      match broadcastTo request rank with
      | (s, .error e) => (s, .error e)
      | (s, .ok ()) =>
          match s.send rank (.updateWeights request) with
          | none => (s, .error (.channelDisconnected rank))
          | some s => (s.setIdle rank false, .ok ())

/-- Source: `dp_worker_pool.rs`, lines 173–196. -/
def broadcastWeightUpdate (request : WorkerWeightUpdateRequest) :
    DpWorkerPool × Except DpWorkerPoolError Unit :=
  if s.isShutdown then (s, .error .alreadyShutdown)
  else s.broadcastTo request s.ranks.length

/-- An event that was taken from the channel makes its rank idle. -/
def deliver (event : DpWorkerEvent) : DpWorkerPool :=
  { s.setIdle event.rank true with delivered := s.delivered ++ [event] }

/-- Source: `dp_worker_pool.rs`, lines 201–216. -/
def pollEvents : DpWorkerPool × List DpWorkerEvent :=
  ({ s.events.foldl deliver s with events := [] }, s.events)

/-- Nothing is returned while the call blocks. The channel is closed once all threads have ended.

Source: `dp_worker_pool.rs`, lines 219–235. -/
def waitForEvent : DpWorkerPool × Option (Except DpWorkerPoolError DpWorkerEvent) :=
  match s.events with
  | [] => (s, if s.ranks.all (·.ended) then some (.error .eventReceiverClosed) else none)
  | event :: events => ({ s.deliver event with events }, some (.ok event))

/-- The command for one rank; a thread that has ended does not receive it. -/
def sendShutdown (s : DpWorkerPool) (rank : ℕ) : DpWorkerPool := (s.send rank .shutdown).getD s

/-- Source: `dp_worker_pool.rs`, lines 237–254. -/
def shutdown : DpWorkerPool :=
  if s.isShutdown then s
  else (List.range s.ranks.length).foldl sendShutdown { s with isShutdown := true }

/-! ### Threads

Source: `dp_worker_pool.rs`, lines 256–279. -/

def setHandle (rank : ℕ) (handle : DpRankHandle) : DpWorkerPool :=
  { s with ranks := s.ranks.set rank handle }

/-- The thread takes its next command. -/
def receive (rank : ℕ) : DpWorkerPool :=
  match s.ranks[rank]? with
  | some ⟨isIdle, command :: commands, none, false⟩ =>
      if command = .shutdown then s.setHandle rank ⟨isIdle, commands, none, true⟩
      else s.setHandle rank ⟨isIdle, commands, some command, false⟩
  | _ => s

/-- The event that answers a command. -/
def answer (rank : ℕ) (generated : Except WorkerExecutionError BatchGeneratedTokens)
    (updated : Except WorkerExecutionError Unit) : DpWorkerCommand → List DpWorkerEvent
  | .executeBatch sequence _ => [.batchCompleted sequence rank generated]
  | .updateWeights _ => [.weightsUpdated rank updated]
  | .shutdown => []

/-- The thread answers its command. -/
def complete (rank : ℕ) (generated : Except WorkerExecutionError BatchGeneratedTokens)
    (updated : Except WorkerExecutionError Unit) : DpWorkerPool :=
  match s.ranks[rank]? with
  | some ⟨isIdle, commands, some command, ended⟩ =>
      { s.setHandle rank ⟨isIdle, commands, none, ended⟩ with
        events := s.events ++ answer rank generated updated command }
  | _ => s

/-- The worker panics while it is at a command, and the thread ends. -/
def panic (rank : ℕ) : DpWorkerPool :=
  match s.ranks[rank]? with
  | some ⟨isIdle, commands, some _, _⟩ => s.setHandle rank ⟨isIdle, commands, none, true⟩
  | _ => s

def step (s : DpWorkerPool) : PoolStep → DpWorkerPool
  | .submitBatch rank batch => (s.submitBatch rank batch).1
  | .broadcastWeightUpdate request => (s.broadcastWeightUpdate request).1
  | .pollEvents => s.pollEvents.1
  | .waitForEvent => s.waitForEvent.1
  | .shutdown => s.shutdown
  | .receive rank => s.receive rank
  | .complete rank generated updated => s.complete rank generated updated
  | .panic rank => s.panic rank

/-- The pool after a sequence of steps. -/
def run (s : DpWorkerPool) (steps : List PoolStep) : DpWorkerPool := steps.foldl step s

/-! ### Unanswered commands -/

/-- The commands sent to a rank that are to be answered. -/
def sentTo (rank : ℕ) : List DpWorkerCommand :=
  (s.sent.filter fun p => p.1 = rank ∧ p.2.expectsEvent).map Prod.snd

/-- The number of events of a rank that were delivered. -/
def answered (rank : ℕ) : ℕ := s.delivered.countP (·.rank = rank)

/-- The commands sent to a rank that no delivered event answers. -/
def unanswered (rank : ℕ) : List DpWorkerCommand := (s.sentTo rank).drop (s.answered rank)

/-- An idle rank has no unanswered command, and no rank has two unanswered batches; a rank with an
unanswered batch accepts no other. -/
structure OneAtATime : Prop where
  idle : ∀ rank, s.isIdle rank = true → s.unanswered rank = []
  one : ∀ rank, ((s.unanswered rank).filter DpWorkerCommand.isBatch).length ≤ 1
  busy : ∀ rank, (∃ command ∈ s.unanswered rank, command.isBatch = true) → s.isShutdown = false →
    rank < s.ranks.length → ∀ batch, (s.submitBatch rank batch).2 = .error (.rankBusy rank)

/-- The threads of the rank and of the ranks before it have not ended, so that a broadcast reaches
the rank. -/
def Reaches (rank : ℕ) :
    Prop := ∀ r ≤ rank, ∃ handle, s.ranks[r]? = some handle ∧ handle.ended = false

/-- A broadcast reaches idle ranks only. -/
def ReloadsIdle (s : DpWorkerPool) : PoolStep → Prop
  | .broadcastWeightUpdate _ =>
      s.isShutdown = false → ∀ rank, s.Reaches rank → s.isIdle rank = true
  | _ => True

variable {s} {s' : DpWorkerPool}

/-! ### Commands and events -/

/-- The number of commands that a thread has not answered yet. -/
def pendingIn (handle : DpRankHandle) : ℕ :=
  handle.running.toList.length + handle.commands.countP DpWorkerCommand.expectsEvent

def pending (s : DpWorkerPool) (rank : ℕ) : ℕ := (s.ranks[rank]?).elim 0 pendingIn

/-- The events of a rank answer commands that were sent to it, and there are further commands for
those that the thread has not answered. -/
def Counted (s : DpWorkerPool) : Prop :=
  ∀ rank, s.answered rank + s.events.countP (·.rank = rank) + s.pending rank ≤
    (s.sentTo rank).length

/-- At most one command of a rank is unanswered, and none if the rank is idle. -/
def Steady (s : DpWorkerPool) : Prop :=
  ∀ rank, (s.unanswered rank).length ≤ 1 ∧ (s.isIdle rank = true → s.unanswered rank = [])

theorem ranks_setIdle (rank : ℕ) (isIdle : Bool) (r : ℕ) :
    (s.setIdle rank isIdle).ranks[r]? =
      (s.ranks[r]?).map fun handle => if rank = r then { handle with isIdle } else handle := by
  rw [setIdle, List.getElem?_modify]
  by_cases h : rank = r <;> simp [h]

theorem pending_setIdle (rank : ℕ) (isIdle : Bool) (r : ℕ) :
    (s.setIdle rank isIdle).pending r = s.pending r := by
  rw [pending, pending, ranks_setIdle]
  cases s.ranks[r]? with
  | none => rfl
  | some handle => simp only [Option.map_some]; split_ifs <;> rfl

theorem isIdle_setIdle_of_ne {rank r : ℕ} (h : rank ≠ r) (isIdle : Bool) :
    (s.setIdle rank isIdle).isIdle r = s.isIdle r := by
  rw [DpWorkerPool.isIdle, DpWorkerPool.isIdle, ranks_setIdle]
  simp [h]

theorem not_isIdle_setIdle (rank : ℕ) : (s.setIdle rank false).isIdle rank = false := by
  rw [DpWorkerPool.isIdle, ranks_setIdle]
  cases s.ranks[rank]? <;> simp

/-! ### Sending -/

/-- What a command that was sent changes. -/
theorem send_cases {rank : ℕ} {command : DpWorkerCommand} (h : s.send rank command = some s') :
    ∃ handle, s.ranks[rank]? = some handle ∧ handle.ended = false ∧
      s' = { s with
        ranks := s.ranks.set rank { handle with commands := handle.commands ++ [command] }
        sent := s.sent ++ [(rank, command)] } := by
  rw [send] at h
  split at h
  · cases h
  · rename_i handle hget
    split_ifs at h with hended
    exact ⟨handle, hget, by simpa using hended, (Option.some.inj h).symm⟩

theorem getElem?_set_of_some {rank : ℕ} {old handle : DpRankHandle}
    (hget : s.ranks[rank]? = some old) (r : ℕ) :
    (s.ranks.set rank handle)[r]? = if rank = r then some handle else s.ranks[r]? := by
  rw [List.getElem?_set]
  obtain ⟨hlt, -⟩ := List.getElem?_eq_some_iff.1 hget
  simp [hlt]

theorem sentTo_send {rank : ℕ} {command : DpWorkerCommand} (h : s.send rank command = some s')
    (r : ℕ) : s'.sentTo r =
      s.sentTo r ++ if rank = r ∧ command.expectsEvent = true then [command] else [] := by
  obtain ⟨handle, -, -, rfl⟩ := send_cases h
  rw [sentTo, sentTo, List.filter_append, List.map_append]
  by_cases hr : rank = r ∧ command.expectsEvent = true <;> simp [hr]

theorem isIdle_send {rank : ℕ} {command : DpWorkerCommand} (h : s.send rank command = some s')
    (r : ℕ) : s'.isIdle r = s.isIdle r := by
  obtain ⟨handle, hget, -, rfl⟩ := send_cases h
  simp only [DpWorkerPool.isIdle, getElem?_set_of_some hget]
  by_cases hr : rank = r
  · subst hr
    simp [hget]
  · simp [hr]

theorem pending_send {rank : ℕ} {command : DpWorkerCommand} (h : s.send rank command = some s')
    (r : ℕ) : s'.pending r =
      s.pending r + if rank = r ∧ command.expectsEvent = true then 1 else 0 := by
  obtain ⟨handle, hget, -, rfl⟩ := send_cases h
  simp only [pending, getElem?_set_of_some hget]
  by_cases hr : rank = r
  · subst hr
    by_cases hexpects : command.expectsEvent = true <;>
      simp [hget, pendingIn, List.countP_append, hexpects, Nat.add_assoc]
  · simp [hr]

theorem history_send {rank : ℕ} {command : DpWorkerCommand} (h : s.send rank command = some s') :
    s'.events = s.events ∧ s'.delivered = s.delivered ∧ s'.isShutdown = s.isShutdown ∧
      s'.ranks.length = s.ranks.length := by
  obtain ⟨handle, -, -, rfl⟩ := send_cases h
  exact ⟨rfl, rfl, rfl, List.length_set⟩

theorem Counted.send (hs : s.Counted) {rank : ℕ} {command : DpWorkerCommand}
    (h : s.send rank command = some s') : s'.Counted := by
  intro r
  obtain ⟨hevents, hdelivered, -, -⟩ := history_send h
  have hr := hs r
  rw [answered, hevents, hdelivered, pending_send h, sentTo_send h, List.length_append]
  rw [answered] at hr
  split_ifs <;> simp <;> omega

/-- A new command is unanswered. -/
theorem unanswered_send (hs : s.Counted) {rank : ℕ} {command : DpWorkerCommand}
    (h : s.send rank command = some s') (r : ℕ) : s'.unanswered r =
      s.unanswered r ++ if rank = r ∧ command.expectsEvent = true then [command] else [] := by
  have hle := hs r
  rw [unanswered, unanswered, answered, (history_send h).2.1, sentTo_send h, answered,
    List.drop_append_of_le_length]
  rw [answered] at hle
  omega

/-- A rank that is idle is sent a command, and is not idle any more. -/
theorem Steady.sendIdle (hs : s.Steady) (hc : s.Counted) {rank : ℕ} {command : DpWorkerCommand}
    (h : s.send rank command = some s') (hidle : s.isIdle rank = true) :
    (s'.setIdle rank false).Steady := by
  intro r
  have hunanswered : (s'.setIdle rank false).unanswered r = s'.unanswered r := rfl
  rw [hunanswered, unanswered_send hc h]
  by_cases hr : rank = r
  · subst hr
    rw [(hs rank).2 hidle, not_isIdle_setIdle]
    split_ifs <;> simp
  · rw [isIdle_setIdle_of_ne hr, isIdle_send h, if_neg fun hand => hr hand.1, List.append_nil]
    exact hs r

theorem Counted.setIdle (hc : s.Counted) (rank : ℕ) (isIdle : Bool) :
    (s.setIdle rank isIdle).Counted := by
  intro r
  rw [pending_setIdle]
  exact hc r

/-- The thread of the rank has not ended. -/
def Alive (s : DpWorkerPool) (rank : ℕ) : Prop :=
  ∃ handle, s.ranks[rank]? = some handle ∧ handle.ended = false

theorem alive_setIdle (rank : ℕ) (isIdle : Bool) (r : ℕ) :
    (s.setIdle rank isIdle).Alive r ↔ s.Alive r := by
  rw [Alive, Alive, ranks_setIdle]
  cases s.ranks[r]? with
  | none => simp
  | some handle => by_cases hr : rank = r <;> simp [hr]

theorem alive_send {rank : ℕ} {command : DpWorkerCommand} (h : s.send rank command = some s')
    (r : ℕ) : s'.Alive r ↔ s.Alive r := by
  obtain ⟨handle, hget, hended, rfl⟩ := send_cases h
  rw [Alive, Alive]
  simp only [getElem?_set_of_some hget]
  by_cases hr : rank = r
  · subst hr
    simp [hget]
  · simp [hr]

theorem alive_of_send {rank : ℕ} {command : DpWorkerCommand} (h : s.send rank command = some s') :
    s.Alive rank := by
  obtain ⟨handle, hget, hended, -⟩ := send_cases h
  exact ⟨handle, hget, hended⟩

/-! ### Calls -/

/-- The loop over the first ranks, when the ranks that it reaches are idle. -/
theorem broadcastTo_spec (hs : s.Steady) (hc : s.Counted) (request : WorkerWeightUpdateRequest)
    (hidle : ∀ rank, s.Reaches rank → s.isIdle rank = true) (n : ℕ) :
    (s.broadcastTo request n).1.Counted ∧ (s.broadcastTo request n).1.Steady ∧
      (∀ rank, n ≤ rank → (s.broadcastTo request n).1.isIdle rank = s.isIdle rank) ∧
      (∀ rank, (s.broadcastTo request n).1.Alive rank ↔ s.Alive rank) ∧
      ((s.broadcastTo request n).2 = .ok () → ∀ rank < n, s.Alive rank) := by
  induction n with
  | zero => exact ⟨hc, hs, fun _ _ => rfl, fun _ => Iff.rfl, by simp⟩
  | succ n ih =>
      obtain ⟨hc', hs', hidle', halive, hreached⟩ := ih
      rw [broadcastTo]
      split
      · rename_i t e heq
        rw [heq] at hc' hs' hidle' halive
        exact ⟨hc', hs', fun rank hle => hidle' rank (Nat.le_of_succ_le hle), halive, by simp⟩
      · rename_i t heq
        rw [heq] at hc' hs' hidle' halive hreached
        have hbefore := hreached rfl
        split
        · exact ⟨hc', hs', fun rank hle => hidle' rank (Nat.le_of_succ_le hle), halive, by simp⟩
        · rename_i t' hsend
          have halive_n : s.Alive n := (halive n).1 (alive_of_send hsend)
          have hreaches : s.Reaches n := by
            intro rank hle
            obtain hlt | rfl := Nat.lt_or_eq_of_le hle
            · exact hbefore rank hlt
            · exact halive_n
          refine ⟨(hc'.send hsend).setIdle n false,
            hs'.sendIdle hc' hsend ((hidle' n le_rfl).trans (hidle n hreaches)),
            fun rank hle => ?_, fun rank => ?_, fun _ rank hlt => ?_⟩
          · rw [isIdle_setIdle_of_ne (Nat.ne_of_lt hle), isIdle_send hsend]
            exact hidle' rank (Nat.le_of_succ_le hle)
          · rw [alive_setIdle, alive_send hsend]
            exact halive rank
          · obtain hlt | rfl := Nat.lt_or_eq_of_le (Nat.le_of_lt_succ hlt)
            · exact hbefore rank hlt
            · exact halive_n

theorem broadcast_keeps (hs : s.Steady) (hc : s.Counted) {request : WorkerWeightUpdateRequest}
    (hidle : s.ReloadsIdle (.broadcastWeightUpdate request)) :
    (s.broadcastWeightUpdate request).1.Counted ∧ (s.broadcastWeightUpdate request).1.Steady := by
  rw [broadcastWeightUpdate]
  split_ifs with hshut
  · exact ⟨hc, hs⟩
  · obtain ⟨hc', hs', -⟩ := broadcastTo_spec hs hc request (hidle (by simpa using hshut))
      s.ranks.length
    exact ⟨hc', hs'⟩

theorem submit_keeps (hs : s.Steady) (hc : s.Counted) (rank : ℕ) (batch : ScheduleBatch) :
    (s.submitBatch rank batch).1.Counted ∧ (s.submitBatch rank batch).1.Steady := by
  rw [submitBatch]
  split_ifs
  · exact ⟨hc, hs⟩
  · split
    · exact ⟨hc, hs⟩
    · rename_i handle hget
      split_ifs with hidle
      · dsimp only
        split
        · exact ⟨hc, hs⟩
        · rename_i t hsend
          have hrank : ({ s with nextSequence := s.nextSequence + 1 } : DpWorkerPool).isIdle rank =
              true := by
            rw [DpWorkerPool.isIdle, hget]
            simpa using hidle
          have hc' : ({ s with nextSequence := s.nextSequence + 1 } : DpWorkerPool).Counted := hc
          have hs' : ({ s with nextSequence := s.nextSequence + 1 } : DpWorkerPool).Steady := hs
          exact ⟨(hc'.send hsend).setIdle rank false, hs'.sendIdle hc' hsend hrank⟩
      · exact ⟨hc, hs⟩

/-- An event answers the first unanswered command of its rank. -/
theorem unanswered_deliver (event : DpWorkerEvent) (r : ℕ) : (s.deliver event).unanswered r =
    (s.unanswered r).drop (if event.rank = r then 1 else 0) := by
  have hsent : (s.deliver event).sentTo r = s.sentTo r := rfl
  have hanswered : (s.deliver event).answered r =
      s.answered r + if event.rank = r then 1 else 0 := by
    rw [answered, deliver, List.countP_append]
    by_cases hr : event.rank = r <;> simp [answered, hr]
  rw [unanswered, hsent, hanswered, unanswered, List.drop_drop]

theorem isIdle_deliver_of_ne {event : DpWorkerEvent} {r : ℕ} (h : event.rank ≠ r) :
    (s.deliver event).isIdle r = s.isIdle r :=
  isIdle_setIdle_of_ne h true

theorem Steady.deliver (hs : s.Steady) (event : DpWorkerEvent) : (s.deliver event).Steady := by
  intro r
  rw [unanswered_deliver]
  by_cases hr : event.rank = r
  · have hempty : (s.unanswered r).drop 1 = [] := List.drop_eq_nil_of_le (hs r).1
    rw [if_pos hr, hempty]
    exact ⟨Nat.zero_le _, fun _ => rfl⟩
  · rw [if_neg hr, isIdle_deliver_of_ne hr]
    exact hs r

/-- The events of a channel are delivered one after the other. -/
theorem Counted.deliver (hc : s.Counted) {event : DpWorkerEvent} {events : List DpWorkerEvent}
    (hevents : s.events = event :: events) :
    ({ s.deliver event with events } : DpWorkerPool).Counted := by
  intro r
  have hr := hc r
  rw [hevents, List.countP_cons] at hr
  have hpending : ({ s.deliver event with events } : DpWorkerPool).pending r = s.pending r :=
    pending_setIdle event.rank true r
  have hanswered : ({ s.deliver event with events } : DpWorkerPool).answered r =
      s.answered r + if event.rank = r then 1 else 0 := by
    show (s.delivered ++ [event]).countP _ = _
    rw [List.countP_append]
    by_cases hrank : event.rank = r <;> simp [answered, hrank]
  have hsent : ({ s.deliver event with events } : DpWorkerPool).sentTo r = s.sentTo r := rfl
  rw [hpending, hanswered, hsent]
  by_cases hrank : event.rank = r <;> simp [hrank] at hr ⊢ <;> omega

theorem foldl_deliver_events (delivered events : List DpWorkerEvent) (t : DpWorkerPool) :
    delivered.foldl deliver { t with events } = { delivered.foldl deliver t with events } := by
  induction delivered generalizing t with
  | nil => rfl
  | cons event delivered ih => exact ih (t.deliver event)

theorem poll_keeps (hs : s.Steady) (hc : s.Counted) :
    s.pollEvents.1.Counted ∧ s.pollEvents.1.Steady := by
  have hall : ∀ (events : List DpWorkerEvent) (t : DpWorkerPool), t.events = events → t.Counted →
      t.Steady → ({ events.foldl deliver t with events := [] } : DpWorkerPool).Counted ∧
        ({ events.foldl deliver t with events := [] } : DpWorkerPool).Steady := by
    intro events
    induction events with
    | nil =>
        rintro t hevents hct hst
        refine ⟨fun r => ?_, hst⟩
        have hr := hct r
        rw [hevents] at hr
        exact hr
    | cons event events ih =>
        intro t hevents hct hst
        have hnext := ih { t.deliver event with events } rfl (hct.deliver hevents)
          (hst.deliver event)
        rwa [foldl_deliver_events] at hnext
  exact hall s.events s rfl hc hs

theorem wait_keeps (hs : s.Steady) (hc : s.Counted) :
    s.waitForEvent.1.Counted ∧ s.waitForEvent.1.Steady := by
  rw [waitForEvent]
  split
  · exact ⟨hc, hs⟩
  · exact ⟨hc.deliver ‹_›, hs.deliver _⟩

/-- A command that is not answered leaves the account as it is. -/
theorem sendShutdown_keeps (hs : s.Steady) (hc : s.Counted) (rank : ℕ) :
    (s.sendShutdown rank).Counted ∧ (s.sendShutdown rank).Steady := by
  rw [sendShutdown]
  cases hsend : s.send rank .shutdown with
  | none => exact ⟨hc, hs⟩
  | some t =>
      refine ⟨hc.send hsend, fun r => ?_⟩
      rw [Option.getD_some, unanswered_send hc hsend, isIdle_send hsend,
        if_neg (by simp [DpWorkerCommand.expectsEvent]), List.append_nil]
      exact hs r

theorem shutdown_keeps (hs : s.Steady) (hc : s.Counted) :
    s.shutdown.Counted ∧ s.shutdown.Steady := by
  rw [shutdown]
  split_ifs
  · exact ⟨hc, hs⟩
  · refine List.foldlRecOn (motive := fun t : DpWorkerPool => t.Counted ∧ t.Steady) _ _ ⟨hc, hs⟩ ?_
    exact fun t ht rank _ => sendShutdown_keeps ht.2 ht.1 rank

/-! ### Threads -/

section Threads

variable {rank : ℕ} {old handle : DpRankHandle}

/-- A step of a thread leaves the flags and the history as they are. -/
theorem Steady.setHandle (hs : s.Steady) (hget : s.ranks[rank]? = some old)
    (hidle : handle.isIdle = old.isIdle) (events : List DpWorkerEvent) :
    ({ s.setHandle rank handle with events } : DpWorkerPool).Steady := by
  intro r
  have hflag : ({ s.setHandle rank handle with events } : DpWorkerPool).isIdle r = s.isIdle r := by
    rw [DpWorkerPool.isIdle, DpWorkerPool.isIdle, DpWorkerPool.setHandle,
      getElem?_set_of_some hget]
    by_cases hr : rank = r
    · subst hr
      simp [hget, hidle]
    · simp [hr]
  rw [hflag]
  exact hs r

/-- A thread answers no more commands than it gives up. -/
theorem Counted.setHandle (hc : s.Counted) (hget : s.ranks[rank]? = some old)
    {emitted : List DpWorkerEvent} (hemitted : ∀ event ∈ emitted, event.rank = rank)
    (hle : emitted.length + pendingIn handle ≤ pendingIn old) :
    ({ s.setHandle rank handle with events := s.events ++ emitted } : DpWorkerPool).Counted := by
  intro r
  have hr := hc r
  have hcount : emitted.countP (·.rank = r) = if rank = r then emitted.length else 0 := by
    by_cases heq : rank = r
    · rw [if_pos heq, List.countP_eq_length]
      exact fun event hevent => by simpa [heq] using hemitted event hevent
    · rw [if_neg heq, List.countP_eq_zero]
      exact fun event hevent => by simpa [hemitted event hevent] using heq
  have hpending : ({ s.setHandle rank handle with events := s.events ++ emitted } :
      DpWorkerPool).pending r = if rank = r then pendingIn handle else s.pending r := by
    rw [pending, pending, DpWorkerPool.setHandle, getElem?_set_of_some hget]
    split_ifs <;> rfl
  have hsame : ({ s.setHandle rank handle with events := s.events ++ emitted } :
      DpWorkerPool).answered r = s.answered r := rfl
  have hsent : ({ s.setHandle rank handle with events := s.events ++ emitted } :
      DpWorkerPool).sentTo r = s.sentTo r := rfl
  rw [hpending, hsame, hsent, List.countP_append, hcount]
  by_cases heq : rank = r
  · subst heq
    rw [pending, hget, Option.elim_some] at hr
    rw [if_pos rfl, if_pos rfl]
    omega
  · rw [if_neg heq, if_neg heq]
    exact hr

/-- A thread that answers nothing. -/
theorem silent_keeps (hs : s.Steady) (hc : s.Counted) (hget : s.ranks[rank]? = some old)
    (hidle : handle.isIdle = old.isIdle) (hle : pendingIn handle ≤ pendingIn old) :
    (s.setHandle rank handle).Counted ∧ (s.setHandle rank handle).Steady := by
  have hnone : ∀ event ∈ ([] : List DpWorkerEvent), event.rank = rank := by simp
  have hcounted := hc.setHandle hget hnone (by simpa using hle)
  rw [List.append_nil] at hcounted
  exact ⟨hcounted, hs.setHandle hget hidle s.events⟩

theorem receive_keeps (hs : s.Steady) (hc : s.Counted) (rank : ℕ) :
    (s.receive rank).Counted ∧ (s.receive rank).Steady := by
  rw [receive]
  split
  · rename_i isIdle command commands hget
    split_ifs with hshutdown
    · refine silent_keeps hs hc hget rfl ?_
      simp [pendingIn, hshutdown, DpWorkerCommand.expectsEvent]
    · refine silent_keeps hs hc hget rfl ?_
      have hexpects : command.expectsEvent = true := by
        cases command with
        | shutdown => exact absurd rfl hshutdown
        | _ => rfl
      simp [pendingIn, hexpects, Nat.add_comm]
  · exact ⟨hc, hs⟩

theorem complete_keeps (hs : s.Steady) (hc : s.Counted) (rank : ℕ)
    (generated : Except WorkerExecutionError BatchGeneratedTokens)
    (updated : Except WorkerExecutionError Unit) :
    (s.complete rank generated updated).Counted ∧ (s.complete rank generated updated).Steady := by
  rw [complete]
  split
  · rename_i isIdle commands command ended hget
    have hidle : (DpRankHandle.mk isIdle commands none ended).isIdle = isIdle := rfl
    refine ⟨hc.setHandle hget (fun event hevent => ?_) ?_, hs.setHandle hget hidle _⟩
    · cases command <;> simp [answer] at hevent <;> rw [hevent] <;> rfl
    · cases command <;> simp [answer, pendingIn, Nat.add_comm]
  · exact ⟨hc, hs⟩

theorem panic_keeps (hs : s.Steady) (hc : s.Counted) (rank : ℕ) :
    (s.panic rank).Counted ∧ (s.panic rank).Steady := by
  rw [panic]
  split
  · rename_i isIdle commands command ended hget
    have hidle : (DpRankHandle.mk isIdle commands none true).isIdle = isIdle := rfl
    exact silent_keeps hs hc hget hidle (by simp [pendingIn])
  · exact ⟨hc, hs⟩

end Threads

/-! ### Runs -/

theorem step_keeps (hs : s.Steady) (hc : s.Counted) {a : PoolStep} (ha : s.ReloadsIdle a) :
    (s.step a).Counted ∧ (s.step a).Steady := by
  cases a with
  | submitBatch rank batch => exact submit_keeps hs hc rank batch
  | broadcastWeightUpdate request => exact broadcast_keeps hs hc ha
  | pollEvents => exact poll_keeps hs hc
  | waitForEvent => exact wait_keeps hs hc
  | shutdown => exact shutdown_keeps hs hc
  | receive rank => exact receive_keeps hs hc rank
  | complete rank generated updated => exact complete_keeps hs hc rank generated updated
  | panic rank => exact panic_keeps hs hc rank

theorem launch_keeps {dpSize : ℕ} (hlaunch : launch dpSize = .ok s) : s.Counted ∧ s.Steady := by
  rw [launch] at hlaunch
  split_ifs at hlaunch
  cases hlaunch
  refine ⟨fun rank => ?_, fun rank => ⟨Nat.zero_le _, fun _ => rfl⟩⟩
  rw [pending]
  by_cases hlt : rank < dpSize <;> simp [answered, pendingIn, hlt]

/-- A rank with an unanswered command is busy. -/
theorem Steady.oneAtATime (hs : s.Steady) : s.OneAtATime where
  idle rank := (hs rank).2
  one rank := (List.length_filter_le _ _).trans (hs rank).1
  busy rank hbatch hshut hlt batch := by
    obtain ⟨command, hcommand, -⟩ := hbatch
    have hidle : s.isIdle rank = false := by
      by_contra hidle
      rw [(hs rank).2 (by simpa using hidle)] at hcommand
      cases hcommand
    rw [DpWorkerPool.isIdle, List.getElem?_eq_getElem hlt, Option.any_some] at hidle
    simp [submitBatch, hshut, List.getElem?_eq_getElem hlt, hidle]

/-- **One batch at a time.** In every run in which a weight reload is sent to idle ranks only, idle
ranks have answered all their commands, and a rank has at most one unanswered batch and accepts no
other meanwhile. -/
theorem one_batch_at_a_time (dpSize : ℕ) (pool : DpWorkerPool) (steps : List PoolStep)
    (hlaunch : launch dpSize = .ok pool)
    (hidle : Transition.Along step ReloadsIdle pool steps) : (pool.run steps).OneAtATime :=
  Steady.oneAtATime (Transition.foldl_invariant (I := fun s => s.Counted ∧ s.Steady)
    (fun _ _ ha h => step_keeps h.2 h.1 ha) hidle (launch_keeps hlaunch)).2

/-- A pool of one rank. -/
def single : DpWorkerPool := ⟨[⟨true, [], none, false⟩], [], 1, false, [], []⟩

/-- A batch without requests. -/
def emptyBatch : ScheduleBatch := ⟨.decode, []⟩

def reload : WorkerWeightUpdateRequest := ⟨"model", none, "v2"⟩

/-- The thread takes a command and answers it, and the event is delivered. -/
def answerSteps : List PoolStep := [.receive 0, .complete 0 (.ok ⟨[]⟩) (.ok ()), .pollEvents]

/-- A batch, a reload after it and another batch. -/
def reloadBetween : List PoolStep :=
  [.submitBatch 0 emptyBatch] ++ answerSteps ++ [.broadcastWeightUpdate reload] ++ answerSteps ++
    [.submitBatch 0 emptyBatch]

theorem one_batch_at_a_time_reload_between :
    (single.run reloadBetween).isIdle 0 = false ∧ (single.run reloadBetween).OneAtATime := by
  refine ⟨by decide, one_batch_at_a_time 1 single reloadBetween rfl ?_⟩
  refine ⟨trivial, trivial, trivial, trivial, fun _ rank hreach => ?_, trivial, trivial, trivial,
    trivial, trivial⟩
  match rank with
  | 0 => decide
  | rank + 1 =>
      obtain ⟨handle, hget, -⟩ := hreach (rank + 1) le_rfl
      cases hget

/-- A reload during a batch. -/
def reloadDuring : List PoolStep :=
  [.submitBatch 0 emptyBatch, .broadcastWeightUpdate reload] ++ answerSteps

/-- The rank is idle with a reload unanswered. It accepts a batch, and another one when the reload
is answered. -/
theorem exists_two_batches :
    (single.run reloadDuring).unanswered 0 = [.updateWeights reload] ∧
    (single.run (reloadDuring ++ [.submitBatch 0 emptyBatch] ++ answerSteps ++
      [.submitBatch 0 emptyBatch])).unanswered 0 =
        [.executeBatch 2 emptyBatch, .executeBatch 3 emptyBatch] ∧
    ¬ (single.run reloadDuring).OneAtATime := by
  refine ⟨by decide, by decide, fun h => ?_⟩
  have hidle : (single.run reloadDuring).isIdle 0 = true := by decide
  exact absurd (h.idle 0 hidle) (by decide)

end DpWorkerPool

end SglangRs.WeightReload
