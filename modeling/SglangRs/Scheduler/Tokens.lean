import Mathlib.Tactic.Abel
import SglangRs.Ledger.Histories
import SglangRs.Scheduler.Dispatch
import SglangRs.Scheduler.Selection

/-!
# Generated tokens are returned once

A token the worker generates for a request is appended to the request's outputs and handed back in
a `ScheduledOutput`. An error met while a batch is retired replaces the outputs of the whole batch,
so the tokens appended before and after it are not handed back. As long as this does not happen the
outputs returned by a run are a ledger of the requests submitted: they divide into one history for
each request, in which the tokens are those of the request, the last output and no other is marked
as finished, and there are at most `max 1 max_new_tokens` tokens.

## Main definitions

* `Scheduler.appended`: the tokens an operation appends to the outputs of requests.
* `Scheduler.Lossless`: no error of a completion replaces the outputs of a batch.
* `Accounted`: the requests known to the scheduler and the outputs returned so far make a ledger.

## Main results

* `outputs_eq_appended`: a lossless operation returns what it appends.
* `tokens_returned_once`: a lossless run keeps the ledger.
-/

namespace SglangRs

open Scheduler Transition Ledger

variable {W : Type}

/-- What the ledger knows about a submission: its id and its limit. -/
abbrev TokenKey : Type := RequestId × ℕ

/-- The part of a request the ledger is about. -/
def ScheduledRequest.account (r : ScheduledRequest) : TokenKey × List UInt32 :=
  ((r.requestId, r.sampling.maxNewTokens), r.outputIds)

section Account

variable (r : ScheduledRequest)

@[simp] theorem ScheduledRequest.account_setStage (stage : RequestStage) :
    (r.setStage stage).account = r.account := rfl

@[simp] theorem ScheduledRequest.account_clearForwardCacheAllocation :
    r.clearForwardCacheAllocation.account = r.account := rfl

@[simp] theorem ScheduledRequest.account_advanceChunk : r.advanceChunk.account = r.account := rfl

@[simp] theorem ScheduledRequest.account_awaitChunk : r.awaitChunk.account = r.account := rfl

@[simp] theorem ScheduledRequest.account_recordAllocation (slots : List ℕ) :
    (r.recordAllocation slots).account = r.account := rfl

theorem ScheduledRequest.account_awaitDecode (tokenIds : List UInt32) :
    (r.awaitDecode tokenIds).account = (r.account.1, r.account.2 ++ tokenIds) := rfl

end Account

/-- The accounts of a queue. -/
def accounts (queue : List ScheduledRequest) : Multiset (TokenKey × List UInt32) :=
  (queue.map ScheduledRequest.account : List _)

@[simp] theorem accounts_nil : accounts [] = 0 := rfl

@[simp] theorem accounts_cons (r : ScheduledRequest) (queue : List ScheduledRequest) :
    accounts (r :: queue) = {r.account} + accounts queue := rfl

@[simp] theorem accounts_append (queue queue' : List ScheduledRequest) :
    accounts (queue ++ queue') = accounts queue + accounts queue' := by
  simp [accounts]

theorem accounts_perm {queue queue' : List ScheduledRequest} (h : queue.Perm queue') :
    accounts queue = accounts queue' :=
  Multiset.coe_eq_coe.mpr (h.map _)

/-- The accounts of the requests in the queues and in the batch in progress. -/
def Config.accounts (c : Config W) : Multiset (TokenKey × List UInt32) :=
  SglangRs.accounts c.scheduler.waitingQueue + SglangRs.accounts c.scheduler.decodeQueue +
    SglangRs.accounts c.taken + SglangRs.accounts c.executed

/-! ### Moves that generate no token -/

/-- The guard that lets no request in and no token be appended. -/
def Guard.silent : Guard W := Guard.submitting (fun _ => False) fun _ => False

theorem le_of_eq_singleton_add {α : Type} {M N : Multiset α} (a : α) (h : M = {a} + N) : N ≤ M :=
  h ▸ Multiset.le_add_left _ _

theorem account_of_preparePrefillRequestChunk {s s' : Scheduler W} {r r' : ScheduledRequest} {k : ℕ}
    {result : Except SchedulerError Unit}
    (h : s.preparePrefillRequestChunk r k = (s', r', result)) : r'.account = r.account := by
  obtain ⟨-, -, -, rfl⟩ | ⟨-, _, -, -, rfl⟩ | ⟨-, _, -, -, rfl, -⟩ :=
    preparePrefillRequestChunk_cases h
  all_goals
    simp [ScheduledRequest.account, ScheduledRequest.recordAllocation]

theorem account_of_prepareDecodeRequest {s s' : Scheduler W} {r r' : ScheduledRequest}
    {result : Except SchedulerError Unit}
    (h : s.prepareDecodeRequest r = (s', r', result)) : r'.account = r.account := by
  obtain ⟨_, -, rfl, -⟩ | ⟨_, -, -, rfl, -⟩ := prepareDecodeRequest_cases h
  all_goals rfl

/-- A move that appends no token keeps the accounts or drops one. -/
theorem Move.accounts_le {c c' : Config W} (h : Move Guard.silent c c') :
    c'.accounts ≤ c.accounts := by
  cases h with
  | worker => exact le_rfl
  | reorder s t d hw hd hp ht =>
    simp only [Config.accounts, accounts_perm hw, accounts_perm hd, accounts_perm ht, le_refl]
  | enqueue s t d n hg => exact hg.elim
  | takePrefill hq _ hp =>
    have hacc := account_of_preparePrefillRequestChunk hp
    obtain ⟨allocator, rfl⟩ := eq_with_allocator_of_preparePrefillRequestChunk hp
    simp only [Config.accounts, hq, accounts_cons, hacc]
    exact le_of_eq (by abel)
  | takeFailed hq hp =>
    have hacc := account_of_preparePrefillRequestChunk hp
    obtain ⟨allocator, rfl⟩ := eq_with_allocator_of_preparePrefillRequestChunk hp
    simp only [Config.accounts, hq, accounts_cons, hacc]
    exact le_of_eq (by abel)
  | deferFailed hq hp =>
    have hacc := account_of_preparePrefillRequestChunk hp
    obtain ⟨allocator, rfl⟩ := eq_with_allocator_of_preparePrefillRequestChunk hp
    simp only [Config.accounts, hq, accounts_cons, hacc, le_refl]
  | undoPrefill _ _ =>
    simp only [Config.accounts, Scheduler.undoPrefill, release, accounts_cons,
      ScheduledRequest.account_setStage, ScheduledRequest.account_clearForwardCacheAllocation]
    exact le_of_eq (by abel)
  | takeDecode hq hp =>
    have hacc := account_of_prepareDecodeRequest hp
    obtain ⟨allocator, rfl⟩ := eq_with_allocator_of_prepareDecodeRequest hp
    simp only [Config.accounts, hq, accounts_cons, ScheduledRequest.account_setStage, hacc]
    exact le_of_eq (by abel)
  | undoDecode _ =>
    simp only [Config.accounts, Scheduler.undoDecode, release, accounts_cons,
      ScheduledRequest.account_setStage, ScheduledRequest.account_clearForwardCacheAllocation]
    exact le_of_eq (by abel)
  | @lose s t d r _ _ =>
    refine le_of_eq_singleton_add r.account ?_
    simp only [Config.accounts, accounts_cons]
    abel
  | park _ =>
    simp only [Config.accounts, Scheduler.park, accounts_append, accounts_cons, accounts_nil]
    exact le_of_eq (by abel)
  | @fail s t d r _ =>
    refine le_of_eq_singleton_add r.account ?_
    simp only [Config.accounts, release, accounts_cons]
    abel
  | executeDecode _ =>
    simp only [Config.accounts, accounts_cons]
    exact le_of_eq (by abel)
  | skipChunk _ _ _ =>
    simp only [Config.accounts, accounts_cons, ScheduledRequest.account_advanceChunk]
    exact le_of_eq (by abel)
  | publishChunk _ _ _ =>
    simp only [Config.accounts, publishPrefillChunkCachePages_eq, accounts_cons,
      ScheduledRequest.account_advanceChunk]
    exact le_of_eq (by abel)
  | pendChunk _ _ _ =>
    simp only [Config.accounts, accounts_cons, ScheduledRequest.account_advanceChunk]
    exact le_of_eq (by abel)
  | stageError _ _ _ =>
    simp only [Config.accounts, Scheduler.park, accounts_append, accounts_cons, accounts_nil,
      ScheduledRequest.account_advanceChunk]
    exact le_of_eq (by abel)
  | requeueChunk _ _ =>
    simp only [Config.accounts, accounts_cons, ScheduledRequest.account_awaitChunk]
    exact le_of_eq (by abel)
  | requeueToken _ _ hg => exact hg.elim
  | finish _ _ hg => exact hg.elim
  | finishError _ _ ht _ => exact ht.elim
  | @abortWaiting s r queue hq =>
    refine le_of_eq_singleton_add r.account ?_
    simp only [Config.accounts, idle, releaseRequestCachePages_eq, release, hq, accounts_cons]
    abel
  | @abortDecode s r queue hq =>
    refine le_of_eq_singleton_add r.account ?_
    simp only [Config.accounts, idle, releaseRequestCachePages_eq, release, hq, accounts_cons]
    abel
  | @abortDecodePending s r queue e pending hq _ _ =>
    refine le_of_eq_singleton_add r.account ?_
    simp only [Config.accounts, idle, releaseRequestCachePages_eq, releaseUnpublishedCachePages,
      release, hq, accounts_cons]
    abel
  | publishPending _ _ =>
    simp only [Config.accounts, idle, publishPrefillChunkCachePages_eq, le_refl]
  | releasePending _ _ => exact le_rfl
  | @failTransfer s r queue e pending hq _ _ _ =>
    refine le_of_eq_singleton_add r.account ?_
    simp only [Config.accounts, idle, releaseUnpublishedCachePages, release, hq, accounts_cons]
    abel
  | losePending _ _ => exact le_rfl
  | flush hw hd =>
    rw [flushCache, if_neg (by simp [hw, hd])]
    exact le_rfl

/-! ### The ledger -/

/-- The outputs returned for a request, in the ledger. -/
abbrev TokenHistory : Type := History TokenKey ScheduledOutput

/-- The tokens of a history. -/
def historyTokens (h : TokenHistory) : List UInt32 := h.outputs.flatMap ScheduledOutput.tokenIds

/-- The history of a request that has not finished. -/
structure OpenHistory (h : TokenHistory) : Prop where
  own : ∀ o ∈ h.outputs, o.requestId = h.key.1
  unfinished : ∀ o ∈ h.outputs, o.finished = false
  below : (historyTokens h).length < max 1 h.key.2

/-- The history of a finished request: the last output is marked and no other is. -/
structure FinishedHistory (h : TokenHistory) : Prop where
  own : ∀ o ∈ h.outputs, o.requestId = h.key.1
  marked : ∃ init last, h.outputs = init ++ [last] ∧ last.finished = true ∧
    ∀ o ∈ init, o.finished = false
  within : (historyTokens h).length ≤ max 1 h.key.2

/-- The outputs returned are divided among the requests submitted: those the scheduler knows, those
that have finished and those that were dropped before. -/
structure Books (opened finished dropped : Multiset TokenHistory)
    (live : Multiset (TokenKey × List UInt32)) (submitted : Multiset TokenKey)
    (returned : List ScheduledOutput) : Prop where
  divides : Divides (opened + (finished + dropped)) submitted returned
  live_eq : opened.map (fun h => (h.key, historyTokens h)) = live
  open_opened : ∀ h ∈ opened, OpenHistory h
  finished_finished : ∀ h ∈ finished, FinishedHistory h
  open_dropped : ∀ h ∈ dropped, OpenHistory h

/-- There is a ledger in which `n` requests were dropped. -/
def Accounted (live : Multiset (TokenKey × List UInt32)) (submitted : Multiset TokenKey)
    (returned : List ScheduledOutput) (n : ℕ) : Prop :=
  ∃ opened finished dropped, Books opened finished dropped live submitted returned ∧
    Multiset.card dropped = n

namespace Accounted

variable {live live' : Multiset (TokenKey × List UInt32)} {submitted : Multiset TokenKey}
  {returned : List ScheduledOutput} {n : ℕ}

theorem empty : Accounted 0 0 [] 0 :=
  ⟨0, 0, 0, ⟨by simpa using Divides.empty, rfl, by simp, by simp, by simp⟩, rfl⟩

theorem submit (h : Accounted live submitted returned n) (key : TokenKey) :
    Accounted ({(key, [])} + live) (key ::ₘ submitted) returned n := by
  obtain ⟨opened, finished, dropped, hbooks, hcard⟩ := h
  refine ⟨⟨key, []⟩ ::ₘ opened, finished, dropped, ⟨?_, ?_, ?_, hbooks.finished_finished,
    hbooks.open_dropped⟩, hcard⟩
  · rw [Multiset.cons_add]
    exact hbooks.divides.submit key
  · rw [Multiset.map_cons, hbooks.live_eq]
    rfl
  · exact Multiset.forall_mem_cons.mpr ⟨⟨by simp, by simp, by simp [historyTokens]⟩,
      hbooks.open_opened⟩

/-- A request the scheduler knows has an open history. -/
theorem exists_history {opened : Multiset TokenHistory} {account : TokenKey × List UInt32}
    (h : opened.map (fun h => (h.key, historyTokens h)) = {account} + live) :
    ∃ outputs opened', opened = ⟨account.1, outputs⟩ ::ₘ opened' ∧
      outputs.flatMap ScheduledOutput.tokenIds = account.2 ∧
      opened'.map (fun h => (h.key, historyTokens h)) = live := by
  obtain ⟨⟨key, outputs⟩, opened', rfl, rfl, hrest⟩ := exists_cons_of_map_eq h
  exact ⟨outputs, opened', rfl, rfl, hrest⟩

theorem dropOne {account : TokenKey × List UInt32}
    (h : Accounted ({account} + live) submitted returned n) :
    Accounted live submitted returned (n + 1) := by
  obtain ⟨opened, finished, dropped, hbooks, hcard⟩ := h
  obtain ⟨outputs, opened', rfl, -, hrest⟩ := exists_history hbooks.live_eq
  obtain ⟨hfirst, hopened⟩ := Multiset.forall_mem_cons.mp hbooks.open_opened
  refine ⟨opened', finished, ⟨account.1, outputs⟩ ::ₘ dropped, ⟨?_, hrest, hopened,
    hbooks.finished_finished, Multiset.forall_mem_cons.mpr ⟨hfirst, hbooks.open_dropped⟩⟩,
    by simp [hcard]⟩
  have hdivides := hbooks.divides
  rwa [Multiset.cons_add, ← Multiset.add_cons, ← Multiset.add_cons] at hdivides

theorem drop (h : Accounted live submitted returned n) (hle : live' ≤ live) :
    Accounted live' submitted returned (n + (Multiset.card live - Multiset.card live')) := by
  obtain ⟨extra, rfl⟩ := Multiset.le_iff_exists_add.mp hle
  rw [Multiset.card_add, Nat.add_sub_cancel_left]
  induction extra using Multiset.induction generalizing n with
  | empty => simpa using h
  | cons account extra ih =>
    have hone : Accounted (live' + extra) submitted returned (n + 1) := by
      have hcons : Accounted ({account} + (live' + extra)) submitted returned n := by
        rwa [Multiset.singleton_add, ← Multiset.add_cons]
      exact dropOne hcons
    have hrest := ih hone (Multiset.le_add_right _ _)
    rwa [Multiset.card_cons, add_comm (Multiset.card extra), ← add_assoc]

/-- A token of a request that goes on. -/
theorem token {account : TokenKey × List UInt32}
    (h : Accounted ({account} + live) submitted returned n) {o : ScheduledOutput}
    (hid : o.requestId = account.1.1) (hfinished : o.finished = false)
    (hlimit : (account.2 ++ o.tokenIds).length < account.1.2) :
    Accounted ({(account.1, account.2 ++ o.tokenIds)} + live) submitted (returned ++ [o]) n := by
  obtain ⟨opened, finished, dropped, hbooks, hcard⟩ := h
  obtain ⟨outputs, opened', rfl, htokens, hrest⟩ := exists_history hbooks.live_eq
  obtain ⟨hfirst, hopened⟩ := Multiset.forall_mem_cons.mp hbooks.open_opened
  have htokens' : historyTokens ⟨account.1, outputs ++ [o]⟩ = account.2 ++ o.tokenIds := by
    rw [← htokens]
    simp [historyTokens]
  refine ⟨⟨account.1, outputs ++ [o]⟩ ::ₘ opened', finished, dropped, ⟨?_, ?_, ?_,
    hbooks.finished_finished, hbooks.open_dropped⟩, hcard⟩
  · have hdivides := hbooks.divides
    rw [Multiset.cons_add] at hdivides ⊢
    exact hdivides.output o
  · rw [Multiset.map_cons, hrest, htokens']
    rfl
  · refine Multiset.forall_mem_cons.mpr ⟨⟨?_, ?_, ?_⟩, hopened⟩
    · exact List.forall_mem_append.mpr ⟨hfirst.own, List.forall_mem_singleton.mpr hid⟩
    · exact List.forall_mem_append.mpr ⟨hfirst.unfinished, List.forall_mem_singleton.mpr hfinished⟩
    · rw [htokens']
      exact lt_max_of_lt_right hlimit

/-- The token of a request that finishes. -/
theorem finish {account : TokenKey × List UInt32}
    (h : Accounted ({account} + live) submitted returned n) {o : ScheduledOutput}
    (hid : o.requestId = account.1.1) (hfinished : o.finished = true)
    (hone : o.tokenIds.length = 1) : Accounted live submitted (returned ++ [o]) n := by
  obtain ⟨opened, finished, dropped, hbooks, hcard⟩ := h
  obtain ⟨outputs, opened', rfl, htokens, hrest⟩ := exists_history hbooks.live_eq
  obtain ⟨hfirst, hopened⟩ := Multiset.forall_mem_cons.mp hbooks.open_opened
  refine ⟨opened', ⟨account.1, outputs ++ [o]⟩ ::ₘ finished, dropped, ⟨?_, hrest, hopened,
    Multiset.forall_mem_cons.mpr ⟨⟨?_, ?_, ?_⟩, hbooks.finished_finished⟩, hbooks.open_dropped⟩,
    hcard⟩
  · have hdivides := hbooks.divides
    rw [Multiset.cons_add] at hdivides
    rw [Multiset.cons_add, Multiset.add_cons]
    exact hdivides.output o
  · exact List.forall_mem_append.mpr ⟨hfirst.own, List.forall_mem_singleton.mpr hid⟩
  · exact ⟨outputs, o, rfl, hfinished, hfirst.unfinished⟩
  · have hbelow := hfirst.below
    simp only [historyTokens, List.flatMap_append, List.length_append, List.flatMap_cons,
      List.flatMap_nil, List.append_nil, hone] at hbelow ⊢
    omega

/-- The token recorded for a request whose prompt is processed. -/
theorem record {r : ScheduledRequest} {generated : GeneratedToken}
    (h : Accounted ({r.account} + live) submitted returned n)
    (hone : generated.tokenIds.length = 1) :
    Accounted (accounts ((r.recordOutcome generated).waiting ++
        (r.recordOutcome generated).decoding) + live) submitted
      (returned ++ (r.recordOutcome generated).outputs) n := by
  unfold ScheduledRequest.recordOutcome
  split_ifs with hfin
  · simp only [Outcome.waiting, Outcome.decoding, Outcome.outputs, List.append_nil, accounts_nil,
      zero_add]
    exact h.finish rfl rfl hone
  · simp only [Outcome.waiting, Outcome.decoding, Outcome.outputs, List.nil_append, accounts_cons,
      accounts_nil, add_zero, ScheduledRequest.account_awaitDecode]
    refine h.token (o := scheduledOutput r generated false) rfl rfl ?_
    rw [Bool.or_eq_true, not_or] at hfin
    exact Nat.lt_of_not_le fun hle => hfin.2 (decide_eq_true hle)

/-- The outcome of a request of an executed batch. -/
theorem outcome {r : ScheduledRequest} {generated : GeneratedToken}
    (h : Accounted ({r.account} + live) submitted returned n)
    (hone : generated.tokenIds.length = 1) :
    Accounted (accounts ((r.outcome generated).waiting ++ (r.outcome generated).decoding) + live)
      submitted (returned ++ (r.outcome generated).outputs) n := by
  unfold ScheduledRequest.outcome
  split_ifs with hstage hdone
  · exact record (r := r.advanceChunk) h hone
  · simpa [Outcome.waiting, Outcome.decoding, Outcome.outputs] using h
  · exact h.record hone

/-- The outcomes of the requests of a batch. -/
theorem outcomes (items : List (ScheduledRequest × GeneratedToken))
    (h : Accounted (accounts (items.map Prod.fst) + live) submitted returned n)
    (hone : ∀ item ∈ items, item.2.tokenIds.length = 1) :
    let outcomes := items.map fun item => item.1.outcome item.2
    Accounted (accounts (outcomes.flatMap Outcome.waiting) +
        accounts (outcomes.flatMap Outcome.decoding) + live) submitted
      (returned ++ outcomes.flatMap Outcome.outputs) n := by
  induction items generalizing live returned with
  | nil => simpa using h
  | cons item items ih =>
    obtain ⟨hfirst, hrest⟩ := List.forall_mem_cons.mp hone
    rw [List.map_cons, accounts_cons, add_assoc] at h
    have hone' := h.outcome hfirst
    rw [add_left_comm] at hone'
    have hih := ih hone' hrest
    simp only [List.map_cons, List.flatMap_cons, accounts_append, List.append_assoc] at hih ⊢
    convert hih using 1
    abel

end Accounted

variable [WorkerExecutor W]

/-! ### What is appended and what is returned -/

namespace Scheduler

/-- The tokens appended for one request while a batch is retired, with the request's id. -/
def appendedTokens (forwardMode : ForwardMode) (c : Completion W)
    (item : ScheduledRequest × GeneratedToken) : List (RequestId × List UInt32) :=
  if isPrefillForward forwardMode item.1 then
    match c.scheduler.stagePrefillChunkCachePages item.1.advanceChunk
        item.1.advanceChunk.promptTokensProcessed with
    | (_, .error _) => []
    | (_, .ok ()) =>
        if item.1.advanceChunk.isPrefillComplete then [(item.1.requestId, item.2.tokenIds)] else []
  else [(item.1.requestId, item.2.tokenIds)]

/-- The tokens appended while a batch is executed and retired. -/
def appendedByBatch (s : Scheduler W) (batch : ScheduleBatch) : List (RequestId × List UInt32) :=
  match WorkerExecutor.executeBatch s.worker batch with
  | (_, .error _) => []
  | (worker, .ok generated) =>
      if batch.requests.length ≠ generated.tokens.length then []
      else emitted (completeRequest batch.forwardMode) (appendedTokens batch.forwardMode)
        ⟨{ s with worker }, [], none⟩ (batch.requests.zip generated.tokens)

/-- The tokens an operation appends to the outputs of requests, in the order of generation. -/
def appended (s : Scheduler W) : Operation W → List (RequestId × List UInt32)
  | .dispatch former =>
      match former.form s with
      | (_, .error _) => []
      | (s, .ok batch) => s.appendedByBatch batch
  | _ => []

/-- The worker generates one token for every request it executes. -/
def OneToken (s : Scheduler W) : Operation W → Prop
  | .dispatch former =>
      match former.form s with
      | (_, .error _) => True
      | (s, .ok batch) =>
          match WorkerExecutor.executeBatch s.worker batch with
          | (_, .error _) => True
          | (_, .ok generated) => ∀ g ∈ generated.tokens, g.tokenIds.length = 1
  | _ => True

end Scheduler

/-- The guard that lets no executed request meet an error. -/
def Guard.undisturbed : Guard W where
  stageError := fun _ _ => False
  finishError := fun _ _ => False

/-- Either none of the requests of an executed batch gets a token or none meets an error while the
batch is retired. -/
def Scheduler.Lossless (s : Scheduler W) : Operation W → Prop
  | .dispatch former =>
      match former.form s with
      | (_, .error _) => True
      | (s, .ok batch) => Guard.silent.AdmitsBatch s batch ∨ Guard.undisturbed.AdmitsBatch s batch
  | _ => True

/-- An output without the marks. -/
def ScheduledOutput.token (o : ScheduledOutput) : RequestId × List UInt32 :=
  (o.requestId, o.tokenIds)

/-- A request that meets no error returns what is appended to it. -/
theorem appendedTokens_eq {forwardMode : ForwardMode} {c : Completion W}
    {item : ScheduledRequest × GeneratedToken}
    (hstage : (item.1.stage = .prefillForward ∧ forwardMode ≠ .decode) ∨
      (item.1.stage = .decodeForward ∧ forwardMode ≠ .prefill))
    (h : (completeRequest forwardMode c item).completionError = none) :
    appendedTokens forwardMode c item =
      (item.1.outcome item.2).outputs.map ScheduledOutput.token := by
  obtain ⟨r, generated⟩ := item
  have hiff := isPrefillForward_iff hstage
  have hrecord (x : ScheduledRequest) (hx : x.requestId = r.requestId) :
      (x.recordOutcome generated).outputs.map ScheduledOutput.token =
        [(r.requestId, generated.tokenIds)] := by
    unfold ScheduledRequest.recordOutcome
    split_ifs <;> simp [Outcome.outputs, ScheduledOutput.token, scheduledOutput, hx]
  unfold appendedTokens ScheduledRequest.outcome
  by_cases hr : r.stage = .prefillForward
  · rw [completeRequest_of_prefill c generated (hiff.mpr hr)] at h
    rw [if_pos (hiff.mpr hr), if_pos hr]
    dsimp only
    rcases hres : c.scheduler.stagePrefillChunkCachePages r.advanceChunk
        r.advanceChunk.promptTokensProcessed with ⟨s, error | ⟨⟩⟩
    · rw [hres] at h
      cases h
    · dsimp only
      split_ifs with hdone
      · exact (hrecord r.advanceChunk rfl).symm
      · rfl
  · rw [if_neg (mt hiff.mp hr), if_neg hr]
    exact (hrecord r rfl).symm

theorem emitted_appendedTokens {forwardMode : ForwardMode}
    (items : List (ScheduledRequest × GeneratedToken)) (c : Completion W)
    (hstage : ∀ item ∈ items, (item.1.stage = .prefillForward ∧ forwardMode ≠ .decode) ∨
      (item.1.stage = .decodeForward ∧ forwardMode ≠ .prefill))
    (h : (items.foldl (completeRequest forwardMode) c).completionError = none) :
    emitted (completeRequest forwardMode) (appendedTokens forwardMode) c items =
      ((items.map fun item => item.1.outcome item.2).flatMap Outcome.outputs).map
        ScheduledOutput.token := by
  induction items generalizing c with
  | nil => rfl
  | cons item items ih =>
    have hrest : ∀ x ∈ items, _ := fun x hx => hstage x (List.mem_cons_of_mem _ hx)
    have hnone := (foldl_completeRequest_after items _ hrest h).1
    rw [emitted, ih _ hrest h, appendedTokens_eq (hstage item List.mem_cons_self) hnone]
    simp

/-- If no request gets a token, none is appended. -/
theorem emitted_appendedTokens_of_silent {forwardMode : ForwardMode}
    (items : List (ScheduledRequest × GeneratedToken)) (c : Completion W)
    (h : Along (completeRequest forwardMode) (Guard.silent.AdmitsCompletion forwardMode) c items) :
    emitted (completeRequest forwardMode) (appendedTokens forwardMode) c items = [] := by
  induction items generalizing c with
  | nil => rfl
  | cons item items ih =>
    rw [emitted, ih _ h.2, List.append_nil]
    have hfirst := h.1
    unfold Guard.AdmitsCompletion at hfirst
    unfold appendedTokens
    by_cases hprefill : isPrefillForward forwardMode item.1 = true
    · rw [if_pos hprefill] at hfirst ⊢
      rcases hres : c.scheduler.stagePrefillChunkCachePages item.1.advanceChunk
          item.1.advanceChunk.promptTokensProcessed with ⟨s, error | ⟨⟩⟩
      · rfl
      · rw [hres] at hfirst
        exact if_neg fun hdone => (hfirst.2 hdone).1
    · rw [if_neg hprefill] at hfirst
      exact hfirst.1.elim

/-- The transfer of a chunk can be read, so the chunk is offered to the prefix cache. -/
theorem stagePrefillChunkCachePages_undisturbed {s : Scheduler W} {r : ScheduledRequest}
    (h : Guard.undisturbed.AdmitsStage s r) (k : ℕ) :
    (s.stagePrefillChunkCachePages r k).2 = .ok () := by
  unfold Guard.AdmitsStage at h
  unfold stagePrefillChunkCachePages
  split_ifs at h ⊢ with hskip hdis
  · rfl
  · rcases hans : WorkerExecutor.decodeRequestState s.worker r with
      ⟨worker, error | (_ | _ | message)⟩
    · rw [hans] at h
      exact h.elim
    · rfl
    · rfl
    · rw [hans] at h
      exact h.elim
  · rfl

/-- A request that meets no error leaves none behind. -/
theorem completionError_completeRequest {forwardMode : ForwardMode} {c : Completion W}
    {item : ScheduledRequest × GeneratedToken}
    (h : Guard.undisturbed.AdmitsCompletion forwardMode c item) (hc : c.completionError = none) :
    (completeRequest forwardMode c item).completionError = none := by
  obtain ⟨r, generated⟩ := item
  have hrecord {c : Completion W} {x : ScheduledRequest} (hc : c.completionError = none)
      (h : Guard.undisturbed.AdmitsRecord c.scheduler x generated) :
      (recordGeneratedToken c x generated).completionError = none := by
    unfold recordGeneratedToken
    dsimp only
    split_ifs with hfin
    · unfold Guard.AdmitsRecord at h
      have hclean := h.2 hfin
      rcases hans : WorkerExecutor.finishRequest c.scheduler.worker (x.finish generated.tokenIds)
        with ⟨worker, error | ⟨⟩⟩
      · rw [hans] at hclean
        exact hclean.elim
      · rw [ScheduledRequest.finish] at hans
        rw [hans]
        exact hc
    · exact hc
  unfold Guard.AdmitsCompletion at h
  by_cases hprefill : isPrefillForward forwardMode r = true
  · rw [if_pos hprefill] at h
    rw [completeRequest_of_prefill c generated hprefill]
    have hstage := stagePrefillChunkCachePages_undisturbed h.1
      r.advanceChunk.promptTokensProcessed
    rcases hres : c.scheduler.stagePrefillChunkCachePages r.advanceChunk
        r.advanceChunk.promptTokensProcessed with ⟨s, error | ⟨⟩⟩
    · rw [hres] at hstage
      cases hstage
    · rw [hres] at h
      dsimp only
      split_ifs with hdone
      · exact hrecord hc (h.2 hdone)
      · exact hc
  · rw [if_neg hprefill] at h
    rw [completeRequest_of_decode c generated hprefill]
    exact hrecord hc h

/-- A batch that meets no error is retired without one. -/
theorem completionError_of_undisturbed {forwardMode : ForwardMode} {s : Scheduler W}
    {items : List (ScheduledRequest × GeneratedToken)}
    (h : Along (completeRequest forwardMode) (Guard.undisturbed.AdmitsCompletion forwardMode)
      ⟨s, [], none⟩ items) :
    (items.foldl (completeRequest forwardMode) ⟨s, [], none⟩).completionError = none :=
  foldl_invariant (I := fun c => c.completionError = none)
    (fun _ _ hitem hc => completionError_completeRequest hitem hc) h rfl

/-- What a dispatch returns, nothing on an error. -/
def returnedOutputs : Except SchedulerError (List ScheduledOutput) → List ScheduledOutput
  | .ok outputs => outputs
  | .error _ => []

theorem returned_dispatchBatch {s : Scheduler W} {batch : ScheduleBatch} (hstaged : batch.Staged)
    (h : Guard.silent.AdmitsBatch s batch ∨ Guard.undisturbed.AdmitsBatch s batch) :
    (returnedOutputs (s.dispatchBatch batch).2).map ScheduledOutput.token =
      s.appendedByBatch batch := by
  unfold Guard.AdmitsBatch at h
  unfold dispatchBatch appendedByBatch
  rcases hexec : WorkerExecutor.executeBatch s.worker batch with ⟨worker, error | generated⟩
  · dsimp only
    split <;> rfl
  · rw [hexec] at h
    dsimp only at h ⊢
    unfold completeBatch
    by_cases hlen : batch.requests.length ≠ generated.tokens.length
    · rw [if_pos hlen, if_pos hlen]
      rfl
    · rw [if_neg hlen, if_neg hlen] at h
      rw [if_neg hlen, if_neg hlen]
      dsimp only
      cases herr : ((batch.requests.zip generated.tokens).foldl
          (completeRequest batch.forwardMode) ⟨{ s with worker }, [], none⟩).completionError with
      | none =>
        have hmem : ∀ item ∈ batch.requests.zip generated.tokens, _ :=
          fun item hitem => hstaged item.1 (List.of_mem_zip hitem).1
        obtain ⟨-, hout, -⟩ := foldl_completeRequest_after _ _ hmem herr
        rw [emitted_appendedTokens _ _ hmem herr, returnedOutputs, hout, List.nil_append]
      | some error =>
        rcases h with h | h
        · rw [emitted_appendedTokens_of_silent _ _ h]
          rfl
        · rw [completionError_of_undisturbed h] at herr
          cases herr

/-- **A lossless operation returns what it appends.** -/
theorem outputs_eq_appended {s : Scheduler W} (hs : s.WaitingStaged) {op : Operation W}
    (h : s.Lossless op) : (s.outputs op).map ScheduledOutput.token = s.appended op := by
  cases op with
  | dispatch former =>
    change match former.form s with
      | (_, .error _) => True
      | (s, .ok batch) => Guard.silent.AdmitsBatch s batch ∨ Guard.undisturbed.AdmitsBatch s batch
      at h
    change (returnedOutputs (dispatchFormed (former.form s)).2).map ScheduledOutput.token =
      match former.form s with
      | (_, .error _) => []
      | (s, .ok batch) => s.appendedByBatch batch
    rcases hform : former.form s with ⟨s₁, error | batch⟩
    · rfl
    · rw [hform] at h
      exact returned_dispatchBatch (staged_form s former hs hform) h
  | _ => rfl

/-! ### Runs -/

/-- The key of the request an operation submits. -/
def Operation.submitted : Operation W → List TokenKey
  | .enqueue n => [(n.requestId, n.sampling.maxNewTokens)]
  | _ => []

/-- The number of requests in the queues. -/
def Scheduler.queued (s : Scheduler W) : ℕ := s.waitingQueue.length + s.decodeQueue.length

/-- The number of requests an operation drops: those it removes from the queues, unless it is a
dispatch that returns outputs. -/
def Scheduler.dropped (s : Scheduler W) : Operation W → ℕ
  | .enqueue _ => 0
  | .dispatch former =>
      match (s.dispatch former).2 with
      | .ok _ => 0
      | .error _ => s.queued - (s.dispatch former).1.queued
  | op => s.queued - (s.step op).queued

omit [WorkerExecutor W] in
theorem card_accounts_idle (s : Scheduler W) : Multiset.card s.idle.accounts = s.queued := by
  simp [Config.accounts, accounts, idle, queued]

omit [WorkerExecutor W] in
theorem accounts_of_forall₂ {R : ScheduledRequest → ScheduledRequest → Prop}
    (hR : ∀ r r', R r r' → r'.account = r.account) {l l' : List ScheduledRequest}
    (h : List.Forall₂ R l l') : accounts l' = accounts l := by
  induction h with
  | nil => rfl
  | cons hr _ ih => rw [accounts_cons, accounts_cons, hR _ _ hr, ih]

omit [WorkerExecutor W] in
theorem Scheduler.Prepared.account_eq {s : Scheduler W} {r r' : ScheduledRequest}
    (h : s.Prepared r r') : r'.account = r.account := by
  cases h with
  | replay _ => simp [ScheduledRequest.account]
  | chunk _ slots _ => simp [ScheduledRequest.account, ScheduledRequest.recordAllocation]

omit [WorkerExecutor W] in
/-- Forming a batch keeps the accounts. -/
theorem Scheduler.Selects.accounts_eq {s s' : Scheduler W}
    {decoded prompted requests : List ScheduledRequest}
    (h : s.Selects s' decoded prompted requests) :
    s.idle.accounts = accounts requests + s'.idle.accounts := by
  obtain ⟨hdecode, ⟨kept, hwaiting, hkept⟩, ⟨decodes, prefills, rfl, hdecodes, hprefills⟩, -⟩ := h
  have hkept' : accounts s'.waitingQueue = accounts kept := by
    refine accounts_of_forall₂ (fun r r' hr => ?_) hkept
    cases hr with
    | same => rfl
    | withPrefix => simp [ScheduledRequest.account]
    | rolledBack hr => exact hr.account_eq
  have hdecodes' : accounts decodes = accounts decoded :=
    accounts_of_forall₂ (fun r r' ⟨slots, hr⟩ => hr ▸ rfl) hdecodes
  have hprefills' : accounts prefills = accounts prompted :=
    accounts_of_forall₂ (fun r r' hr => hr.account_eq) hprefills
  simp only [Config.accounts, idle, hdecode, hwaiting, accounts_append, accounts_nil, hkept',
    hdecodes', hprefills']
  abel

/-- A dispatch that returns outputs keeps the ledger. -/
theorem Accounted.dispatch_ok {s s' : Scheduler W} (hs : s.WaitingStaged) {former : Former}
    {outputs : List ScheduledOutput} (hok : s.dispatch former = (s', .ok outputs))
    (hone : s.OneToken (.dispatch former)) {submitted : Multiset TokenKey}
    {returned : List ScheduledOutput} {n : ℕ} (h : Accounted s.idle.accounts submitted returned n) :
    Accounted s'.idle.accounts submitted (returned ++ outputs) n := by
  obtain ⟨s₁, batch, worker, generated, hform, hexec, hcomplete⟩ := dispatch_eq_ok hok
  obtain ⟨decoded, prompted, hsel⟩ := Former.selects hform
  obtain ⟨hlen, rfl, hdecode, hwaiting⟩ :=
    completeBatch_eq_ok (staged_form s former hs hform) hcomplete
  simp only [OneToken, hform, hexec] at hone
  rw [hsel.accounts_eq, ← List.map_fst_zip hlen.le] at h
  have hdone := h.outcomes _ fun item hitem => hone item.2 (List.of_mem_zip hitem).2
  convert hdone using 1
  simp only [Config.accounts, idle, hdecode, hwaiting, accounts_append, accounts_nil,
    accounts_perm (List.reverse_perm _)]
  abel

/-- Any other operation that submits nothing and appends nothing drops requests at most. -/
theorem accounts_step_le {s : Scheduler W} (hs : s.WaitingStaged) {op : Operation W}
    (h : Guard.silent.Admits s op) : (s.step op).idle.accounts ≤ s.idle.accounts :=
  (moves_step s op hs h).invariant (J := fun c => c.accounts ≤ s.idle.accounts)
    (fun _ _ hmove hle => hmove.accounts_le.trans hle) le_rfl

/-- A lossless dispatch that returns an error appends no token. -/
theorem silent_of_dispatch_error {s : Scheduler W} {former : Former} {error : SchedulerError}
    (h : s.Lossless (.dispatch former)) (herr : (s.dispatch former).2 = .error error) :
    Guard.silent.Admits s (.dispatch former) := by
  refine ⟨Guard.admitsForm_submitting s former, ?_⟩
  unfold Scheduler.dispatch dispatchFormed at herr
  simp only [Lossless] at h
  rcases hform : former.form s with ⟨s₁, error' | batch⟩
  · trivial
  · rw [hform] at h herr
    rcases h with h | h
    · exact h
    · dsimp only at herr ⊢
      unfold Guard.AdmitsBatch at h ⊢
      unfold dispatchBatch at herr
      rcases hexec : WorkerExecutor.executeBatch s₁.worker batch with ⟨worker, error' | generated⟩
      · refine along_of_forall (fun state r => ?_) _ _
        unfold Guard.AdmitsFailure
        split <;> trivial
      · rw [hexec] at h herr
        dsimp only at h herr ⊢
        split_ifs at h ⊢ with hlen
        · exact along_of_forall (fun _ _ => trivial) _ _
        · unfold completeBatch at herr
          rw [if_neg hlen] at herr
          dsimp only at herr
          rw [completionError_of_undisturbed h] at herr
          cases herr

/-- **A lossless operation keeps the ledger.** -/
theorem Accounted.step {s : Scheduler W} (hs : s.WaitingStaged) {op : Operation W}
    (hone : s.OneToken op) (hloss : s.Lossless op) {submitted : Multiset TokenKey}
    {returned : List ScheduledOutput} {n : ℕ} (h : Accounted s.idle.accounts submitted returned n) :
    Accounted (s.step op).idle.accounts (submitted + op.submitted) (returned ++ s.outputs op)
      (n + s.dropped op) := by
  have hdrop (hsilent : Guard.silent.Admits s op) :
      Accounted (s.step op).idle.accounts submitted returned
        (n + (s.queued - (s.step op).queued)) := by
    have hle := h.drop (accounts_step_le hs hsilent)
    rwa [card_accounts_idle, card_accounts_idle] at hle
  have hother (hsubmit : ∀ m, op ≠ .enqueue m) (hdispatch : ∀ f, op ≠ .dispatch f) :=
    hdrop (Guard.admits_submitting_of_ne_dispatch s op (fun m hm => hsubmit m hm) hdispatch)
  cases op with
  | enqueue m =>
    have hsub := h.submit (m.requestId, m.sampling.maxNewTokens)
    convert hsub using 1
    · simp only [Scheduler.step, Scheduler.enqueue, Config.accounts, idle, accounts_append,
        accounts_cons, accounts_nil]
      change _ + ({((m.requestId, m.sampling.maxNewTokens), [])} + 0) + _ + 0 + 0 = _
      abel
    · rw [add_comm]
      rfl
    · exact List.append_nil _
    · rfl
  | dispatch former =>
    simp only [Scheduler.step, Scheduler.outputs, Scheduler.dropped, Operation.submitted,
      Multiset.coe_nil, add_zero] at hdrop ⊢
    rcases hres : s.dispatch former with ⟨s', error | outputs⟩
    · rw [hres] at hdrop
      have hsilent := silent_of_dispatch_error hloss (congrArg Prod.snd hres)
      simpa using hdrop hsilent
    · exact h.dispatch_ok hs hres hone
  | _ => simpa [Scheduler.outputs, Operation.submitted, Scheduler.dropped] using
      hother (by simp) (by simp)

/-- A lossless run keeps the ledger and returns what it appends. -/
theorem Accounted.run {s : Scheduler W} (hs : s.WaitingStaged) {ops : List (Operation W)}
    (hone : Along Scheduler.step OneToken s ops) (hloss : Along Scheduler.step Lossless s ops)
    {submitted : Multiset TokenKey} {returned : List ScheduledOutput} {n : ℕ}
    (h : Accounted s.idle.accounts submitted returned n) :
    Accounted (ops.foldl Scheduler.step s).idle.accounts
        (submitted + (ops.flatMap Operation.submitted : List TokenKey))
        (returned ++ emitted Scheduler.step Scheduler.outputs s ops)
        (n + (emitted Scheduler.step (fun s op => [s.dropped op]) s ops).sum) ∧
      (emitted Scheduler.step Scheduler.outputs s ops).map ScheduledOutput.token =
        emitted Scheduler.step appended s ops := by
  induction ops generalizing s submitted returned n with
  | nil => simpa [emitted] using h
  | cons op ops ih =>
    obtain ⟨hacc, hemit⟩ := ih (waitingStaged_step hs op) hone.2 hloss.2 (h.step hs hone.1 hloss.1)
    refine ⟨?_, ?_⟩
    · simpa [emitted, add_assoc] using hacc
    · rw [emitted, emitted, List.map_append, outputs_eq_appended hs hloss.1, hemit]

/-- **Every generated token is returned once.** In a run in which the worker generates one token for
every request it executes and no completion that appends a token meets an error, the outputs
returned carry the tokens appended to the requests' outputs, in the order of generation. They divide
into one history for each submitted request, which carries the request's id: the history of a
request that the scheduler knows has the tokens of its outputs, fewer than `max 1 max_new_tokens`,
and no mark; the history of a finished request has at most `max 1 max_new_tokens` tokens and the
mark on its last output only; the others belong to requests that were dropped without an output. -/
theorem tokens_returned_once {s : Scheduler W} (hs : s.New) {ops : List (Operation W)}
    (hone : Along Scheduler.step OneToken s ops) (hloss : Along Scheduler.step Lossless s ops) :
    let s' := ops.foldl Scheduler.step s
    let returned := emitted Scheduler.step Scheduler.outputs s ops
    returned.map ScheduledOutput.token = emitted Scheduler.step appended s ops ∧
    ∃ opened finished dropped : Multiset TokenHistory,
      Divides (opened + (finished + dropped)) (ops.flatMap Operation.submitted : List TokenKey)
        returned ∧
      opened.map (fun h => (h.key, historyTokens h)) =
        accounts (s'.waitingQueue ++ s'.decodeQueue) ∧
      (∀ h ∈ opened, OpenHistory h) ∧ (∀ h ∈ finished, FinishedHistory h) ∧
      (∀ h ∈ dropped, OpenHistory h) ∧
      Multiset.card dropped = (emitted Scheduler.step (fun s op => [s.dropped op]) s ops).sum := by
  have hstaged : s.WaitingStaged := by simp [WaitingStaged, hs.waiting_eq]
  have hinit : Accounted s.idle.accounts 0 [] 0 := by
    simpa [Config.accounts, idle, hs.waiting_eq, hs.decode_eq] using Accounted.empty
  obtain ⟨⟨opened, finished, dropped, hbooks, hcard⟩, hemit⟩ := hinit.run hstaged hone hloss
  rw [zero_add, List.nil_append] at hbooks
  refine ⟨hemit, opened, finished, dropped, hbooks.divides, hbooks.live_eq.trans ?_,
    hbooks.open_opened, hbooks.finished_finished, hbooks.open_dropped, hcard.trans (zero_add _)⟩
  simp [Config.accounts, idle]

/-- The worker fails to clean up after `a` twice: two tokens are appended to its outputs although it
may have one, and none is returned. -/
theorem tokens_lost_after_failed_cleanup :
    let ops := [.submit "a" [1] 1, .dispatch (.prefill 1 8), .dispatch (.decode 1)]
    let s := Scheduler.scripted { cleanups := [.error (.runtime "busy"), .error (.runtime "busy")] }
      1 8
    Along Scheduler.step OneToken s ops ∧
      emitted Scheduler.step appended s ops = [(⟨"a"⟩, [7]), (⟨"a"⟩, [7])] ∧
      emitted Scheduler.step Scheduler.outputs s ops = [] ∧
      (ops.foldl Scheduler.step s).decodeQueue.map ScheduledRequest.account =
        [((⟨"a"⟩, 1), [7, 7])] := by
  refine ⟨⟨trivial, ?_, ?_, trivial⟩, rfl, rfl, rfl⟩
  all_goals exact List.forall_mem_singleton.mpr rfl

/-- The theorem applied to a request that finishes with its second token. -/
theorem tokens_returned_once_of_two_tokens :
    let ops := [.submit "a" [1] 2, .dispatch (.prefill 1 8), .dispatch (.decode 1)]
    let s := Scheduler.scripted {} 1 8
    (emitted Scheduler.step Scheduler.outputs s ops).map ScheduledOutput.token =
        [(⟨"a"⟩, [7]), (⟨"a"⟩, [7])] ∧
      ∃ finished : Multiset TokenHistory, finished ≠ 0 ∧ ∀ h ∈ finished, FinishedHistory h := by
  have hnew : (Scheduler.scripted {} 1 8).New := by
    refine ⟨rfl, rfl, rfl, fun a ha => ⟨8, 1, ?_⟩⟩
    rw [← Option.some.inj ha]
    rfl
  have hone : Along Scheduler.step OneToken (Scheduler.scripted {} 1 8)
      [.submit "a" [1] 2, .dispatch (.prefill 1 8), .dispatch (.decode 1)] := by
    refine ⟨trivial, ?_, ?_, trivial⟩
    all_goals exact List.forall_mem_singleton.mpr rfl
  have hloss : Along Scheduler.step Lossless (Scheduler.scripted {} 1 8)
      [.submit "a" [1] 2, .dispatch (.prefill 1 8), .dispatch (.decode 1)] := by
    refine ⟨trivial, .inr ⟨⟨trivial, fun _ => ⟨trivial, fun h => absurd h (by decide)⟩⟩, trivial⟩,
      .inr ⟨⟨trivial, fun _ => trivial⟩, trivial⟩, trivial⟩
  obtain ⟨hreturned, opened, finished, dropped, hdivides, hlive, -, hfinished, -, hdropped⟩ :=
    tokens_returned_once hnew hone hloss
  refine ⟨hreturned.trans rfl, finished, ?_, hfinished⟩
  rintro rfl
  have hopen : opened = 0 := Multiset.map_eq_zero.mp hlive
  have hdrop : dropped = 0 := Multiset.card_eq_zero.mp hdropped
  have hcard := congrArg Multiset.card hdivides.submitted_eq
  simp [hopen, hdrop, Operation.submit, Operation.submitted] at hcard

end SglangRs
