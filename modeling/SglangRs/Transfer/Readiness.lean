import Mathlib.Data.List.TakeWhile
import SglangRs.Transfer.Registry
import SglangRs.Transition.Run

/-!
# Readiness of rooms

A room is reported ready when the last write of its status is a success. Every span of a room writes
the same status, when it is submitted and when it ends, so a completed span announces the room while
another span of the room is under way or has failed. The report is right exactly if the span that
announces the room is the last one of it that had not arrived.

## Main definitions

* `Arrived`: every span submitted for a room has a completion event, and none failed.
* `TransferLog`, `TransferLog.step`: the calls on a registry, with the writes they make.
* `LastOutstanding`, `Orderly`: the announcement of a room finds nothing else of it outstanding.

## Main results

* `success_arrived_iff`: in every state of a run the rooms reported ready have arrived iff in every
  state the announcements are orderly.
* `exists_success_while_transferring`: two spans of one room, the first of which completes.
-/

namespace SglangRs

open DecodeBootstrapRegistry

namespace Notice

variable [Sha256] (room : BootstrapRoom) (checksum : String)

/-- A span of the room with the given checksum is handed to the backend. -/
def attempts : Notice → Bool
  | attempted span _ => span.bootstrapRoom = room ∧ span.descriptorChecksum = checksum
  | _ => false

omit [Sha256] in
/-- A span of the room with the given checksum has arrived. -/
def completes : Notice → Bool
  | applied event => event.bootstrapRoom = room ∧ event.descriptorChecksum = checksum ∧
      event.status = .completed
  | _ => false

omit [Sha256] in
/-- A span of the room has failed. -/
def fails : Notice → Bool
  | attempted span accepted => span.bootstrapRoom = room ∧ accepted = false
  | skipped _ => false
  | applied event => event.bootstrapRoom = room ∧ event.status ≠ .completed

end Notice

/-- Every span submitted for the room has a completion event, and none failed. -/
def Arrived [Sha256] (room : BootstrapRoom) (notices : List Notice) : Prop :=
  (∀ checksum, notices.countP (Notice.attempts room checksum) ≤
      notices.countP (Notice.completes room checksum)) ∧
    ∀ notice ∈ notices, ¬ notice.fails room

/-- When the room of a notice is announced by it, every other span submitted for the room has a
completion event, and none failed. -/
def LastOutstanding [Sha256] (before : List Notice) (notice : Notice) : Prop :=
  (∀ checksum, before.countP (Notice.attempts notice.room checksum) ≤
      before.countP (Notice.completes notice.room checksum) +
        if notice.completes notice.room checksum then 1 else 0) ∧
    ∀ earlier ∈ before, ¬ earlier.fails notice.room

/-- Every announcement that is the last notice of its room is for the last span of the room that had
not arrived. -/
def Orderly [Sha256] (notices : List Notice) : Prop :=
  ∀ before notice after, notices = before ++ notice :: after → notice.status = .success →
    (∀ later ∈ after, later.room ≠ notice.room) → LastOutstanding before notice

section Notices

variable [Sha256] {room : BootstrapRoom} {checksum : String} {notice : Notice}

theorem Notice.not_attempts (h : notice.room ≠ room) : ¬ notice.attempts room checksum := by
  cases notice <;> simp_all [Notice.attempts, Notice.room]

omit [Sha256] in
theorem Notice.not_completes (h : notice.room ≠ room) : ¬ notice.completes room checksum := by
  cases notice <;> simp_all [Notice.completes, Notice.room]

omit [Sha256] in
theorem Notice.not_fails (h : notice.room ≠ room) : ¬ notice.fails room := by
  cases notice <;> simp_all [Notice.fails, Notice.room]

theorem Notice.not_attempts_of_success (h : notice.status = .success) :
    ¬ notice.attempts room checksum := by
  cases notice with
  | attempted span accepted => cases accepted <;> simp [Notice.status] at h
  | skipped span => simp [Notice.attempts]
  | applied event => simp [Notice.attempts]

omit [Sha256] in
theorem Notice.not_fails_of_success (h : notice.status = .success) : ¬ notice.fails room := by
  cases notice with
  | attempted span accepted => cases accepted <;> simp [Notice.status] at h
  | skipped span => simp [Notice.fails]
  | applied event =>
    have hcompleted : event.status = .completed := by
      by_contra hne
      simp [Notice.status, hne] at h
    simp [Notice.fails, hcompleted]

/-- A room has arrived when it is announced iff the announcement is for its last span. -/
theorem arrived_iff_lastOutstanding {before after : List Notice}
    (hnotice : notice.status = .success)
    (hafter : ∀ later ∈ after, later.room ≠ notice.room) :
    Arrived notice.room (before ++ notice :: after) ↔ LastOutstanding before notice := by
  have hattempts : ∀ checksum,
      after.countP (Notice.attempts notice.room checksum) = 0 := fun checksum =>
    List.countP_eq_zero.mpr fun later hlater => Notice.not_attempts (hafter later hlater)
  have hcompletes : ∀ checksum,
      after.countP (Notice.completes notice.room checksum) = 0 := fun checksum =>
    List.countP_eq_zero.mpr fun later hlater => Notice.not_completes (hafter later hlater)
  have hnot : ∀ checksum, ¬ notice.attempts notice.room checksum :=
    fun checksum => Notice.not_attempts_of_success hnotice
  rw [Arrived, LastOutstanding]
  refine and_congr (forall_congr' fun checksum => ?_) ?_
  · simp only [List.countP_append, List.countP_cons, hattempts, hcompletes, hnot, if_false,
      Nat.zero_add, Nat.add_zero, Bool.false_eq_true]
  · simp only [List.mem_append, List.mem_cons]
    constructor
    · exact fun h earlier hearlier => h earlier (.inl hearlier)
    · rintro h n (hbefore | rfl | hafter')
      · exact h n hbefore
      · exact Notice.not_fails_of_success hnotice
      · exact Notice.not_fails (hafter n hafter')

end Notices

/-! ### Runs -/

/-- The calls on a registry. -/
inductive RegistryCall where
  | register (requests : List ScheduledRequest)
  | execute (plan : List KvCacheTransferSpan)
  | apply (poll : KvTransferPoll)

/-- A registry and a backend, with the writes made so far. -/
structure TransferLog (E : Type) where
  registry : DecodeBootstrapRegistry := {}
  executor : E
  notices : List Notice := []

namespace TransferLog

variable {E : Type} [KvTransferBackend E]

/-- One call. -/
def step (s : TransferLog E) : RegistryCall → TransferLog E
  | .register requests =>
      { s with registry := (registerPrefillBootstrapSessions requests s.registry).1 }
  | .execute plan =>
      let result := executeKvCacheTransferPlan s.registry s.executor plan
      { registry := result.1
        executor := result.2.1
        notices := s.notices ++ planNotices s.registry.known plan s.executor }
  | .apply poll =>
      { s with
        registry := (applyTransferCompletionEvents s.registry poll).1
        notices := s.notices ++ eventNotices s.registry.known poll.events }

/-- The status of every room is the one last written, and rooms are written only when registered. -/
structure Tracks (registry : DecodeBootstrapRegistry) (notices : List Notice) : Prop where
  known : ∀ notice ∈ notices, registry.known notice.room
  written : ∀ before notice after, notices = before ++ notice :: after →
    (∀ later ∈ after, later.room ≠ notice.room) →
      registry.status? notice.room = some notice.status
  fresh : ∀ room, (∀ notice ∈ notices, notice.room ≠ room) → registry.status? room ≠ some .success

variable {registry : DecodeBootstrapRegistry} {notices : List Notice}

theorem tracks_new : Tracks {} [] where
  known := by simp
  written := by simp
  fresh := fun room _ => by simp [status?, DecodeBootstrapRegistry.get]

theorem Tracks.note (h : Tracks registry notices) {notice : Notice}
    (hknown : registry.known notice.room) :
    Tracks (registry.note notice) (notices ++ [notice]) where
  known := by
    intro n hn
    rw [known_note]
    rcases List.mem_append.mp hn with hold | hnew
    · exact h.known n hold
    · obtain rfl := List.mem_singleton.mp hnew
      exact hknown
  written := by
    intro before n after heq hafter
    obtain ⟨session, hsession⟩ := Option.isSome_iff_exists.mp hknown
    have hself : (registry.note notice).status? notice.room = some notice.status := by
      rw [status?_note_self, status?, hsession]
      rfl
    rcases List.eq_nil_or_concat after with rfl | ⟨after', last, rfl⟩
    · obtain ⟨rfl, hlast⟩ := List.append_inj' heq rfl
      obtain rfl := List.singleton_inj.mp hlast
      exact hself
    · rw [List.concat_eq_append, ← List.cons_append, ← List.append_assoc] at heq
      obtain ⟨rfl, hlast⟩ := List.append_inj' heq rfl
      obtain rfl := List.singleton_inj.mp hlast
      rw [status?_note_of_ne (hafter notice (by simp)).symm]
      exact h.written before n after' rfl fun later hlater => hafter later (by simp [hlater])
  fresh := by
    intro room hroom
    rw [status?_note_of_ne (hroom notice (by simp)).symm]
    exact h.fresh room fun n hn => hroom n (by simp [hn])

theorem Tracks.foldl_note (h : Tracks registry notices) {more : List Notice}
    (hknown : ∀ notice ∈ more, registry.known notice.room) :
    Tracks (more.foldl DecodeBootstrapRegistry.note registry) (notices ++ more) := by
  induction more generalizing registry notices with
  | nil => simpa using h
  | cons notice more ih =>
    obtain ⟨hfirst, hrest⟩ := List.forall_mem_cons.mp hknown
    rw [← List.singleton_append, ← List.append_assoc]
    refine ih (h.note hfirst) fun n hn => ?_
    rw [known_note]
    exact hrest n hn

theorem known_of_mem_planNotices {known : BootstrapRoom → Bool} {spans : List KvCacheTransferSpan}
    {executor : E} : ∀ notice ∈ planNotices known spans executor, known notice.room := by
  induction spans generalizing executor with
  | nil => simp [planNotices]
  | cons span spans ih =>
    rw [planNotices]
    split
    · next hknown =>
      split
      · exact List.forall_mem_cons.mpr ⟨hknown, ih⟩
      · split
        · exact List.forall_mem_cons.mpr ⟨hknown, by simp⟩
        · exact List.forall_mem_cons.mpr ⟨hknown, ih⟩
    · simp

theorem known_of_mem_eventNotices {known : BootstrapRoom → Bool}
    {events : List KvTransferCompletionEvent} :
    ∀ notice ∈ eventNotices known events, known notice.room := by
  intro notice hnotice
  obtain ⟨event, hevent, rfl⟩ := List.mem_map.mp hnotice
  exact List.mem_takeWhile_imp (p := fun event : KvTransferCompletionEvent =>
    known event.bootstrapRoom) hevent

/-- A room that is registered anew is not ready. -/
theorem Tracks.register (h : Tracks registry notices) (requests : List ScheduledRequest) :
    Tracks (registerPrefillBootstrapSessions requests registry).1 notices := by
  induction requests generalizing registry with
  | nil => exact h
  | cons request requests ih =>
    rw [registerPrefillBootstrapSessions]
    split
    · exact ih h
    · next params _ =>
      split
      · exact ih h
      · next hnone =>
        split
        · exact h
        · next registry' hregister =>
          refine ih ?_
          have hget : registry.sessionsByRoom params.bootstrapRoom = none := by
            simpa [DecodeBootstrapRegistry.get] using hnone
          rw [DecodeBootstrapRegistry.register] at hregister
          simp only [DecodeBootstrapSession.new, hget, Option.isSome_none, Bool.false_eq_true,
            if_false, Except.ok.injEq] at hregister
          subst hregister
          have hne : ∀ notice ∈ notices, notice.room ≠ params.bootstrapRoom := by
            intro notice hnotice heq
            have hknown := h.known notice hnotice
            simp [DecodeBootstrapRegistry.known, heq,
              DecodeBootstrapRegistry.get, hget] at hknown
          constructor
          · intro notice hnotice
            have hknown := h.known notice hnotice
            simpa [DecodeBootstrapRegistry.known, DecodeBootstrapRegistry.get,
              Function.update_of_ne (hne notice hnotice)] using hknown
          · intro before notice after heq hafter
            have hwritten := h.written before notice after heq hafter
            have hmem : notice ∈ notices := by simp [heq]
            simpa [status?, DecodeBootstrapRegistry.get,
              Function.update_of_ne (hne notice hmem)] using hwritten
          · intro room hroom
            by_cases hroom' : room = params.bootstrapRoom
            · subst hroom'
              simp [status?, DecodeBootstrapRegistry.get]
            · have hfresh := h.fresh room hroom
              simpa [status?, DecodeBootstrapRegistry.get,
              Function.update_of_ne hroom'] using hfresh

theorem Tracks.step {s : TransferLog E} (h : Tracks s.registry s.notices) (call : RegistryCall) :
    Tracks (s.step call).registry (s.step call).notices := by
  cases call with
  | register requests => exact h.register requests
  | execute plan =>
    show Tracks (executeKvCacheTransferPlan s.registry s.executor plan).1 _
    rw [executeKvCacheTransferPlan_registry]
    exact h.foldl_note known_of_mem_planNotices
  | apply poll =>
    show Tracks (applyTransferCompletionEvents s.registry poll).1 _
    rw [applyTransferCompletionEvents_registry]
    exact h.foldl_note known_of_mem_eventNotices

theorem tracks_run (executor : E) (calls : List RegistryCall) :
    Tracks (calls.foldl step { executor }).registry (calls.foldl step { executor }).notices :=
  Transition.foldl_invariant (P := fun _ _ => True)
    (I := fun s : TransferLog E => Tracks s.registry s.notices)
    (fun _ call _ h => h.step call) (Transition.along_of_forall (fun _ _ => trivial) _ calls)
    tracks_new

/-- The last notice of a room. -/
theorem exists_last_notice {room : BootstrapRoom} {notices : List Notice}
    (h : ∃ notice ∈ notices, notice.room = room) : ∃ before notice after,
      notices = before ++ notice :: after ∧ notice.room = room ∧
        ∀ later ∈ after, later.room ≠ room := by
  induction notices with
  | nil => simp at h
  | cons first rest ih =>
    by_cases hrest : ∃ notice ∈ rest, notice.room = room
    · obtain ⟨before, notice, after, rfl, hroom, hafter⟩ := ih hrest
      exact ⟨first :: before, notice, after, rfl, hroom, hafter⟩
    · obtain ⟨notice, hmem, hroom⟩ := h
      have hnone : ∀ later ∈ rest, later.room ≠ room := fun later hlater heq =>
        hrest ⟨later, hlater, heq⟩
      rcases List.mem_cons.mp hmem with rfl | hmem'
      · exact ⟨[], notice, rest, rfl, hroom, hnone⟩
      · exact absurd hroom (hnone notice hmem')

/-- The rooms reported ready have arrived iff the announcements are orderly. -/
theorem Tracks.arrived_iff_orderly [Sha256] (h : Tracks registry notices) :
    (∀ room, registry.status? room = some .success → Arrived room notices) ↔ Orderly notices := by
  constructor
  · intro harrived before notice after heq hsuccess hafter
    have hstatus := h.written before notice after heq hafter
    rw [hsuccess] at hstatus
    have hroom := harrived notice.room hstatus
    rw [heq] at hroom
    exact (arrived_iff_lastOutstanding hsuccess hafter).mp hroom
  · intro horderly room hsuccess
    have hexists : ∃ notice ∈ notices, notice.room = room := by
      by_contra hnone
      exact h.fresh room (fun notice hmem heq => hnone ⟨notice, hmem, heq⟩) hsuccess
    obtain ⟨before, notice, after, heq, rfl, hafter⟩ := exists_last_notice hexists
    have hstatus := h.written before notice after heq hafter
    rw [hsuccess, Option.some.injEq] at hstatus
    rw [heq]
    exact (arrived_iff_lastOutstanding hstatus.symm hafter).mpr
      (horderly before notice after heq hstatus.symm hafter)

/-- A request with a room is ready only if its room is. -/
theorem status?_of_ready {W : Type} [WorkerExecutor W] {worker : W} {request : ScheduledRequest}
    {params : DisaggregatedParams} (hparams : request.disaggregatedParams = some params)
    (hready : (registry.decodeRequestState worker request).2 = .ok .ready) :
    registry.status? params.bootstrapRoom = some .success := by
  rw [DecodeBootstrapRegistry.decodeRequestState, hparams] at hready
  simp only at hready
  split at hready
  · simp at hready
  · next session hsession =>
    split at hready
    · next hstatus => simp [status?, hsession, hstatus]
    all_goals simp at hready

/-- The rooms reported ready have arrived, and so have the rooms of the requests ready to decode. -/
def Punctual (W : Type) [WorkerExecutor W] [Sha256] (s : TransferLog E) : Prop :=
  (∀ room, s.registry.status? room = some .success → Arrived room s.notices) ∧
    ∀ (worker : W) (request : ScheduledRequest) (params : DisaggregatedParams),
      request.disaggregatedParams = some params →
      (s.registry.decodeRequestState worker request).2 = .ok .ready →
        Arrived params.bootstrapRoom s.notices

end TransferLog

/-- **Readiness.** Along every sequence of registrations, plans and polls, with any answers of the
backend, the rooms reported ready have arrived in every state iff in every state each announcement
that is the last notice of its room was for the last outstanding span of the room. -/
theorem success_arrived_iff {E W : Type} [KvTransferBackend E] [WorkerExecutor W] [Sha256]
    (executor : E) (calls : List RegistryCall) :
    (∀ made, made <+: calls → (made.foldl TransferLog.step { executor }).Punctual W) ↔
      ∀ made, made <+: calls → Orderly (made.foldl TransferLog.step { executor }).notices := by
  refine forall_congr' fun made => imp_congr_right fun _ => ?_
  have htracks := TransferLog.tracks_run executor made
  rw [← htracks.arrived_iff_orderly]
  constructor
  · exact fun h => h.1
  · intro h
    exact ⟨h, fun worker request params hparams hready =>
      h _ (TransferLog.status?_of_ready hparams hready)⟩

/-! ### Two spans of one room -/

/-- A backend that accepts every span. -/
structure AcceptingBackend where

instance : KvTransferBackend AcceptingBackend where
  submit backend _ := (backend, .ok ())

/-- A worker whose requests are ready once their KV cache is there. -/
structure ReadyWorker where

instance : WorkerExecutor ReadyWorker where
  executeBatch worker _ := (worker, .ok ⟨[]⟩)
  decodeRequestState worker _ := (worker, .ok .ready)
  pollTransfers worker := (worker, .ok {})
  completeRequest worker _ := worker
  finishRequest worker _ := (worker, .ok ())
  failRequest worker _ := worker
  shutdown worker := (worker, .ok ())

namespace TwoChunks

def params : DisaggregatedParams := ⟨"127.0.0.1", 8998, 7⟩

def request : ScheduledRequest := .new ⟨"r"⟩ [1, 2, 3, 4] ⟨1⟩ (some params)

/-- The two tokens of the prompt from the given position on. -/
def chunk (tokenOffset : ℕ) : KvCacheTransferSpan where
  requestId := ⟨"r"⟩
  disaggregatedParams := params
  dataParallelRank := 0
  tokenOffset := tokenOffset
  tokenCount := 2
  cachePages := [tokenOffset, tokenOffset + 1]
  pageSize := 1
  pageIndices := [tokenOffset, tokenOffset + 1]
  firstToken := some 1
  pageSize_pos := Nat.one_pos

/-- The prompt is sent in two chunks, and the first one arrives. -/
def calls [Sha256] : List RegistryCall :=
  [.register [request], .execute [chunk 0], .execute [chunk 2],
    .apply ⟨[⟨7, (chunk 0).descriptorChecksum, .completed⟩], 1⟩]

end TwoChunks

open TwoChunks in
/-- The room of a prompt sent in two chunks is reported ready when the first chunk has arrived. -/
theorem exists_success_while_transferring :
    ¬ ∃ _ : Sha256, ∀ made, made <+: calls →
      (made.foldl TransferLog.step { executor := AcceptingBackend.mk }).Punctual ReadyWorker := by
  rintro ⟨_, h⟩
  have hstatus : (calls.foldl TransferLog.step { executor := AcceptingBackend.mk }).registry.status? 7
      = some .success := rfl
  have hnotices : (calls.foldl TransferLog.step { executor := AcceptingBackend.mk }).notices =
      [.attempted (chunk 0) true, .attempted (chunk 2) true,
        .applied ⟨7, (chunk 0).descriptorChecksum, .completed⟩] := rfl
  have harrived := ((h calls List.prefix_rfl).1 7 hstatus).1 (chunk 2).descriptorChecksum
  rw [hnotices] at harrived
  have hroom : ∀ offset, (chunk offset).bootstrapRoom = 7 := fun _ => rfl
  by_cases hsame : (chunk 0).descriptorChecksum = (chunk 2).descriptorChecksum
  · simp [Notice.attempts, Notice.completes, hroom, hsame] at harrived
  · simp [Notice.attempts, Notice.completes, hroom, hsame] at harrived

end SglangRs
