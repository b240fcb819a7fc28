import SglangRs.Router.Forwarding

/-!
# What forwards report to the breaker

A request that a breaker admits should report its outcome once, and success only after the worker
has answered (`Resolved`). A half-open breaker then does not keep its probe slot. The forwards of
`proxy/mod.rs` do so but for four cases: the caller drops the forward at an await; the path does not
join the URL of an HTTP worker; the router itself refuses the body of a gRPC request, and reports
the status of its refusal as one of the worker; and the gRPC library makes a status of its own that
is no server error.

A future under its deadline is accountable if its outcome, reported by `settle`, resolves the
breaker. Whether it is follows along its parts: a check, connecting, a call, the first message of a
stream.

## Main definitions

* `Router.Resolved`, `Router.Resolves`: what a forward owes the breaker.
* `Router.Accountable`: what a future must come to.
* `Router.HttpConcludes`, `Router.GrpcConcludes`: the exchanges that go through.

## Main results

* `Resolved.frees_probe`: a forward that resolves a half-open breaker gives its probe slot back.
* `forwards_resolve_iff`: when the forwards resolve the breaker.
* `exists_unresolved_forwards`: they do not always.
-/

namespace SglangRs.Router

open Transition

/-! ### What a forward owes the breaker -/

def ForwardEvent.isRecord : ForwardEvent → Bool
  | recordSuccess | recordFailure => true
  | allow _ | answered => false

/-- The breaker after a trace of reports, from any state that other requests have left it in. -/
def reported (b : CircuitBreaker) (now : ℕ) (trace : List ForwardEvent) : CircuitBreaker :=
  trace.foldl (fun b event =>
    match event with
    | .recordSuccess => b.recordSuccess
    | .recordFailure => b.recordFailure now
    | .allow _ | .answered => b) b

/-- The breaker is resolved once, and the worker has answered before success is reported. A breaker
that has seen `threshold` failures, as a half-open one has, is left without a probe in flight. -/
structure Resolved (trace : List ForwardEvent) : Prop where
  once : trace.countP ForwardEvent.isRecord = 1
  gives_back : ∀ (b : CircuitBreaker) (now : ℕ), b.config.threshold ≤ b.consecutiveFailures + 1 →
    (reported b now trace).state ≠ .halfOpen true
  answered : ∀ before after, trace = before ++ .recordSuccess :: after → .answered ∈ before

/-- A forward that was admitted resolves the breaker. -/
def Resolves {Url α : Type} (x : Forward Url α) : Prop :=
  .allow true ∈ x.run.trace → Resolved x.run.trace

/-- In a run of the breaker in which the count of failures does not overflow, a forward that
resolves a half-open breaker leaves no probe in flight. -/
theorem Resolved.frees_probe {trace : List ForwardEvent} (h : Resolved trace)
    {config : CircuitBreakerConfig} {steps : List BreakerStep} {s : BreakerSystem}
    (hs : (BreakerSystem.new config).run steps = s)
    (hcount : Transition.Along BreakerSystem.step
      (fun s _ => s.breaker.consecutiveFailures + 1 ≠ 0) (.new config) steps)
    (hlast : s.breaker.consecutiveFailures + 1 ≠ 0) (hhalf : s.breaker.state = .halfOpen true) :
    (reported s.breaker s.now trace).state ≠ .halfOpen true := by
  have htripped : s.breaker.Tripped := hs ▸ BreakerSystem.tripped_run hcount
  exact h.gives_back s.breaker s.now (htripped.le_add_one (by simp [hhalf]) hlast)

section Traces

variable {es : List ForwardEvent}

/-- Nothing is reported yet. -/
def Quiet (es : List ForwardEvent) : Prop := ∀ e ∈ es, e.isRecord = false

theorem quiet_nil : Quiet [] := fun e he => by cases he

theorem Quiet.countP (h : Quiet es) : es.countP ForwardEvent.isRecord = 0 := by
  rw [List.countP_eq_zero]
  intro e he
  simp [h e he]

theorem Quiet.reported (h : Quiet es) (b : CircuitBreaker) (now : ℕ) : reported b now es = b := by
  induction es with
  | nil => rfl
  | cons e es ih =>
      have htail := ih fun e' he' => h e' (List.mem_cons_of_mem _ he')
      cases e with
      | allow admitted => exact htail
      | answered => exact htail
      | recordSuccess => cases h _ List.mem_cons_self
      | recordFailure => cases h _ List.mem_cons_self

theorem reported_append (b : CircuitBreaker) (now : ℕ) (es es' : List ForwardEvent) :
    reported b now (es ++ es') = reported (reported b now es) now es' :=
  List.foldl_append

theorem Quiet.not_resolved (h : Quiet es) : ¬ Resolved es := fun hres => by
  have honce := hres.once
  rw [h.countP] at honce
  cases honce

/-- A failure leaves no probe in flight. -/
theorem recordFailure_ne_halfOpen {b : CircuitBreaker} (now : ℕ)
    (hthreshold : b.config.threshold ≤ b.consecutiveFailures + 1) :
    (b.recordFailure now).state ≠ .halfOpen true := by
  cases h : b.state <;> simp [CircuitBreaker.recordFailure, h, hthreshold]

theorem Quiet.resolved_failure (h : Quiet es) : Resolved (es ++ [.recordFailure]) where
  once := by
    rw [List.countP_append, h.countP]
    rfl
  gives_back b now hthreshold := by
    rw [reported_append, h.reported]
    exact recordFailure_ne_halfOpen now hthreshold
  answered before after heq := by
    have hmem : ForwardEvent.recordSuccess ∈ es ++ [.recordFailure] := by
      rw [heq]
      exact List.mem_append_right _ List.mem_cons_self
    obtain hmem | hmem := List.mem_append.1 hmem
    · cases h _ hmem
    · cases List.mem_singleton.1 hmem

theorem Quiet.resolved_success_iff (h : Quiet es) :
    Resolved (es ++ [.recordSuccess]) ↔ .answered ∈ es := by
  refine ⟨fun hres => hres.answered es [] rfl, fun hanswered => ⟨?_, fun b now _ => ?_, ?_⟩⟩
  · rw [List.countP_append, h.countP]
    rfl
  · rw [reported_append, h.reported]
    exact fun hhalf => by cases hhalf
  · intro before after heq
    -- The report of the forward is the only one, so it is the last entry.
    obtain ⟨more, rfl, -⟩ | ⟨more, rfl, hmore⟩ := List.append_eq_append_iff.1 heq
    · exact List.mem_append_left _ hanswered
    · cases more with
      | nil => rwa [List.append_nil] at hanswered
      | cons e more =>
          obtain ⟨rfl, -⟩ := List.cons.inj hmore
          cases h _ (List.mem_append_right _ List.mem_cons_self)

/-- The answer of the breaker is no report. -/
theorem resolved_allow_cons_iff (admits : Bool) : Resolved (.allow admits :: es) ↔ Resolved es := by
  refine ⟨fun h => ⟨?_, h.gives_back, fun before after heq => ?_⟩,
    fun h => ⟨?_, h.gives_back, fun before after heq => ?_⟩⟩
  · have honce := h.once
    rwa [List.countP_cons_of_neg (by simp [ForwardEvent.isRecord])] at honce
  · have hmem := h.answered (.allow admits :: before) after (by rw [heq, List.cons_append])
    exact (List.mem_cons.1 hmem).resolve_left (by simp)
  · rw [List.countP_cons_of_neg (by simp [ForwardEvent.isRecord])]
    exact h.once
  · cases before with
    | nil => cases (List.cons.inj heq).1
    | cons e before =>
        exact List.mem_cons_of_mem _ (h.answered before after (List.cons.inj heq).2)

end Traces

/-! ### Futures -/

/-- A future whose outcome may be reported: it is not dropped, and the worker has answered if it
ends well, or in a status that is no server error. -/
def Accountable {α : Type} (fut : GrpcFuture α) : Prop :=
  match fut.run.ending with
  | .ready (.ok _) => fut.run.trace ≠ []
  | .ready (.error (.status status)) =>
      (grpcStatusToHttpStatus status.code).isServerError = true ∨ fut.run.trace ≠ []
  | .ready (.error (.transport _)) => True
  | .elapsed => True
  | .dropped => False

section Futures

variable {Url α β : Type} {lib : ForwardLibraries Url}

/-- The entries of a future are answers. -/
theorem quiet_contacts (contacts : List Contact) : Quiet (contacts.map Contact.event) := by
  intro e he
  obtain ⟨contact, -, rfl⟩ := List.mem_map.1 he
  cases contact
  rfl

theorem answered_mem_contacts {contacts : List Contact} :
    ForwardEvent.answered ∈ contacts.map Contact.event ↔ contacts ≠ [] := by
  cases contacts with
  | nil => simp
  | cons contact contacts =>
      cases contact
      simp [Contact.event]

theorem run_recordStatus (status : StatusCode) : (recordStatus status : Forward Url Unit).run =
    ⟨(recordStatus status : Forward Url Unit).run.trace, .ready (.ok ())⟩ := by
  rw [recordStatus]
  split_ifs <;> rfl

/-- The report of a status. -/
theorem resolved_recordStatus_iff (contacts : List Contact) (status : StatusCode) :
    Resolved (contacts.map Contact.event ++ (recordStatus status : Forward Url Unit).run.trace) ↔
      status.isServerError = true ∨ contacts ≠ [] := by
  rw [recordStatus]
  split_ifs with hserver
  · exact iff_of_true (quiet_contacts contacts).resolved_failure (.inl hserver)
  · refine (quiet_contacts contacts).resolved_success_iff.trans ?_
    rw [answered_mem_contacts]
    simp [hserver]

theorem resolved_settle_iff (worker : Url) (onStatus : Status → Except (ApiError Url) β)
    (onReply : α → β) (fut : GrpcFuture α) :
    Resolved (settle worker onStatus onReply fut).run.trace ↔ Accountable fut := by
  rw [settle, Accountable]
  cases hending : fut.run.ending with
  | ready result =>
      rw [Async.lift_bind_of_ready (a := some result) (by simp only [Async.timeout, hending])]
      cases result with
      | ok reply => exact (quiet_contacts _).resolved_success_iff.trans answered_mem_contacts
      | error error =>
          cases error with
          | status status =>
              have hlift : (liftM (onStatus status) : Forward Url β).run.trace = [] := by
                cases onStatus status <;> rfl
              show Resolved
                (_ ++ (recordStatus _ >>= fun _ => liftM (onStatus status)).run.trace) ↔ _
              rw [Async.run_bind_of_ok (run_recordStatus _), hlift, List.append_nil]
              exact resolved_recordStatus_iff _ _
          | transport source => exact iff_of_true (quiet_contacts _).resolved_failure trivial
  | elapsed =>
      rw [Async.lift_bind_of_ready (a := none) (by simp only [Async.timeout, hending])]
      exact iff_of_true (quiet_contacts _).resolved_failure trivial
  | dropped =>
      rw [Async.lift_bind_of_dropped (by simp only [Async.timeout, hending])]
      exact iff_of_false (quiet_contacts _).not_resolved id

/-! #### Parts of a future -/

section Parts

variable {x : GrpcFuture α} {f : α → GrpcFuture β} {check : Check} {endpoint : String}
  {grpc : GrpcExchange}

theorem accountable_bind_of_ok {a : α} (hx : x.run = ⟨[], .ready (.ok a)⟩) :
    Accountable (x >>= f) ↔ Accountable (f a) := by
  rw [Accountable, Async.run_bind_of_ok hx]
  exact Iff.rfl

/-- Once the worker has answered, it only matters that the future is not dropped. -/
theorem accountable_bind_of_answered {a : α} {contact : Contact}
    (hx : x.run = ⟨[contact], .ready (.ok a)⟩) :
    Accountable (x >>= f) ↔ (f a).run.ending ≠ .dropped := by
  rw [Accountable, Async.run_bind_of_ok hx]
  cases (f a).run.ending with
  | ready result =>
      refine iff_of_true ?_ (by simp)
      obtain (status | source) | reply := result
      · exact .inr (List.cons_ne_nil _ _)
      · exact trivial
      · exact List.cons_ne_nil _ _
  | elapsed => exact iff_of_true trivial (by simp)
  | dropped => exact iff_of_false id fun h => h rfl

theorem accountable_bind_of_error {contacts : List Contact} {error : GrpcForwardError}
    (hx : x.run = ⟨contacts, .ready (.error error)⟩) :
    Accountable (x >>= f) ↔ Accountable x := by
  rw [Accountable, Accountable, Async.run_bind_of_error hx, hx]
  cases error <;> exact Iff.rfl

theorem accountable_bind_of_elapsed {contacts : List Contact} (hx : x.run = ⟨contacts, .elapsed⟩) :
    Accountable (x >>= f) := by
  rw [Accountable, Async.run_bind_of_elapsed hx]
  exact trivial

theorem not_accountable_bind_of_dropped {contacts : List Contact}
    (hx : x.run = ⟨contacts, .dropped⟩) : ¬ Accountable (x >>= f) := by
  rw [Accountable, Async.run_bind_of_dropped hx]
  exact id

/-- A body that the router refuses is no answer of the worker. -/
theorem accountable_checked_bind {f : Unit → GrpcFuture β} :
    Accountable (checked check >>= f) ↔ check = .ok () ∧ Accountable (f ()) := by
  cases check with
  | error message =>
      refine (accountable_bind_of_error rfl).trans
        (iff_of_false (fun h => ?_) fun h => by cases h.1)
      obtain h | h := h
      · cases h
      · exact h rfl
  | ok checked => exact (accountable_bind_of_ok rfl).trans ⟨fun h => ⟨rfl, h⟩, And.right⟩

theorem accountable_connect_bind {f : Unit → GrpcFuture β} :
    Accountable (connect lib endpoint grpc >>= f) ↔ (lib.endpoint endpoint = .ok () →
      grpc.connect ≠ .dropped ∧ (grpc.connect = .ready (.ok ()) → Accountable (f ()))) := by
  rw [connect]
  cases lib.endpoint endpoint with
  | error e => exact iff_of_true ((accountable_bind_of_error rfl).2 trivial) fun h => by cases h
  | ok valid =>
      rw [forall_prop_of_true (rfl : Except.ok valid = .ok ())]
      cases grpc.connect with
      | ready connected =>
          cases connected with
          | error e =>
              exact iff_of_true ((accountable_bind_of_error rfl).2 trivial) ⟨by simp, by simp⟩
          | ok connected =>
              exact (accountable_bind_of_ok rfl).trans
                ⟨fun h => ⟨by simp, fun _ => h⟩, fun h => h.2 rfl⟩
      | elapsed => exact iff_of_true (accountable_bind_of_elapsed rfl) ⟨by simp, by simp⟩
      | dropped => exact iff_of_false (not_accountable_bind_of_dropped rfl) fun h => h.1 rfl

/-- What a call must come to. -/
def GrpcExchange.CallConcludes (grpc : GrpcExchange) : Prop :=
  match grpc.call with
  | .ready .reply | .ready (.status _ true) | .elapsed => True
  | .ready (.status status false) => (grpcStatusToHttpStatus status.code).isServerError = true
  | .dropped => False

theorem accountable_call (reply : GrpcReplies → α) :
    Accountable (call grpc reply) ↔ grpc.CallConcludes := by
  rw [call, GrpcExchange.CallConcludes]
  cases grpc.call with
  | ready answer =>
      cases answer with
      | reply => exact iff_of_true (List.cons_ne_nil _ _) trivial
      | status status fromWorker =>
          cases fromWorker with
          | true => exact iff_of_true (.inr (List.cons_ne_nil _ _)) trivial
          | false => exact ⟨fun h => h.resolve_right fun h => h rfl, .inl⟩
  | elapsed => exact Iff.rfl
  | dropped => exact Iff.rfl

theorem accountable_call_bind {reply : GrpcReplies → α} :
    Accountable (call grpc reply >>= f) ↔ grpc.CallConcludes ∧
      (grpc.call = .ready .reply → (f (reply grpc.replies)).run.ending ≠ .dropped) := by
  rw [← accountable_call reply, call]
  cases grpc.call with
  | ready answer =>
      cases answer with
      | reply =>
          refine (accountable_bind_of_answered rfl).trans
            ⟨fun h => ⟨List.cons_ne_nil _ _, fun _ => h⟩, fun h => h.2 rfl⟩
      | status status fromWorker =>
          have hother : Awaited.ready (RpcAnswer.status status fromWorker) = .ready .reply →
              (f (reply grpc.replies)).run.ending ≠ .dropped := fun h => by cases h
          cases fromWorker with
          | true => exact (accountable_bind_of_error rfl).trans ⟨fun h => ⟨h, hother⟩, And.left⟩
          | false => exact (accountable_bind_of_error rfl).trans ⟨fun h => ⟨h, hother⟩, And.left⟩
  | elapsed =>
      exact iff_of_true (accountable_bind_of_elapsed rfl) ⟨trivial, fun h => by cases h⟩
  | dropped => exact iff_of_false (not_accountable_bind_of_dropped rfl) And.left

theorem firstMessage_ending_iff {reply : GrpcReplies → α} {missing : String} :
    (firstMessage grpc reply missing).run.ending ≠ .dropped ↔ grpc.message ≠ .dropped := by
  rw [firstMessage]
  cases grpc.message with
  | ready answer => cases answer <;> exact iff_of_true (fun h => by cases h) (fun h => by cases h)
  | elapsed => exact iff_of_true (fun h => by cases h) (fun h => by cases h)
  | dropped => exact iff_of_false (fun h => h rfl) (fun h => h rfl)

theorem map_ending_iff {g : α → β} :
    (x >>= fun a => (pure (g a) : GrpcFuture β)).run.ending ≠ .dropped ↔
      x.run.ending ≠ .dropped := by
  rw [ExceptT.run_bind]
  obtain ⟨trace, ending⟩ := x.run
  cases ending with
  | ready result => cases result <;> exact iff_of_true (fun h => by cases h) (fun h => by cases h)
  | elapsed => exact iff_of_true (fun h => by cases h) (fun h => by cases h)
  | dropped => exact iff_of_false (fun h => h rfl) (fun h => h rfl)

end Parts

/-! #### Whole futures -/

variable {grpc : GrpcExchange} {endpoint : String}

/-- An exchange with a gRPC worker whose outcome may be reported. The body passes the check that
comes before connecting, and the one that comes after if the router connects; nothing that is
awaited is dropped; and the call concludes. -/
def GrpcExchange.Concludes (grpc : GrpcExchange) (lib : ForwardLibraries Url) (endpoint : String)
    (before after : Check) (streams : Prop) : Prop :=
  before = .ok () ∧ (lib.endpoint endpoint = .ok () → grpc.connect ≠ .dropped ∧
    (grpc.connect = .ready (.ok ()) → after = .ok () ∧ grpc.CallConcludes ∧
      (streams → grpc.call = .ready .reply → grpc.message ≠ .dropped)))

theorem accountable_checkedCall_iff {check : Check} {reply : GrpcReplies → α} :
    Accountable (checkedCall lib grpc check reply endpoint) ↔
      grpc.Concludes lib endpoint check (.ok ()) False := by
  rw [checkedCall, accountable_checked_bind, accountable_connect_bind, accountable_call]
  simp [GrpcExchange.Concludes]

theorem accountable_generateFuture_iff {body : List UInt8} :
    Accountable (generateFuture lib grpc body endpoint) ↔
      grpc.Concludes lib endpoint (protoNativeGenerateRequestFromJson lib.parseJson body) (.ok ())
        True := by
  rw [generateFuture, accountable_checked_bind, accountable_connect_bind, accountable_call_bind,
    map_ending_iff, firstMessage_ending_iff]
  simp [GrpcExchange.Concludes]

theorem accountable_openAiFuture_iff {body : List UInt8} {path : String} :
    Accountable (openAiFuture lib grpc body path endpoint) ↔
      grpc.Concludes lib endpoint (.ok ()) (openaiJsonRequestOptionsFromBody lib.parseJson body)
        (path ∈ openAiStreams) := by
  rw [openAiFuture, accountable_connect_bind, accountable_checked_bind]
  by_cases hstreams : path ∈ openAiStreams
  · rw [if_pos hstreams, accountable_call_bind, firstMessage_ending_iff]
    simp [GrpcExchange.Concludes, hstreams]
  · rw [if_neg hstreams, accountable_call]
    simp [GrpcExchange.Concludes, hstreams]

end Futures

/-! ### Forwards -/

section Forwards

variable {Url α β : Type} {lib : ForwardLibraries Url} {workerUrl path : String}

theorem resolved_failWith (error : ApiError Url) :
    Resolved (failWith error : Forward Url α).run.trace :=
  quiet_nil.resolved_failure

section Parts

variable {x : Forward Url α} {f : α → Forward Url β}

theorem resolved_bind_of_ok {a : α} (hx : x.run = ⟨[], .ready (.ok a)⟩) :
    Resolved (x >>= f).run.trace ↔ Resolved (f a).run.trace := by
  rw [Async.run_bind_of_ok hx, List.nil_append]

theorem resolved_bind_of_failure {error : ApiError Url}
    (hx : x.run = ⟨[.recordFailure], .ready (.error error)⟩) : Resolved (x >>= f).run.trace := by
  rw [Async.run_bind_of_error hx]
  exact quiet_nil.resolved_failure

theorem not_resolved_bind_of_error {error : ApiError Url}
    (hx : x.run = ⟨[], .ready (.error error)⟩) :
    ¬ Resolved (x >>= f).run.trace := by
  rw [Async.run_bind_of_error hx]
  exact quiet_nil.not_resolved

end Parts

variable {f : Url → Forward Url α}

/-- A worker whose URL does not parse is reported. -/
theorem resolved_parseWorkerUrl_bind_iff :
    Resolved (parseWorkerUrl lib workerUrl >>= f).run.trace ↔
      ∀ url, lib.parseUrl workerUrl = .ok url → Resolved (f url).run.trace := by
  rw [parseWorkerUrl]
  cases lib.parseUrl workerUrl with
  | error e => exact iff_of_true (resolved_bind_of_failure rfl) fun _ h => by cases h
  | ok url =>
      exact (resolved_bind_of_ok rfl).trans
        ⟨fun h _ heq => Except.ok.inj heq ▸ h, fun h => h url rfl⟩

/-- A path that does not join the URL of the worker is not reported. -/
theorem resolved_joinWorkerPath_bind_iff {url : Url} :
    Resolved (joinWorkerPath lib url path >>= f).run.trace ↔
      ∃ joined, lib.join url path = .ok joined ∧ Resolved (f joined).run.trace := by
  rw [joinWorkerPath]
  cases lib.join url path with
  | error e => exact iff_of_false (not_resolved_bind_of_error rfl) fun ⟨_, h, _⟩ => by cases h
  | ok joined =>
      exact (resolved_bind_of_ok rfl).trans
        ⟨fun h => ⟨joined, rfl, h⟩, fun ⟨_, heq, h⟩ => Except.ok.inj heq ▸ h⟩

theorem resolved_grpcEndpoint_bind_iff {f : Url × String → Forward Url α} :
    Resolved (grpcEndpoint lib workerUrl >>= f).run.trace ↔ ∀ parsed endpoint,
      lib.parseUrl workerUrl = .ok parsed → grpcEndpointFromWorkerUrl lib parsed = some endpoint →
        Resolved (f (parsed, endpoint)).run.trace := by
  cases hparse : lib.parseUrl workerUrl with
  | error e =>
      have hrun : (grpcEndpoint lib workerUrl).run = ⟨[.recordFailure],
          .ready (.error (.workerMisconfigured workerUrl ["parse worker URL", e]))⟩ := by
        rw [grpcEndpoint, parseWorkerUrl, hparse]
        rfl
      exact iff_of_true (resolved_bind_of_failure hrun) fun _ _ h => by cases h
  | ok parsed =>
      cases hendpoint : grpcEndpointFromWorkerUrl lib parsed with
      | none =>
          have hrun : (grpcEndpoint lib workerUrl).run =
              (failWith (.workerMisconfigured workerUrl
                [s!"unsupported gRPC worker URL scheme {lib.scheme parsed}"]) :
                Forward Url (Url × String)).run := by
            rw [grpcEndpoint, parseWorkerUrl, hparse]
            refine (Async.run_bind_of_ok rfl).trans ?_
            rw [hendpoint]
            rfl
          refine iff_of_true (resolved_bind_of_failure hrun) fun _ _ h hsome => ?_
          obtain rfl := Except.ok.inj h
          rw [hendpoint] at hsome
          cases hsome
      | some endpoint =>
          have hrun : (grpcEndpoint lib workerUrl).run =
              (pure (parsed, endpoint) : Forward Url (Url × String)).run := by
            rw [grpcEndpoint, parseWorkerUrl, hparse]
            refine (Async.run_bind_of_ok rfl).trans ?_
            rw [hendpoint]
            rfl
          refine (resolved_bind_of_ok hrun).trans ⟨fun h _ _ heq hsome => ?_, fun h => ?_⟩
          · obtain rfl := Except.ok.inj heq
            rw [hendpoint] at hsome
            exact Option.some.inj hsome ▸ h
          · exact h parsed endpoint rfl hendpoint

/-! #### HTTP -/

/-- The caller drops the forward while the body is read. -/
def HttpBody.Dropped : HttpBody → Prop
  | .dropped => True
  | .failed _ | .read _ => False

/-- The caller drops the forward at an await. -/
def HttpExchange.Dropped : HttpExchange → Prop
  | .dropped => True
  | .failed _ _ => False
  | .head _ body => body.Dropped

/-- An exchange with an HTTP worker that resolves the breaker. -/
def HttpConcludes (lib : ForwardLibraries Url) (workerUrl path : String) (http : HttpExchange) :
    Prop :=
  ∀ worker, lib.parseUrl workerUrl = .ok worker →
    (∃ joined, lib.join worker path = .ok joined) ∧ ¬ http.Dropped

variable {http : HttpExchange}

theorem resolved_answered_failure {error : ApiError Url} :
    Resolved (.answered :: (failWith error : Forward Url α).run.trace) :=
  (quiet_contacts [.answered]).resolved_failure

/-- The status of a response is reported in either case. -/
theorem resolved_answered_recordStatus {status : StatusCode} {f : Unit → Forward Url α}
    (hf : (f ()).run.trace = []) :
    Resolved (.answered :: (recordStatus status >>= f).run.trace) := by
  rw [Async.run_bind_of_ok (run_recordStatus status), hf, List.append_nil]
  exact (resolved_recordStatus_iff [.answered] status).2 (.inr (List.cons_ne_nil _ _))

/-- The body is read, and then the outcome is reported. -/
theorem resolved_readBody_bind_iff {onFailure : String → ApiError Url} {body : HttpBody}
    {f : List UInt8 → Forward Url α}
    (hf : ∀ bytes, Resolved (.answered :: (f bytes).run.trace)) :
    Resolved (.answered :: (readBody onFailure body >>= f).run.trace) ↔ ¬ body.Dropped := by
  cases body with
  | dropped =>
      rw [Async.run_bind_of_dropped (x := readBody onFailure .dropped) rfl]
      exact iff_of_false (quiet_contacts [.answered]).not_resolved fun h => h trivial
  | failed message =>
      rw [Async.run_bind_of_error (x := readBody onFailure (.failed message)) rfl]
      exact iff_of_true resolved_answered_failure id
  | read bytes =>
      rw [Async.run_bind_of_ok (x := readBody onFailure (.read bytes)) rfl]
      exact iff_of_true (hf bytes) id

theorem resolved_send_bind_iff {worker : Url} {f : StatusCode × HttpBody → Forward Url α}
    (hf : ∀ status body, Resolved (.answered :: (f (status, body)).run.trace) ↔ ¬ body.Dropped) :
    Resolved (send lib worker path http >>= f).run.trace ↔ ¬ http.Dropped := by
  cases http with
  | dropped =>
      rw [Async.run_bind_of_dropped (x := send lib worker path .dropped) rfl]
      exact iff_of_false quiet_nil.not_resolved fun h => h trivial
  | failed timedOut message => exact iff_of_true (resolved_bind_of_failure rfl) id
  | head status body =>
      rw [Async.run_bind_of_ok (x := send lib worker path (.head status body)) rfl]
      exact hf status body

theorem resolved_forwardHttp_iff :
    Resolved (forwardHttp lib workerUrl path http).run.trace ↔
      HttpConcludes lib workerUrl path http := by
  rw [forwardHttp, resolved_parseWorkerUrl_bind_iff]
  refine forall_congr' fun worker => imp_congr_right fun _ => ?_
  rw [resolved_joinWorkerPath_bind_iff, ← exists_and_right]
  refine exists_congr fun joined => and_congr_right fun _ => ?_
  refine resolved_send_bind_iff fun status body => ?_
  exact resolved_readBody_bind_iff fun bytes => resolved_answered_recordStatus rfl

theorem resolved_loadHttp_iff :
    Resolved (loadHttp lib workerUrl http).run.trace ↔
      HttpConcludes lib workerUrl "/v1/loads" http := by
  rw [loadHttp, resolved_parseWorkerUrl_bind_iff]
  refine forall_congr' fun worker => imp_congr_right fun _ => ?_
  rw [resolved_joinWorkerPath_bind_iff, ← exists_and_right]
  refine exists_congr fun joined => and_congr_right fun _ => ?_
  refine resolved_send_bind_iff fun status body => ?_
  refine resolved_readBody_bind_iff fun bytes => ?_
  cases lib.parseJson bytes with
  | error error => exact resolved_answered_failure
  | ok json =>
      refine resolved_answered_recordStatus ?_
      split_ifs <;> rfl

/-! #### gRPC -/

/-- An exchange with a gRPC worker that resolves the breaker. -/
def GrpcConcludes (lib : ForwardLibraries Url) (workerUrl : String) (grpc : GrpcExchange)
    (before after : Check) (streams : Prop) : Prop :=
  ∀ parsed endpoint, lib.parseUrl workerUrl = .ok parsed →
    grpcEndpointFromWorkerUrl lib parsed = some endpoint →
      grpc.Concludes lib endpoint before after streams

variable {grpc : GrpcExchange}

theorem resolved_forwardGrpc_iff {onReply : α → ResponseBody} {fut : String → GrpcFuture α}
    {before after : Check} {streams : Prop}
    (hfut : ∀ endpoint, Accountable (fut endpoint) ↔
      grpc.Concludes lib endpoint before after streams) :
    Resolved (forwardGrpc lib workerUrl onReply fut).run.trace ↔
      GrpcConcludes lib workerUrl grpc before after streams := by
  rw [forwardGrpc, resolved_grpcEndpoint_bind_iff]
  refine forall_congr' fun parsed => forall_congr' fun endpoint => imp_congr_right fun _ =>
    imp_congr_right fun _ => ?_
  exact (resolved_settle_iff _ _ _ _).trans (hfut endpoint)

theorem resolved_loadForGrpcWorker_iff :
    Resolved (loadForGrpcWorker lib workerUrl grpc).run.trace ↔
      GrpcConcludes lib workerUrl grpc (.ok ()) (.ok ()) False := by
  rw [loadForGrpcWorker, resolved_grpcEndpoint_bind_iff]
  refine forall_congr' fun parsed => forall_congr' fun endpoint => imp_congr_right fun _ =>
    imp_congr_right fun _ => ?_
  exact (resolved_settle_iff _ _ _ _).trans accountable_checkedCall_iff

/-- The check of a body that comes before connecting. -/
def checkBeforeConnect (lib : ForwardLibraries Url) (body : List UInt8) (path : String) : Check :=
  match path with
  | "/generate" => protoNativeGenerateRequestFromJson lib.parseJson body
  | "/update_weights_from_disk" => protoUpdateWeightsFromDiskRequestFromJson lib.parseJson body
  | "/update_weight_version" => protoUpdateWeightVersionRequestFromJson lib.parseJson body
  | "/get_weights_by_name" => protoGetWeightsByNameRequestFromJson lib.parseJson body
  | "/abort_request" => protoAbortRequestFromJson lib.parseJson body
  | "/start_profile" => protoStartProfileRequestFromJson lib.parseJson body
  | _ => .ok ()

/-- The check of a body that comes after connecting. -/
def checkAfterConnect (lib : ForwardLibraries Url) (body : List UInt8) (path : String) : Check :=
  if path ∈ openAiStreams ++ openAiCalls then openaiJsonRequestOptionsFromBody lib.parseJson body
  else .ok ()

/-- The paths that a gRPC worker serves. -/
def grpcPaths : List String :=
  ["/generate", "/update_weights_from_disk", "/update_weight_version", "/get_weights_by_name",
    "/abort_request", "/start_profile", "/stop_profile", "/flush_cache", "/poll_transfers",
    "/pause_generation", "/continue_generation"] ++ (openAiStreams ++ openAiCalls)

/-- One path of the dispatch. -/
theorem resolved_path_iff {x y : Forward Url Response} {body : List UInt8} {key : String}
    {before after : Check} {streams : Prop}
    (hx : Resolved x.run.trace ↔ GrpcConcludes lib workerUrl grpc before after streams)
    (hkey : key ∈ grpcPaths) (hbefore : checkBeforeConnect lib body key = before)
    (hafter : checkAfterConnect lib body key = after)
    (hstreams : key = "/generate" ∨ key ∈ openAiStreams ↔ streams)
    (hy : path ≠ key → (Resolved y.run.trace ↔
      (path ∈ grpcPaths → GrpcConcludes lib workerUrl grpc (checkBeforeConnect lib body path)
        (checkAfterConnect lib body path) (path = "/generate" ∨ path ∈ openAiStreams)))) :
    Resolved (if path = key then x else y).run.trace ↔
      (path ∈ grpcPaths → GrpcConcludes lib workerUrl grpc (checkBeforeConnect lib body path)
        (checkAfterConnect lib body path) (path = "/generate" ∨ path ∈ openAiStreams)) := by
  by_cases hpath : path = key
  · rw [if_pos hpath, hx, hpath, hbefore, hafter, propext hstreams, forall_prop_of_true hkey]
  · rw [if_neg hpath]
    exact hy hpath

theorem checkBeforeConnect_openAi {body : List UInt8} (h : path ∈ openAiStreams ++ openAiCalls) :
    checkBeforeConnect lib body path = .ok () := by
  simp only [openAiStreams, openAiCalls, List.cons_append, List.nil_append, List.mem_cons,
    List.not_mem_nil, or_false] at h
  obtain rfl | rfl | rfl | rfl | rfl | rfl | rfl := h <;> rfl

theorem resolved_forwardGrpcJsonTo_iff {body : List UInt8} :
    Resolved (forwardGrpcJsonTo lib workerUrl grpc body path).run.trace ↔
      (path ∈ grpcPaths → GrpcConcludes lib workerUrl grpc (checkBeforeConnect lib body path)
        (checkAfterConnect lib body path) (path = "/generate" ∨ path ∈ openAiStreams)) := by
  have hcall {α : Type} {onReply : α → ResponseBody} {check : Check} {reply : GrpcReplies → α} :
      Resolved (forwardGrpc lib workerUrl onReply (checkedCall lib grpc check reply)).run.trace ↔
        GrpcConcludes lib workerUrl grpc check (.ok ()) False :=
    resolved_forwardGrpc_iff fun _ => accountable_checkedCall_iff
  rw [forwardGrpcJsonTo]
  refine resolved_path_iff (resolved_forwardGrpc_iff fun _ => accountable_generateFuture_iff)
    (by decide) rfl (if_neg (by decide)) (by decide) fun h1 => ?_
  refine resolved_path_iff hcall (by decide) rfl (if_neg (by decide)) (by decide) fun h2 => ?_
  refine resolved_path_iff hcall (by decide) rfl (if_neg (by decide)) (by decide) fun h3 => ?_
  refine resolved_path_iff hcall (by decide) rfl (if_neg (by decide)) (by decide) fun h4 => ?_
  refine resolved_path_iff hcall (by decide) rfl (if_neg (by decide)) (by decide) fun h5 => ?_
  refine resolved_path_iff hcall (by decide) rfl (if_neg (by decide)) (by decide) fun h6 => ?_
  refine resolved_path_iff hcall (by decide) rfl (if_neg (by decide)) (by decide) fun h7 => ?_
  refine resolved_path_iff hcall (by decide) rfl (if_neg (by decide)) (by decide) fun h8 => ?_
  refine resolved_path_iff hcall (by decide) rfl (if_neg (by decide)) (by decide) fun h9 => ?_
  refine resolved_path_iff hcall (by decide) rfl (if_neg (by decide)) (by decide) fun h10 => ?_
  refine resolved_path_iff hcall (by decide) rfl (if_neg (by decide)) (by decide) fun h11 => ?_
  by_cases hpath : path ∈ openAiStreams ++ openAiCalls
  · have hmem : path ∈ grpcPaths := List.mem_append_right _ hpath
    rw [if_pos hpath, checkBeforeConnect_openAi hpath, checkAfterConnect, if_pos hpath,
      forall_prop_of_true hmem, or_iff_right h1]
    exact resolved_forwardGrpc_iff fun _ => accountable_openAiFuture_iff
  · rw [if_neg hpath]
    refine iff_of_true (resolved_failWith _) fun hmem => absurd hmem ?_
    rw [grpcPaths, List.mem_append, not_or]
    exact ⟨by simp [*], hpath⟩

/-! #### The theorem -/

variable {breaker : CircuitBreaker} {now : ℕ}

/-- A forward owes the breaker nothing unless it is admitted. -/
theorem resolves_admitted_iff {forward : Forward Url α} :
    Resolves (admitted breaker now workerUrl forward) ↔
      ((breaker.allow now).1 = true → Resolved forward.run.trace) := by
  have hrun : (admitted breaker now workerUrl forward).run.trace =
      .allow (breaker.allow now).1 ::
        (if (breaker.allow now).1 = true then forward
          else throw (.breakerOpen workerUrl)).run.trace := by
    rw [admitted, Async.run_bind_of_ok (x := allow breaker now) rfl]
    rfl
  rw [Resolves, hrun]
  by_cases hadmits : (breaker.allow now).1 = true
  · rw [if_pos hadmits, hadmits, resolved_allow_cons_iff]
    simp
  · rw [if_neg hadmits]
    refine iff_of_true (fun hmem => ?_) fun h => absurd h hadmits
    have heq := ForwardEvent.allow.inj (List.mem_singleton.1 hmem)
    exact absurd heq.symm hadmits

/-- **Every admitted request resolves the breaker.** A forward that the breaker admits reports its
outcome once, gives the probe slot back, and reports success only after the worker has answered, if
and only if its exchange concludes: over HTTP, the path joins the URL of the worker and nothing that
is awaited is dropped; over gRPC, on a path that such a worker serves, moreover the body passes the
checks of the router that come up and no status of the client library itself passes for success. -/
theorem forwards_resolve_iff (lib : ForwardLibraries Url) (breaker : CircuitBreaker) (now : ℕ)
    (workerUrl path : String) (body : List UInt8) (http : HttpExchange) (grpc : GrpcExchange) :
    (Resolves (forwardJsonTo lib breaker now workerUrl path body http grpc) ↔
      ((breaker.allow now).1 = true →
        if isGrpcWorkerUrl workerUrl then
          path ∈ grpcPaths → GrpcConcludes lib workerUrl grpc (checkBeforeConnect lib body path)
            (checkAfterConnect lib body path) (path = "/generate" ∨ path ∈ openAiStreams)
        else HttpConcludes lib workerUrl path http)) ∧
    (Resolves (forwardGetTo lib breaker now workerUrl path http) ↔
      ((breaker.allow now).1 = true → isGrpcWorkerUrl workerUrl = false →
        HttpConcludes lib workerUrl path http)) ∧
    (Resolves (loadForWorker lib breaker now workerUrl http grpc) ↔
      ((breaker.allow now).1 = true →
        if isGrpcWorkerUrl workerUrl then
          GrpcConcludes lib workerUrl grpc (.ok ()) (.ok ()) False
        else HttpConcludes lib workerUrl "/v1/loads" http)) := by
  rw [forwardJsonTo, forwardGetTo, loadForWorker, resolves_admitted_iff, resolves_admitted_iff,
    resolves_admitted_iff]
  refine ⟨imp_congr_right fun _ => ?_, imp_congr_right fun _ => ?_, imp_congr_right fun _ => ?_⟩
  · split_ifs
    · exact resolved_forwardGrpcJsonTo_iff
    · exact resolved_forwardHttp_iff
  · split_ifs with hgrpc
    · exact iff_of_true (resolved_failWith _) fun h => by simp [hgrpc] at h
    · rw [forall_prop_of_true ((Bool.not_eq_true _).mp hgrpc)]
      exact resolved_forwardHttp_iff
  · split_ifs
    · exact resolved_loadForGrpcWorker_iff
    · exact resolved_loadHttp_iff

end Forwards

/-! ### Forwards that do not resolve the breaker -/

section Unresolved

/-- The body `new_version: ""`, as JSON. -/
def emptyVersion : List UInt8 :=
  [123, 34, 110, 101, 119, 95, 118, 101, 114, 115, 105, 111, 110, 34, 58, 34, 34, 125]

/-- URLs as texts. A path joins those that name a host, which `localhost:30000`, a path with the
scheme `localhost`, does not. -/
def textUrls : ForwardLibraries String where
  parseUrl := .ok
  join url path :=
    if url = "localhost:30000" then .error "relative URL with a cannot-be-a-base base"
    else .ok (url ++ path)
  appendPair url key value := url ++ "?" ++ key ++ "=" ++ value
  scheme url := String.ofList (url.toList.takeWhile (· ≠ ':'))
  asStr := id
  endpoint _ := .ok ()
  parseJson bytes :=
    if bytes = emptyVersion then .ok (.object [("new_version", .string "")])
    else .error "expected value at line 1 column 1"
  codeText _ := "Client specified an invalid argument"
  floatJson _ := .null

/-- A gRPC worker that refuses the connection. -/
def unreachable : GrpcExchange where
  connect := .ready (.error "connection refused")
  call := .elapsed
  message := .elapsed
  replies := ⟨⟨false, ""⟩, [], ⟨0, 0, [], []⟩, ⟨0, 0⟩, [], ⟨"", none⟩⟩

/-- A breaker that has been open for as long as it must. -/
def cooled : CircuitBreaker := ⟨.open 0, 1, BreakerSystem.eager⟩

/-- The theorem applied to the probe of a breaker that has cooled down, for a worker that refuses
the connection: the probe resolves the breaker and gives its slot back. -/
theorem forwards_resolve_iff_of_refused :
    let steps := [BreakerStep.allow, .recordFailure 0, .elapse 1, .allow]
    let s := (BreakerSystem.new BreakerSystem.eager).run steps
    let forward := forwardJsonTo textUrls cooled 1 "http://w:30000" "/generate" []
      (.failed false "connection refused") unreachable
    s.breaker = (cooled.allow 1).2 ∧ s.breaker.state = .halfOpen true ∧
      Resolved forward.run.trace ∧
      (reported s.breaker s.now forward.run.trace).state ≠ .halfOpen true := by
  intro steps s forward
  have hresolved : Resolved forward.run.trace := by
    refine (forwards_resolve_iff textUrls cooled 1 "http://w:30000" "/generate" []
      (.failed false "connection refused") unreachable).1.mpr (fun _ => ?_) (by decide)
    rw [if_neg (by decide)]
    intro worker hworker
    obtain rfl : "http://w:30000" = worker := Except.ok.inj hworker
    exact ⟨⟨"http://w:30000/generate", by decide⟩, id⟩
  have hcount : Transition.Along BreakerSystem.step
      (fun s _ => s.breaker.consecutiveFailures + 1 ≠ 0) (.new BreakerSystem.eager) steps :=
    ⟨by decide, by decide, by decide, by decide, trivial⟩
  exact ⟨rfl, rfl, hresolved, hresolved.frees_probe rfl hcount (by decide) rfl⟩

/-- Three probes that a breaker admits. The caller drops the first while it waits for the response;
the second is for a worker whose URL names no host; the third has a body that the router refuses,
which is reported as a success of a worker that was not called. -/
theorem exists_unresolved_forwards :
    ¬ Resolves (forwardJsonTo textUrls cooled 1 "http://w:30000" "/generate" [] .dropped
      unreachable) ∧
    ¬ Resolves (forwardJsonTo textUrls cooled 1 "localhost:30000" "/generate" []
      (.failed false "connection refused") unreachable) ∧
    ¬ Resolves (forwardJsonTo textUrls cooled 1 "grpc://w:30000" "/update_weight_version"
      emptyVersion .dropped unreachable) := by
  have hquiet : ¬ Resolved [.allow true] :=
    Quiet.not_resolved (by simp [Quiet, ForwardEvent.isRecord])
  have hcredit : ¬ Resolved [.allow true, .recordSuccess] := fun h => by
    simpa using h.answered [.allow true] [] rfl
  exact ⟨fun h => hquiet (h (by decide)), fun h => hquiet (h (by decide)),
    fun h => hcredit (h (by decide))⟩

end Unresolved

end SglangRs.Router
