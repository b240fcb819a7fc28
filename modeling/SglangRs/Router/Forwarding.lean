import SglangRs.Router.CircuitBreaker
import SglangRs.Router.RequestChecks
import SglangRs.Transition.Async

/-!
# Forwarding a request to a worker

A request is forwarded to a worker (`proxy/mod.rs`, lines 676–1810) if the breaker of the worker
admits it. What becomes of it is reported to the breaker, which other requests to the worker use at
the same time. A forward is therefore code with a trace: its calls of the breaker, and the moments
at which the worker has answered.

A worker is called over HTTP or over gRPC, as the scheme of its URL says. A gRPC call is a future
under a deadline, and the functions that forward over gRPC differ in what they check of the body
first, in what they call and in what they make of the reply. What the other side does is given: how
every await ends, the timeouts of the HTTP client being failures of its awaits. The libraries for
URLs, JSON and gRPC are parameters, and an `anyhow` error is the list of its texts, outermost first.

## Main definitions

* `Router.ForwardEvent`: the entries of a trace.
* `Router.ForwardLibraries`, `Router.HttpExchange`, `Router.GrpcExchange`: libraries and workers.
* `Router.Forward`, `Router.GrpcFuture`: forwards, and the futures of gRPC calls.
* `Router.settle`: what is reported of a future under its deadline.
* `Router.forwardJsonTo`, `Router.forwardGetTo`, `Router.loadForWorker`: the forwards.
-/

namespace SglangRs.Router

open Transition

/-! ### Traces and errors -/

inductive ForwardEvent where
  /-- The breaker was asked, and admitted the request or not. -/
  | allow (admitted : Bool)
  /-- A response of the worker arrived. -/
  | answered
  | recordSuccess
  | recordFailure
deriving DecidableEq, Repr

/-- The entries of a gRPC call. It does not call the breaker. -/
inductive Contact where
  | answered
deriving DecidableEq, Repr

def Contact.event : Contact → ForwardEvent
  | answered => .answered

/-- The codes of gRPC. -/
inductive Code where
  | ok | cancelled | unknown | invalidArgument | deadlineExceeded | notFound | alreadyExists
  | permissionDenied | resourceExhausted | failedPrecondition | aborted | outOfRange
  | unimplemented | internal | unavailable | dataLoss | unauthenticated
deriving DecidableEq, Repr

structure Status where
  code : Code
  message : String
deriving DecidableEq, Repr

/-- An HTTP status. -/
abbrev StatusCode := ℕ

def StatusCode.isServerError (status : StatusCode) : Bool := 500 ≤ status ∧ status < 600

def StatusCode.isSuccess (status : StatusCode) : Bool := 200 ≤ status ∧ status < 300

/-- The errors of the router that a forward returns. -/
inductive ApiError (Url : Type) where
  | breakerOpen (worker : String)
  | workerMisconfigured (worker : String) (source : List String)
  | upstreamUnreachable (worker : Url) (source : List String)
  | upstreamTimeout (worker : Url)
  | upstreamStatus (status : StatusCode)
  | internal (source : List String)
deriving DecidableEq, Repr

inductive GrpcForwardError where
  | status (status : Status)
  | transport (source : String)
deriving DecidableEq, Repr

/-- A response to the client. -/
inductive ResponseBody where
  | bytes (bytes : List UInt8)
  | json (value : Json)

structure Response where
  status : StatusCode
  body : ResponseBody

abbrev Forward (Url α : Type) := ExceptT (ApiError Url) (Async ForwardEvent) α

abbrev GrpcFuture (α : Type) := ExceptT GrpcForwardError (Async Contact) α

/-! ### Libraries and workers -/

/-- The libraries for URLs, JSON and gRPC. -/
structure ForwardLibraries (Url : Type) where
  parseUrl : String → Except String Url
  join : Url → String → Except String Url
  appendPair : Url → String → String → Url
  scheme : Url → String
  asStr : Url → String
  /-- `Endpoint::from_shared`. -/
  endpoint : String → Except String Unit
  parseJson : List UInt8 → Except String Json
  /-- The text of a code. -/
  codeText : Code → String
  /-- The JSON of a float, given by its bits. -/
  floatJson : UInt32 → Json

/-- What comes of awaiting the body of an HTTP response. -/
inductive HttpBody where
  | dropped
  | failed (message : String)
  | read (bytes : List UInt8)

/-- What comes of an HTTP request: it is sent, and if the head of the response arrives the body is
awaited. -/
inductive HttpExchange where
  | dropped
  | failed (timedOut : Bool) (message : String)
  | head (status : StatusCode) (body : HttpBody)

/-- What comes of a gRPC call that was not cut short. A status may be of the worker or of the client
library. -/
inductive RpcAnswer where
  | reply
  | status (status : Status) (fromWorker : Bool)

/-- What comes of waiting for the first message of a stream. -/
inductive StreamAnswer where
  | message
  | closed
  | status (status : Status)

structure ControlResponse where
  success : Bool
  message : String

structure PollTransfersResponse where
  completedBatches : UInt32
  pendingBatches : UInt32
  completedDescriptorChecksums : List String
  pendingDescriptorChecksums : List String

structure LoadResponse where
  waitingQueueDepth : UInt32
  decodeQueueDepth : UInt32

structure GenerateStreamChunk where
  tokenIds : List UInt32
  text : String
  promptTokens : Int32
  completionTokens : Int32
  cachedTokens : Int32

structure GenerateComplete where
  outputIds : List UInt32
  text : String
  finishReason : String
  promptTokens : Int32
  completionTokens : Int32
  cachedTokens : Int32

inductive GenerateResponseBody where
  | chunk (chunk : GenerateStreamChunk)
  | complete (complete : GenerateComplete)
  | error (message code : String)

structure GenerateResponse where
  requestId : String
  body : Option GenerateResponseBody

/-- The messages of the worker, of which a call reads the one of its type. -/
structure GrpcReplies where
  control : ControlResponse
  /-- The bits of the floats of `GetWeightsByNameResponse`. -/
  parameter : List UInt32
  transfers : PollTransfersResponse
  load : LoadResponse
  /-- The bytes of `OpenAiJsonResponse`. -/
  openAiJson : List UInt8
  generate : GenerateResponse

/-- What comes of the awaits of a gRPC call: connecting, calling, and waiting for the first message
of a stream. -/
structure GrpcExchange where
  connect : Awaited (Except String Unit)
  call : Awaited RpcAnswer
  message : Awaited StreamAnswer
  replies : GrpcReplies

/-! ### Statuses -/

/-- Source: `proxy/mod.rs`, lines 76–95. -/
def grpcStatusToHttpStatus : Code → StatusCode
  | .ok => 200
  | .invalidArgument | .failedPrecondition | .outOfRange => 400
  | .unauthenticated => 401
  | .permissionDenied => 403
  | .notFound => 404
  | .alreadyExists | .aborted => 409
  | .resourceExhausted => 429
  | .cancelled => 502
  | .unknown | .internal | .dataLoss => 500
  | .unavailable => 503
  | .deadlineExceeded => 504
  | .unimplemented => 501

/-- The status of a body that is refused.

Source: `proxy/mod.rs`, lines 118–120. -/
def grpcGenerateStatus (message : String) : Status := ⟨.invalidArgument, message⟩

/-- Source: `proxy/mod.rs`, lines 97–114. -/
def grpcStatusResponse {Url : Type} (lib : ForwardLibraries Url) (status : Status) : Response where
  status := grpcStatusToHttpStatus status.code
  body := .json (.object [("error", .object
    [("message", .string status.message), ("code", .string (lib.codeText status.code))])])

/-! ### Calls of the breaker -/

section Breaker

variable {Url : Type}

def allow (breaker : CircuitBreaker) (now : ℕ) : Forward Url Bool :=
  .mk ⟨[.allow (breaker.allow now).1], .ready (.ok (breaker.allow now).1)⟩

def recordSuccess : Forward Url Unit := ExceptT.lift (.emit .recordSuccess)

def recordFailure : Forward Url Unit := ExceptT.lift (.emit .recordFailure)

/-- A server error is a failure. -/
def recordStatus (status : StatusCode) : Forward Url Unit :=
  if status.isServerError then recordFailure else recordSuccess

/-- A failure is reported, and the forward ends with an error. -/
def failWith {α : Type} (error : ApiError Url) : Forward Url α := do
  recordFailure
  throw error

end Breaker

section Forwarding

variable {Url : Type} (lib : ForwardLibraries Url)

/-! ### Worker URLs -/

/-- Source: `proxy/mod.rs`, lines 40–52. -/
def parseWorkerUrl (workerUrl : String) : Forward Url Url :=
  match lib.parseUrl workerUrl with
  | .error e => failWith (.workerMisconfigured workerUrl ["parse worker URL", e])
  | .ok url => pure url

/-- Source: `proxy/mod.rs`, lines 54–56. -/
def isGrpcWorkerUrl (workerUrl : String) : Bool :=
  "grpc://".toList.isPrefixOf workerUrl.toList || "grpcs://".toList.isPrefixOf workerUrl.toList

/-- The text without the pattern at its start, however often it stands there; `fuel` is a bound for
how often. -/
def trimStartMatches (pattern : List Char) : ℕ → List Char → List Char
  | 0, text => text
  | fuel + 1, text =>
      if pattern.isPrefixOf text then trimStartMatches pattern fuel (text.drop pattern.length)
      else text

/-- Source: `proxy/mod.rs`, lines 58–70. -/
def grpcEndpointFromWorkerUrl (url : Url) : Option String :=
  let text := (lib.asStr url).toList
  if lib.scheme url = "grpc" then
    some ("http://" ++ String.ofList (trimStartMatches "grpc://".toList text.length text))
  else if lib.scheme url = "grpcs" then
    some ("https://" ++ String.ofList (trimStartMatches "grpcs://".toList text.length text))
  else none

/-- The URL and the endpoint of a gRPC worker, as all functions find them.

Source: `proxy/mod.rs`, lines 942–949. -/
def grpcEndpoint (workerUrl : String) : Forward Url (Url × String) := do
  let parsed ← parseWorkerUrl lib workerUrl
  match grpcEndpointFromWorkerUrl lib parsed with
    | some endpoint => pure (parsed, endpoint)
    | none => failWith (.workerMisconfigured workerUrl
        [s!"unsupported gRPC worker URL scheme {lib.scheme parsed}"])

/-- Nothing is reported when the path does not join.

Source: `proxy/mod.rs`, lines 695–697. -/
def joinWorkerPath (url : Url) (path : String) : Forward Url Url :=
  match lib.join url path with
  | .error e => throw (.internal [s!"join worker path {path}", e])
  | .ok joined => pure joined

/-! ### HTTP -/

/-- Source: `proxy/mod.rs`, lines 651–665. -/
def classifyReqwestErrorFor (worker : Url) (timedOut : Bool)
    (message path : String) : ApiError Url :=
  if timedOut then .upstreamTimeout worker
  else .upstreamUnreachable worker [s!"worker {lib.asStr worker}: request {path}", message]

/-- The request is sent, and the status and the body of the response are what is yet to be read. -/
def send (worker : Url) (path : String) : HttpExchange → Forward Url (StatusCode × HttpBody)
  | .dropped => .mk (.await .dropped)
  | .failed timedOut message => failWith (classifyReqwestErrorFor lib worker timedOut message path)
  | .head status body => do
      ExceptT.lift (.emit .answered)
      pure (status, body)

/-- The body is read; what a failure is worth is for the caller to say. -/
def readBody (onFailure : String → ApiError Url) : HttpBody → Forward Url (List UInt8)
  | .dropped => .mk (.await .dropped)
  | .failed message => failWith (onFailure message)
  | .read bytes => pure bytes

/-- The HTTP part of a forward, which is one for `POST` and `GET`.

Source: `proxy/mod.rs`, lines 694–742 and 766–816. -/
def forwardHttp (workerUrl path : String) (http : HttpExchange) : Forward Url Response := do
  let worker ← parseWorkerUrl lib workerUrl
  let _ ← joinWorkerPath lib worker path
  let (status, body) ← send lib worker path http
  let bytes ← readBody (fun _ => .upstreamStatus status) body
  recordStatus status
  pure ⟨status, .bytes bytes⟩

/-- Source: `proxy/mod.rs`, lines 122–133. -/
def loadFromWorkerLoadJson (value : Json) : Option ℤ :=
  (((value.get "aggregate").bind (Json.get · "total_tokens")).bind Json.asI64).or
    (((value.get "loads").bind Json.asArray).map fun loads =>
      (loads.filterMap fun load : Json => (load.get "num_reqs").bind Json.asI64).sum.bmod (2 ^ 64))

/-- The HTTP part of `load_for_worker`.

Source: `proxy/mod.rs`, lines 833–865. -/
def loadHttp (workerUrl : String) (http : HttpExchange) : Forward Url ℤ := do
  let worker ← parseWorkerUrl lib workerUrl
  let joined ← joinWorkerPath lib worker "/v1/loads"
  let url := lib.appendPair joined "include" "core"
  let undecoded (error : String) : ApiError Url :=
    .internal [s!"decode worker load response from {lib.asStr url}: {error}"]
  let (status, body) ← send lib worker "/v1/loads" http
  let bytes ← readBody undecoded body
  match lib.parseJson bytes with
    | .error error => failWith (undecoded error)
    | .ok json => do
        recordStatus status
        if status.isSuccess then pure ((loadFromWorkerLoadJson json).getD (-1))
        else throw (.upstreamStatus status)

/-! ### Parts of a gRPC call -/

/-- The body is refused with a status, as if by the worker. -/
def checked (check : Check) : GrpcFuture Unit :=
  match check with
  | .error message => throw (.status (grpcGenerateStatus message))
  | .ok () => pure ()

/-- Source: `proxy/mod.rs`, lines 952–966. -/
def connect (endpoint : String) (grpc : GrpcExchange) : GrpcFuture Unit :=
  match lib.endpoint endpoint with
  | .error e => throw (.transport s!"invalid gRPC endpoint {endpoint}: {e}")
  | .ok () => do
      match ← ExceptT.lift (.await grpc.connect) with
        | .error e => throw (.transport s!"connect gRPC worker {endpoint}: {e}")
        | .ok () => pure ()

/-- A method of the client is called. -/
def call {α : Type} (grpc : GrpcExchange) (reply : GrpcReplies → α) : GrpcFuture α := do
  match ← ExceptT.lift (.await grpc.call) with
    | .reply => do
        ExceptT.lift (.emit .answered)
        pure (reply grpc.replies)
    | .status status true => do
        ExceptT.lift (.emit .answered)
        throw (.status status)
    | .status status false => throw (.status status)

/-- The first message of the stream that a call returned. -/
def firstMessage {α : Type} (grpc : GrpcExchange) (reply : GrpcReplies → α) (missing : String) :
    GrpcFuture α := do
  match ← ExceptT.lift (.await grpc.message) with
    | .message => pure (reply grpc.replies)
    | .closed => throw (.status ⟨.internal, missing⟩)
    | .status status => throw (.status status)

/-- The future is awaited under its deadline, and its outcome is reported. A status is a response to
the client, or an error, as `onStatus` says.

Source: `proxy/mod.rs`, lines 1036–1060. -/
def settle {α β : Type} (worker : Url) (onStatus : Status → Except (ApiError Url) β)
    (onReply : α → β) (fut : GrpcFuture α) : Forward Url β := do
  match ← ExceptT.lift (.timeout Contact.event fut.run) with
    | some (.ok reply) => do
        recordSuccess
        pure (onReply reply)
    | some (.error (.status status)) => do
        recordStatus (grpcStatusToHttpStatus status.code)
        liftM (onStatus status)
    | some (.error (.transport source)) => failWith (.upstreamUnreachable worker [source])
    | none => failWith (.upstreamTimeout worker)

/-- A forward over gRPC. -/
def forwardGrpc {α : Type} (workerUrl : String) (onReply : α → ResponseBody)
    (fut : String → GrpcFuture α) : Forward Url Response := do
  let (parsed, endpoint) ← grpcEndpoint lib workerUrl
  settle parsed (fun status => .ok (grpcStatusResponse lib status))
    (fun reply => ⟨200, onReply reply⟩) (fut endpoint)

/-- The future of a forward that checks the body, connects and makes one call. -/
def checkedCall {α : Type} (grpc : GrpcExchange) (check : Check) (reply : GrpcReplies → α)
    (endpoint : String) : GrpcFuture α := do
  checked check
  connect lib endpoint grpc
  call grpc reply

/-! ### Control requests over gRPC -/

section Control

variable (workerUrl : String) (grpc : GrpcExchange) (body : List UInt8)

def ControlResponse.json (response : ControlResponse) (more : JsonObject) : ResponseBody :=
  .json (.object
    ([("success", .bool response.success), ("message", .string response.message)] ++ more))

def Json.ofNat (n : ℕ) : Json := .number (.integer n)

/-- The requests without a body: to flush the cache, to pause and continue, to stop the profile.

Source: `proxy/mod.rs`, lines 1224–1319. -/
def forwardGrpcControlRpc : Forward Url Response :=
  forwardGrpc lib workerUrl (·.json []) (checkedCall lib grpc (.ok ()) GrpcReplies.control)

/-- Source: `proxy/mod.rs`, lines 1136–1143. -/
def forwardGrpcFlushCache : Forward Url Response := forwardGrpcControlRpc lib workerUrl grpc

/-- Source: `proxy/mod.rs`, lines 1145–1222. -/
def forwardGrpcPollTransfers : Forward Url Response :=
  forwardGrpc lib workerUrl
    (fun response => .json (.object
      [("completed_batches", .ofNat response.completedBatches.toNat),
        ("pending_batches", .ofNat response.pendingBatches.toNat),
        ("completed_descriptor_checksums",
          .array (response.completedDescriptorChecksums.map .string)),
        ("pending_descriptor_checksums",
          .array (response.pendingDescriptorChecksums.map .string))]))
    (checkedCall lib grpc (.ok ()) GrpcReplies.transfers)

/-- Source: `proxy/mod.rs`, lines 1321–1400. -/
def forwardGrpcUpdateWeightsFromDisk : Forward Url Response :=
  forwardGrpc lib workerUrl (·.json [("num_paused_requests", .ofNat 0)])
    (checkedCall lib grpc (protoUpdateWeightsFromDiskRequestFromJson lib.parseJson body)
      GrpcReplies.control)

/-- Source: `proxy/mod.rs`, lines 1402–1480. -/
def forwardGrpcUpdateWeightVersion : Forward Url Response :=
  forwardGrpc lib workerUrl (·.json [])
    (checkedCall lib grpc (protoUpdateWeightVersionRequestFromJson lib.parseJson body)
      GrpcReplies.control)

/-- Source: `proxy/mod.rs`, lines 1482–1559. -/
def forwardGrpcGetWeightsByName : Forward Url Response :=
  forwardGrpc lib workerUrl
    (fun parameter => .json (.object [("parameter", .array (parameter.map lib.floatJson))]))
    (checkedCall lib grpc (protoGetWeightsByNameRequestFromJson lib.parseJson body)
      GrpcReplies.parameter)

/-- Source: `proxy/mod.rs`, lines 1561–1638. -/
def forwardGrpcAbortRequest : Forward Url Response :=
  forwardGrpc lib workerUrl (·.json [])
    (checkedCall lib grpc (protoAbortRequestFromJson lib.parseJson body) GrpcReplies.control)

/-- Source: `proxy/mod.rs`, lines 1640–1718. -/
def forwardGrpcStartProfile : Forward Url Response :=
  forwardGrpc lib workerUrl (·.json [])
    (checkedCall lib grpc (protoStartProfileRequestFromJson lib.parseJson body) GrpcReplies.control)

/-- Source: `proxy/mod.rs`, lines 1069–1134. -/
def loadForGrpcWorker : Forward Url ℤ := do
  let (parsed, endpoint) ← grpcEndpoint lib workerUrl
  settle parsed (fun status => .error (.upstreamStatus (grpcStatusToHttpStatus status.code)))
    (fun response => response.waitingQueueDepth.toNat + response.decodeQueueDepth.toNat)
    (checkedCall lib grpc (.ok ()) GrpcReplies.load endpoint)

/-! ### Requests to generate over gRPC -/

/-- Source: `proxy/mod.rs`, lines 577–616. -/
def protoGenerateResponseToJson (response : GenerateResponse) : Json :=
  let ids (ids : List UInt32) : Json := .array (ids.map fun id => .ofNat id.toNat)
  let usage (prompt completion cached : Int32) : Json := .object
    [("prompt_tokens", .number (.integer prompt.toInt)),
      ("completion_tokens", .number (.integer completion.toInt)),
      ("cached_tokens", .number (.integer cached.toInt))]
  match response.body with
  | some (.chunk chunk) => .object
      [("request_id", .string response.requestId), ("text", .string chunk.text),
        ("output_ids", ids chunk.tokenIds),
        ("usage", usage chunk.promptTokens chunk.completionTokens chunk.cachedTokens)]
  | some (.complete complete) => .object
      [("request_id", .string response.requestId), ("text", .string complete.text),
        ("output_ids", ids complete.outputIds), ("finish_reason", .string complete.finishReason),
        ("usage", usage complete.promptTokens complete.completionTokens complete.cachedTokens)]
  | some (.error message code) =>
      .object [("error", .object [("message", .string message), ("code", .string code)])]
  | none =>
      .object [("error", .object [("message", .string "gRPC GenerateResponse returned no body")])]

/-- Source: `proxy/mod.rs`, lines 1736–1777. -/
def generateFuture (endpoint : String) : GrpcFuture Json := do
  checked (protoNativeGenerateRequestFromJson lib.parseJson body)
  connect lib endpoint grpc
  call grpc fun _ => ()
  let first ← firstMessage grpc GrpcReplies.generate "gRPC native Generate returned no response"
  pure (protoGenerateResponseToJson first)

/-- Source: `proxy/mod.rs`, lines 1720–1810. -/
def forwardGrpcGenerateJsonTo : Forward Url Response :=
  forwardGrpc lib workerUrl .json (generateFuture lib grpc body)

/-- The paths of which the reply is a stream. -/
def openAiStreams : List String := ["/v1/chat/completions", "/v1/completions", "/v1/responses"]

/-- The paths of which the reply is one message. -/
def openAiCalls : List String := ["/v1/rerank", "/v1/score", "/v1/embeddings", "/v1/classify"]

/-- The router connects before it checks the body.

Source: `proxy/mod.rs`, lines 951–1034. -/
def openAiFuture (path endpoint : String) : GrpcFuture (List UInt8) := do
  connect lib endpoint grpc
  checked (openaiJsonRequestOptionsFromBody lib.parseJson body)
  if path ∈ openAiStreams then do
    call grpc fun _ => ()
    firstMessage grpc GrpcReplies.openAiJson "gRPC OpenAI JSON RPC returned no response"
  else call grpc GrpcReplies.openAiJson

/-- Source: `proxy/mod.rs`, lines 868–1067. -/
def forwardGrpcJsonTo (path : String) : Forward Url Response :=
  if path = "/generate" then forwardGrpcGenerateJsonTo lib workerUrl grpc body
  else if path = "/update_weights_from_disk" then
    forwardGrpcUpdateWeightsFromDisk lib workerUrl grpc body
  else if path = "/update_weight_version" then
    forwardGrpcUpdateWeightVersion lib workerUrl grpc body
  else if path = "/get_weights_by_name" then forwardGrpcGetWeightsByName lib workerUrl grpc body
  else if path = "/abort_request" then forwardGrpcAbortRequest lib workerUrl grpc body
  else if path = "/start_profile" then forwardGrpcStartProfile lib workerUrl grpc body
  else if path = "/stop_profile" then forwardGrpcControlRpc lib workerUrl grpc
  else if path = "/flush_cache" then forwardGrpcFlushCache lib workerUrl grpc
  else if path = "/poll_transfers" then forwardGrpcPollTransfers lib workerUrl grpc
  else if path = "/pause_generation" then forwardGrpcControlRpc lib workerUrl grpc
  else if path = "/continue_generation" then forwardGrpcControlRpc lib workerUrl grpc
  else if path ∈ openAiStreams ++ openAiCalls then
    forwardGrpc lib workerUrl .bytes (openAiFuture lib grpc body path)
  else failWith (.workerMisconfigured workerUrl
    [s!"gRPC worker transport does not support path {path}"])

end Control

/-! ### The forwards -/

variable (breaker : CircuitBreaker) (now : ℕ) (workerUrl : String)

/-- A forward that the breaker admits. -/
def admitted {α : Type} (forward : Forward Url α) : Forward Url α := do
  if ← allow breaker now then forward else throw (.breakerOpen workerUrl)

/-- Source: `proxy/mod.rs`, lines 676–743. -/
def forwardJsonTo (path : String) (body : List UInt8) (http : HttpExchange) (grpc : GrpcExchange) :
    Forward Url Response :=
  admitted breaker now workerUrl
    (if isGrpcWorkerUrl workerUrl then forwardGrpcJsonTo lib workerUrl grpc body path
    else forwardHttp lib workerUrl path http)

/-- Source: `proxy/mod.rs`, lines 745–817. -/
def forwardGetTo (path : String) (http : HttpExchange) : Forward Url Response :=
  admitted breaker now workerUrl
    (if isGrpcWorkerUrl workerUrl then failWith (.workerMisconfigured workerUrl
      [s!"gRPC worker transport does not support GET path {path}"])
    else forwardHttp lib workerUrl path http)

/-- Source: `proxy/mod.rs`, lines 819–866. -/
def loadForWorker (http : HttpExchange) (grpc : GrpcExchange) : Forward Url ℤ :=
  admitted breaker now workerUrl
    (if isGrpcWorkerUrl workerUrl then loadForGrpcWorker lib workerUrl grpc
    else loadHttp lib workerUrl http)

end Forwarding

end SglangRs.Router
