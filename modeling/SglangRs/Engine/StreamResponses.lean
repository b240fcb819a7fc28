import Mathlib.Data.List.Basic
import SglangRs.Scheduler.Request

/-!
# The responses of a streamed generation

A request is answered by a stream of responses: chunks of new tokens, and at the end a response with
all of them (`sglang-srt/src/router.rs`). The engine hands over its outputs in groups of tokens, the
last one marked as finished. The router turns them into responses twice: one by one, for a caller
that gives a sink (lines 1526–1590), and all together, for a caller that waits for the whole list
(lines 1615–1659).

The first way sends the last tokens as a chunk before the complete response, the second way does
not; the second way drops the chunks if the caller did not ask for a stream, the first way does not.

## Main definitions

* `RouterStreamState.responses`, `RouterStreamState.streamResponses`: the responses one by one.
* `tokenOutputsToGenerateResponses`: the responses all together.
* `FollowsStreamProtocol`: what a client relies on.

## Main results

* `stream_responses_agree_iff`: the two ways agree, and both keep to the protocol, exactly if the
  last output of a stream carries no tokens, or there is only one output and no stream is asked for.
-/

namespace SglangRs

/-- Source: `types.rs`, lines 73–78. -/
structure TokenGenerateOutput where
  requestId : RequestId
  outputIds : List UInt32
  cachedTokens : ℕ
  finished : Bool
deriving DecidableEq, Repr

structure RouterGenerateStreamChunk where
  tokenIds : List UInt32
  text : String := ""
  promptTokens : Int32
  completionTokens : Int32
  cachedTokens : Int32
  index : UInt32 := 0
deriving DecidableEq

structure RouterGenerateComplete where
  outputIds : List UInt32
  text : String := ""
  finishReason : String := "stop"
  promptTokens : Int32
  completionTokens : Int32
  cachedTokens : Int32
  index : UInt32 := 0
deriving DecidableEq

inductive RouterGenerateResponseBody where
  | chunk (chunk : RouterGenerateStreamChunk)
  | complete (complete : RouterGenerateComplete)
  | error (message : String)
deriving DecidableEq

structure RouterGenerateResponse where
  requestId : String
  body : RouterGenerateResponseBody
deriving DecidableEq

/-- The chunk with the tokens of an output, of which there are `total` so far. -/
def TokenGenerateOutput.chunk (output : TokenGenerateOutput) (promptTokens : Int32) (total : ℕ) :
    RouterGenerateResponse where
  requestId := output.requestId.asStr
  body := .chunk {
    tokenIds := output.outputIds
    promptTokens
    completionTokens := Int32.ofNat total
    cachedTokens := Int32.ofNat output.cachedTokens }

/-- The complete response with all tokens. -/
def TokenGenerateOutput.complete (output : TokenGenerateOutput) (promptTokens : Int32)
    (outputIds : List UInt32) : RouterGenerateResponse where
  requestId := output.requestId.asStr
  body := .complete {
    outputIds
    promptTokens
    completionTokens := Int32.ofNat outputIds.length
    cachedTokens := Int32.ofNat output.cachedTokens }

/-! ### Responses one by one -/

structure RouterStreamState where
  outputIds : List UInt32 := []
  promptTokens : Int32
  stream : Bool
deriving DecidableEq

namespace RouterStreamState

/-- Source: `router.rs`, lines 1541–1589. -/
def responses (state : RouterStreamState) (output : TokenGenerateOutput) :
    RouterStreamState × List RouterGenerateResponse :=
  let outputIds := state.outputIds ++ output.outputIds
  let state' := { state with outputIds }
  if output.finished then
    let complete := output.complete state.promptTokens outputIds
    if state.stream ∧ ¬output.outputIds.isEmpty then
      (state', [output.chunk state.promptTokens outputIds.length, complete])
    else (state', [complete])
  else (state', [output.chunk state.promptTokens outputIds.length])

/-- The responses to a list of outputs, in order. -/
def streamResponses : RouterStreamState → List TokenGenerateOutput → List RouterGenerateResponse
  | _, [] => []
  | state, output :: outputs =>
      let (state', here) := state.responses output
      here ++ streamResponses state' outputs

end RouterStreamState

/-! ### Responses all together -/

def RouterGenerateResponse.isComplete (response : RouterGenerateResponse) : Bool :=
  match response.body with
  | .complete _ => true
  | _ => false

/-- The loop over the outputs, with the tokens so far. -/
def collectResponses (promptTokens : Int32) :
    List UInt32 → List TokenGenerateOutput → List RouterGenerateResponse
  | _, [] => []
  | sofar, output :: outputs =>
      let outputIds := sofar ++ output.outputIds
      (if output.finished then output.complete promptTokens outputIds
        else output.chunk promptTokens outputIds.length) ::
        collectResponses promptTokens outputIds outputs

/-- Source: `router.rs`, lines 1615–1659. -/
def tokenOutputsToGenerateResponses (outputs : List TokenGenerateOutput) (promptTokens : Int32)
    (stream : Bool) : List RouterGenerateResponse :=
  let responses := collectResponses promptTokens [] outputs
  if stream then responses else responses.filter (·.isComplete)

/-! ### What a client relies on -/

/-- The tokens of the chunks, in order. -/
def chunkTokens (responses : List RouterGenerateResponse) : List UInt32 :=
  responses.flatMap fun response =>
    match response.body with
    | .chunk chunk => chunk.tokenIds
    | _ => []

/-- The last response is the complete one. In a stream the tokens of the chunks are those of the
complete response; otherwise there is no other response. -/
def FollowsStreamProtocol (stream : Bool) (responses : List RouterGenerateResponse) : Prop :=
  ∃ before id complete, responses = before ++ [⟨id, .complete complete⟩] ∧
    (stream = true → chunkTokens responses = complete.outputIds) ∧ (stream = false → before = [])

/-! ### The two lists of responses -/

/-- The chunks of some outputs, after the given tokens. -/
def chunksAfter (promptTokens : Int32) :
    List UInt32 → List TokenGenerateOutput → List RouterGenerateResponse
  | _, [] => []
  | sofar, output :: outputs =>
      let outputIds := sofar ++ output.outputIds
      output.chunk promptTokens outputIds.length :: chunksAfter promptTokens outputIds outputs

/-- The tokens of some outputs. -/
def outputTokens (outputs : List TokenGenerateOutput) : List UInt32 := outputs.flatMap (·.outputIds)

section Lists

variable {outs : List TokenGenerateOutput} {last : TokenGenerateOutput} {promptTokens : Int32}

@[simp] theorem outputTokens_append_singleton :
    outputTokens (outs ++ [last]) = outputTokens outs ++ last.outputIds := by
  simp [outputTokens]

theorem chunkTokens_append (rs rs' : List RouterGenerateResponse) :
    chunkTokens (rs ++ rs') = chunkTokens rs ++ chunkTokens rs' :=
  List.flatMap_append

theorem chunkTokens_chunksAfter (promptTokens : Int32) (sofar : List UInt32)
    (outs : List TokenGenerateOutput) :
    chunkTokens (chunksAfter promptTokens sofar outs) = outputTokens outs := by
  induction outs generalizing sofar with
  | nil => rfl
  | cons output outs ih => exact congrArg (output.outputIds ++ ·) (ih _)

theorem length_chunksAfter (promptTokens : Int32) (sofar : List UInt32)
    (outs : List TokenGenerateOutput) :
    (chunksAfter promptTokens sofar outs).length = outs.length := by
  induction outs generalizing sofar with
  | nil => rfl
  | cons output outs ih => exact congrArg (· + 1) (ih _)

theorem filter_chunksAfter (promptTokens : Int32) (sofar : List UInt32)
    (outs : List TokenGenerateOutput) :
    (chunksAfter promptTokens sofar outs).filter (·.isComplete) = [] := by
  induction outs generalizing sofar with
  | nil => rfl
  | cons output outs ih => exact ih _

/-- The chunk of the last tokens, which is sent in a stream if there are any. -/
def lastChunk (promptTokens : Int32) (stream : Bool) (total : ℕ) (last : TokenGenerateOutput) :
    List RouterGenerateResponse :=
  if stream ∧ ¬last.outputIds.isEmpty then [last.chunk promptTokens total] else []

/-- The responses one by one. -/
theorem streamResponses_eq (houts : ∀ o ∈ outs, o.finished = false) (hlast : last.finished = true)
    (sofar : List UInt32) (stream : Bool) :
    RouterStreamState.streamResponses ⟨sofar, promptTokens, stream⟩ (outs ++ [last]) =
      chunksAfter promptTokens sofar outs ++
        (lastChunk promptTokens stream (sofar ++ outputTokens (outs ++ [last])).length last ++
          [last.complete promptTokens (sofar ++ outputTokens (outs ++ [last]))]) := by
  induction outs generalizing sofar with
  | nil =>
      have htokens : outputTokens [last] = last.outputIds := by simp [outputTokens]
      simp only [List.nil_append, RouterStreamState.streamResponses, RouterStreamState.responses,
        hlast, if_true, chunksAfter, lastChunk, htokens]
      split_ifs <;> rfl
  | cons output outs ih =>
      have houtput := houts output List.mem_cons_self
      have hrest := ih (fun o ho => houts o (List.mem_cons_of_mem _ ho)) (sofar ++ output.outputIds)
      have htokens : outputTokens (output :: (outs ++ [last])) =
          output.outputIds ++ outputTokens (outs ++ [last]) := List.flatMap_cons
      simp only [List.cons_append, RouterStreamState.streamResponses, RouterStreamState.responses,
        houtput, Bool.false_eq_true, if_false, chunksAfter, hrest, htokens, List.append_assoc,
        List.nil_append]

/-- The loop yields what a stream yields that leaves out the last chunk. -/
theorem collectResponses_eq_streamResponses (sofar : List UInt32)
    (outputs : List TokenGenerateOutput) :
    collectResponses promptTokens sofar outputs =
      RouterStreamState.streamResponses ⟨sofar, promptTokens, false⟩ outputs := by
  induction outputs generalizing sofar with
  | nil => rfl
  | cons output outputs ih =>
      rw [collectResponses, RouterStreamState.streamResponses, RouterStreamState.responses, ih]
      cases output.finished <;> rfl

/-- The responses all together. -/
theorem collectResponses_eq (houts : ∀ o ∈ outs, o.finished = false)
    (hlast : last.finished = true) (sofar : List UInt32) :
    collectResponses promptTokens sofar (outs ++ [last]) =
      chunksAfter promptTokens sofar outs ++
        [last.complete promptTokens (sofar ++ outputTokens (outs ++ [last]))] := by
  rw [collectResponses_eq_streamResponses, streamResponses_eq houts hlast, lastChunk,
    if_neg (by simp), List.nil_append]

/-- The responses to a whole request, all together. -/
theorem tokenOutputsToGenerateResponses_eq (houts : ∀ o ∈ outs, o.finished = false)
    (hlast : last.finished = true) (stream : Bool) :
    tokenOutputsToGenerateResponses (outs ++ [last]) promptTokens stream =
      (if stream then chunksAfter promptTokens [] outs else []) ++
        [last.complete promptTokens (outputTokens (outs ++ [last]))] := by
  rw [tokenOutputsToGenerateResponses, collectResponses_eq houts hlast, List.nil_append]
  cases stream with
  | true => rfl
  | false =>
      rw [List.filter_append, filter_chunksAfter]
      rfl

end Lists

/-- The protocol for responses that end with the complete one. -/
theorem followsStreamProtocol_iff {stream : Bool} {before : List RouterGenerateResponse}
    {last : TokenGenerateOutput} {promptTokens : Int32} {tokens : List UInt32} :
    FollowsStreamProtocol stream (before ++ [last.complete promptTokens tokens]) ↔
      (stream = true → chunkTokens before = tokens) ∧ (stream = false → before = []) := by
  have hcomplete : chunkTokens (before ++ [last.complete promptTokens tokens]) =
      chunkTokens before := by
    rw [chunkTokens_append]
    exact List.append_nil _
  rw [FollowsStreamProtocol, hcomplete]
  constructor
  · rintro ⟨before', id, complete, heq, hprotocol⟩
    obtain ⟨rfl, hlast⟩ := List.append_inj' heq rfl
    have hbody := congrArg RouterGenerateResponse.body (List.singleton_inj.mp hlast)
    rw [← RouterGenerateResponseBody.complete.inj hbody] at hprotocol
    exact hprotocol
  · exact fun h => ⟨before, _, _, rfl, h⟩

/-- **When the two ways to stream agree.** For every list of outputs of a request, finished exactly
at the last one: the responses one by one are those all together, and both follow the protocol,
exactly if the last output of a stream has no tokens, and there is no other output if no stream is
asked for. -/
theorem stream_responses_agree_iff {outs : List TokenGenerateOutput} {last : TokenGenerateOutput}
    (houts : ∀ o ∈ outs, o.finished = false) (hlast : last.finished = true)
    (promptTokens : Int32) (stream : Bool) :
    (RouterStreamState.streamResponses { promptTokens, stream } (outs ++ [last]) =
        tokenOutputsToGenerateResponses (outs ++ [last]) promptTokens stream ∧
      FollowsStreamProtocol stream
        (RouterStreamState.streamResponses { promptTokens, stream } (outs ++ [last])) ∧
      FollowsStreamProtocol stream
        (tokenOutputsToGenerateResponses (outs ++ [last]) promptTokens stream)) ↔
    (stream = true → last.outputIds = []) ∧ (stream = false → outs = []) := by
  have hchunks := chunkTokens_chunksAfter promptTokens [] outs
  have hlength := length_chunksAfter promptTokens [] outs
  rw [streamResponses_eq houts hlast, tokenOutputsToGenerateResponses_eq houts hlast,
    List.nil_append, ← List.append_assoc, List.append_left_inj, followsStreamProtocol_iff,
    followsStreamProtocol_iff, outputTokens_append_singleton]
  cases stream with
  | true =>
      simp only [true_implies, reduceCtorEq, false_implies, and_true, if_true]
      constructor
      · rintro ⟨-, -, htokens⟩
        rw [hchunks] at htokens
        exact List.self_eq_append_right.mp htokens
      · intro hnil
        have hlastChunk (total : ℕ) : lastChunk promptTokens true total last = [] := by
          simp [lastChunk, hnil]
        rw [hlastChunk, List.append_nil, hchunks, hnil, List.append_nil]
        exact ⟨rfl, rfl, rfl⟩
  | false =>
      have hlastChunk (total : ℕ) : lastChunk promptTokens false total last = [] := by
        simp [lastChunk]
      rw [hlastChunk, List.append_nil]
      simp only [true_implies, false_implies, true_and, if_false, and_true, Bool.false_eq_true]
      rw [← List.length_eq_zero_iff, hlength, List.length_eq_zero_iff, and_self]

/-- An output of request `a`. -/
def outputOf (outputIds : List UInt32) (finished : Bool) : TokenGenerateOutput where
  requestId := ⟨"a"⟩
  outputIds
  cachedTokens := 0
  finished

/-- One output after the other, the last one with a token: the two ways differ, with and without a
stream. The one that waits for the whole list loses the last token from the chunks, the other one
sends a chunk that was not asked for. -/
theorem stream_responses_differ :
    ¬(RouterStreamState.streamResponses ⟨[], 3, true⟩ [outputOf [1] false, outputOf [2] true] =
        tokenOutputsToGenerateResponses [outputOf [1] false, outputOf [2] true] 3 true) ∧
      ¬FollowsStreamProtocol true
        (tokenOutputsToGenerateResponses [outputOf [1] false, outputOf [2] true] 3 true) ∧
      ¬FollowsStreamProtocol false
        (RouterStreamState.streamResponses ⟨[], 3, false⟩
          [outputOf [1] false, outputOf [2] true]) := by
  refine ⟨by decide, fun h => ?_, fun h => ?_⟩
  · have hprotocol : FollowsStreamProtocol true ([(outputOf [1] false).chunk 3 1] ++
        [(outputOf [2] true).complete 3 [1, 2]]) := h
    exact absurd ((followsStreamProtocol_iff.mp hprotocol).1 rfl) (by decide)
  · have hprotocol : FollowsStreamProtocol false ([(outputOf [1] false).chunk 3 1] ++
        [(outputOf [2] true).complete 3 [1, 2]]) := h
    exact absurd ((followsStreamProtocol_iff.mp hprotocol).2 rfl) (by decide)

/-- A stream whose last output has no tokens. -/
theorem stream_responses_agree_of_empty_last :
    RouterStreamState.streamResponses ⟨[], 3, true⟩ [outputOf [1] false, outputOf [] true] =
      tokenOutputsToGenerateResponses [outputOf [1] false, outputOf [] true] 3 true :=
  ((@stream_responses_agree_iff [outputOf [1] false] (outputOf [] true) (by decide) rfl 3
    true).mpr (by decide)).1

end SglangRs
