import SglangRs.Collections.FallibleMap
import SglangRs.Engine.StreamResponses
import SglangRs.Wire.IncrementalText

/-!
# The text of a streamed generation

The router decodes what it streams (`sglang-srt/src/router.rs`, lines 1141–1271 and 1592–1613). The
byte tokenizer (`tokenizer.rs`, lines 93–149) has a token for every byte, so a character may span
several tokens, and the engine may cut the tokens within a character.

A caller that waits for the whole list gets every chunk decoded on its own; a chunk that ends within
a character makes the whole call fail. A caller that gives a sink gets the chunks through an
incremental decoder, which keeps the bytes of an unfinished character for the next token.

The validation of a request and the engine are a parameter of the calls: what they answer is the
number of prompt tokens and the outputs of the engine.

## Main definitions

* `ByteTokenizer.decode`, `ByteIncrementalDecoder.step`.
* `generateTextStream`, `generateTextBatchStream`, `generateTextStreamWithSink`: the calls.
* `Generation.StreamsText`: the chunks of a stream make up the text of the complete response.

## Main results

* `Generation.streamsText_sink`: with a sink the text is always right.
* `streams_text_iff`: all three calls are right exactly if every output ends between two characters
  and the last one has no tokens.
-/

namespace SglangRs

/-! ### The byte tokenizer -/

inductive TokenizerError where
  | invalidUtf8
deriving DecidableEq, Repr

namespace ByteTokenizer

def encode (text : String) : List UInt32 := (utf8 text).map UInt8.toUInt32

/-- The byte of a token. -/
def tokenByte (tokenId : UInt32) : Except TokenizerError UInt8 :=
  if tokenId < 256 then .ok tokenId.toUInt8 else .error .invalidUtf8

/-- Source: `tokenizer.rs`, lines 98–105. -/
def decode (tokenIds : List UInt32) : Except TokenizerError String := do
  let bytes ← tokenIds.mapM tokenByte
  match fromUtf8 bytes with
  | some text => return text
  | none => throw .invalidUtf8

end ByteTokenizer

structure ByteIncrementalDecoder where
  pending : Bytes := []
deriving DecidableEq

/-- Source: `tokenizer.rs`, lines 136–148. -/
def ByteIncrementalDecoder.step (decoder : ByteIncrementalDecoder) (tokenId : UInt32) :
    ByteIncrementalDecoder × Except TokenizerError (Option String) :=
  match ByteTokenizer.tokenByte tokenId with
  | .error error => (decoder, .error error)
  | .ok byte =>
      let pending := decoder.pending ++ [byte]
      match fromUtf8 pending with
      | some text => (⟨[]⟩, .ok (some text))
      | none => (⟨pending⟩, if IsIncomplete pending then .ok none else .error .invalidUtf8)

/-! ### The text of a response -/

/-- Source: `router.rs`, lines 1249–1271. -/
def fillGenerateResponseText (response : RouterGenerateResponse) :
    Except TokenizerError RouterGenerateResponse :=
  match response.body with
  | .chunk chunk => do
      let text ← ByteTokenizer.decode chunk.tokenIds
      return { response with body := .chunk { chunk with text } }
  | .complete complete => do
      let text ← ByteTokenizer.decode complete.outputIds
      return { response with body := .complete { complete with text } }
  | .error _ => return response

/-- The loop over the tokens of a chunk. -/
def pushTokens : ByteIncrementalDecoder → List UInt32 → String →
    ByteIncrementalDecoder × Except TokenizerError String
  | decoder, [], text => (decoder, .ok text)
  | decoder, tokenId :: tokenIds, text =>
      match decoder.step tokenId with
      | (decoder, .error error) => (decoder, .error error)
      | (decoder, .ok none) => pushTokens decoder tokenIds text
      | (decoder, .ok (some more)) => pushTokens decoder tokenIds (text ++ more)

/-- Source: `router.rs`, lines 1592–1613. -/
def fillIncrementalResponseText (decoder : ByteIncrementalDecoder)
    (response : RouterGenerateResponse) :
    ByteIncrementalDecoder × Except TokenizerError RouterGenerateResponse :=
  match response.body with
  | .chunk chunk =>
      let (decoder, text) := pushTokens decoder chunk.tokenIds chunk.text
      (decoder, text.map fun text => { response with body := .chunk { chunk with text } })
  | .complete complete =>
      (decoder, (ByteTokenizer.decode complete.outputIds).map fun text =>
        { response with body := .complete { complete with text } })
  | .error _ => (decoder, .ok response)

/-! ### Calls -/

/-- Hand the entries of a list to a function, in order, until it returns `false`. -/
def feed {σ α : Type} (sink : σ → α → σ × Bool) : σ → List α → σ × Bool
  | s, [] => (s, true)
  | s, a :: as =>
      match sink s a with
      | (s, true) => feed sink s as
      | (s, false) => (s, false)

/-- What the engine does with a request if it is not stopped: its outputs, and how it ends. -/
structure EngineStream (ε : Type) where
  outputs : List TokenGenerateOutput
  outcome : Except ε Unit

/-- The engine is stopped by a sink that returns `false`, and then returns without an error. -/
def EngineStream.withSink {ε σ : Type} (engine : EngineStream ε)
    (sink : σ → TokenGenerateOutput → σ × Bool) (s : σ) : σ × Except ε Unit :=
  match feed sink s engine.outputs with
  | (s, true) => (s, engine.outcome)
  | (s, false) => (s, .ok ())

/-- The outputs as a list. -/
def EngineStream.collect {ε : Type} (engine : EngineStream ε) :
    Except ε (List TokenGenerateOutput) :=
  engine.outcome.map fun _ => engine.outputs

/-- A request for tokens. What is passed on unchanged is `params`. -/
structure RouterGenerateRequest (Params : Type) where
  requestId : String
  originalText : String
  inputIds : List UInt32
  stream : Bool
  params : Params

structure RouterTextGenerateRequest (Params : Type) where
  requestId : String
  text : String
  stream : Bool
  params : Params

/-- The request with the text as tokens. -/
def RouterTextGenerateRequest.tokenize {Params : Type} (request : RouterTextGenerateRequest Params)
    (stream : Bool) : RouterGenerateRequest Params where
  requestId := request.requestId
  originalText := request.text
  inputIds := ByteTokenizer.encode request.text
  stream
  params := request.params

inductive RouterRuntimeError (ε : Type) where
  | emptyTextInput
  | tokenizer (error : TokenizerError)
  | runtime (error : ε)
deriving DecidableEq, Repr

section Calls

variable {ε Params σ : Type}
  (submit : RouterGenerateRequest Params → Except ε (Int32 × EngineStream ε))
  (submitBatch : List (RouterGenerateRequest Params) →
    Except ε (List (Int32 × List TokenGenerateOutput)))

/-- Source: `router.rs`, lines 1044–1067. -/
def generateStream (request : RouterGenerateRequest Params) :
    Except ε (List RouterGenerateResponse) := do
  let (promptTokens, engine) ← submit request
  let outputs ← engine.collect
  return tokenOutputsToGenerateResponses outputs promptTokens request.stream

/-- Source: `router.rs`, lines 1069–1100. -/
def generateStreamWithSink (request : RouterGenerateRequest Params)
    (sink : σ → RouterGenerateResponse → σ × Bool) (s : σ) : σ × Except ε Unit :=
  match submit request with
  | .error error => (s, .error error)
  | .ok (promptTokens, engine) =>
      let ((_, s), result) := engine.withSink (fun (state, s) output =>
        let (state, responses) := state.responses output
        let (s, more) := feed sink s responses
        ((state, s), more)) (({ promptTokens, stream := request.stream } : RouterStreamState), s)
      (s, result)

/-- Source: `router.rs`, lines 1102–1139. -/
def generateBatchStream (requests : List (RouterGenerateRequest Params)) :
    Except ε (List (List RouterGenerateResponse)) := do
  let batch ← submitBatch requests
  return (batch.zip requests).map fun ((promptTokens, outputs), request) =>
    tokenOutputsToGenerateResponses outputs promptTokens request.stream

/-- Source: `router.rs`, lines 1141–1169. -/
def generateTextStream (request : RouterTextGenerateRequest Params) :
    Except (RouterRuntimeError ε) (List RouterGenerateResponse) :=
  if request.text.isEmpty then .error .emptyTextInput
  else do
    let responses ← (generateStream submit (request.tokenize request.stream)).mapError .runtime
    (responses.mapM fillGenerateResponseText).mapError .tokenizer

/-- The state of the closure between the engine and the sink of a caller. -/
structure TextSink (σ : Type) where
  decoder : ByteIncrementalDecoder := {}
  decodeError : Option TokenizerError := none
  sink : σ

/-- The closure fills in the text and hands the response on; it stops the engine if the text cannot
be decoded.

Source: `router.rs`, lines 1200–1209. -/
def TextSink.push (sink : σ → RouterGenerateResponse → σ × Bool) (s : TextSink σ)
    (response : RouterGenerateResponse) : TextSink σ × Bool :=
  match fillIncrementalResponseText s.decoder response with
  | (decoder, .error error) => ({ s with decoder, decodeError := some error }, false)
  | (decoder, .ok response) =>
      let (t, more) := sink s.sink response
      ({ s with decoder, sink := t }, more)

/-- The caller always gets a stream.

Source: `router.rs`, lines 1171–1215. -/
def generateTextStreamWithSink (request : RouterTextGenerateRequest Params)
    (sink : σ → RouterGenerateResponse → σ × Bool) (s : σ) :
    σ × Except (RouterRuntimeError ε) Unit :=
  if request.text.isEmpty then (s, .error .emptyTextInput)
  else
    match generateStreamWithSink submit (request.tokenize true) (TextSink.push sink)
        { sink := s } with
    | (s, .error error) => (s.sink, .error (.runtime error))
    | (s, .ok ()) =>
        match s.decodeError with
        | some error => (s.sink, .error (.tokenizer error))
        | none => (s.sink, .ok ())

/-- Source: `router.rs`, lines 1217–1247. -/
def generateTextBatchStream (requests : List (RouterTextGenerateRequest Params)) :
    Except (RouterRuntimeError ε) (List (List RouterGenerateResponse)) :=
  if requests.any (·.text.isEmpty) then .error .emptyTextInput
  else do
    let batch ← (generateBatchStream submitBatch
      (requests.map fun request => request.tokenize request.stream)).mapError .runtime
    batch.mapM fun responses => (responses.mapM fillGenerateResponseText).mapError .tokenizer

end Calls

/-! ### What the caller relies on -/

/-- The text of a chunk. -/
def RouterGenerateResponse.chunkText (response : RouterGenerateResponse) : String :=
  match response.body with
  | .chunk chunk => chunk.text
  | _ => ""

/-- The texts of the chunks, one after the other. -/
def chunkText (responses : List RouterGenerateResponse) : String :=
  responses.foldr (fun response text => response.chunkText ++ text) ""

/-- A request for a stream of text, the outputs of the engine, cut in any way and finished at the
last one, and the text that they decode to. -/
structure Generation (Params : Type) where
  request : RouterTextGenerateRequest Params
  promptTokens : Int32
  outs : List TokenGenerateOutput
  last : TokenGenerateOutput
  text : String
  text_ne : request.text.isEmpty = false
  stream_eq : request.stream = true
  outs_unfinished : ∀ o ∈ outs, o.finished = false
  last_finished : last.finished = true
  decodes : ByteTokenizer.decode (outputTokens (outs ++ [last])) = .ok text

namespace Generation

variable {Params : Type} (g : Generation Params)

/-- The tokens that were generated. -/
def tokens : List UInt32 := outputTokens (g.outs ++ [g.last])

/-- The stream ends with a complete response that has all tokens and their text, and the texts of
the chunks make up that text. -/
def StreamsText (responses : List RouterGenerateResponse) : Prop :=
  ∃ before id complete, responses = before ++ [⟨id, .complete complete⟩] ∧
    complete.outputIds = g.tokens ∧ complete.text = g.text ∧ chunkText responses = complete.text

/-- The outputs end between characters, and the last one has no tokens. -/
structure CutsBetweenCharacters : Prop where
  decodes : ∀ o ∈ g.outs, ∃ text, ByteTokenizer.decode o.outputIds = .ok text
  last_empty : g.last.outputIds = []

end Generation

/-! ### Decoded tokens -/

section Decode

variable {tokenIds tokenIds' : List UInt32} {text text' : String}

open ByteTokenizer

/-- Tokens decode to the text of which they are the bytes. -/
theorem decode_eq_ok_iff :
    decode tokenIds = .ok text ↔ tokenIds.mapM tokenByte = .ok (utf8Bytes text.toList) := by
  have htext (bytes : Bytes) : fromUtf8 bytes = some text ↔ bytes = utf8Bytes text.toList := by
    rw [← fromUtf8_eq_some_iff, String.ofList_toList]
  rw [decode]
  cases hbytes : tokenIds.mapM tokenByte with
  | error error => simp [bind, Except.bind]
  | ok bytes =>
      rw [Except.ok.injEq, ← htext]
      cases hread : fromUtf8 bytes with
      | none => simp [bind, Except.bind, hread, throw, throwThe, MonadExceptOf.throw]
      | some read => simp [bind, Except.bind, hread, pure, Except.pure]

theorem decode_append (h : decode tokenIds = .ok text) (h' : decode tokenIds' = .ok text') :
    decode (tokenIds ++ tokenIds') = .ok (text ++ text') := by
  rw [decode_eq_ok_iff] at *
  rw [mapM_append_eq_ok_iff]
  exact ⟨_, _, h, h', by simp⟩

/-- Of tokens that decode, of which the first ones do, the others do as well. -/
theorem decode_of_append (h : decode (tokenIds ++ tokenIds') = .ok text)
    (hfirst : decode tokenIds = .ok text') : ∃ rest, decode tokenIds' = .ok rest := by
  rw [decode_eq_ok_iff] at h hfirst
  obtain ⟨bytes, bytes', hbytes, hbytes', happend⟩ := mapM_append_eq_ok_iff.mp h
  obtain rfl := Except.ok.inj (hbytes.symm.trans hfirst)
  obtain ⟨ds, ds', -, -, rfl⟩ := exists_fromUtf8_append happend.symm (by
    rw [fromUtf8_eq_some_iff.mpr rfl]
    rfl)
  exact ⟨String.ofList ds', by rw [decode_eq_ok_iff, hbytes', String.toList_ofList]⟩

theorem decode_nil : decode [] = .ok "" := by
  rw [decode_eq_ok_iff]
  rfl

/-- Only no tokens decode to the empty text. -/
theorem eq_nil_of_decode (h : decode tokenIds = .ok "") : tokenIds = [] := by
  rw [decode_eq_ok_iff, mapM_eq_ok_iff] at h
  exact List.forall₂_nil_right_iff.mp h

end Decode

/-! ### Chunks that are decoded on their own -/

section Collected

variable {outs : List TokenGenerateOutput} {promptTokens : Int32}

theorem fillGenerateResponseText_chunk (o : TokenGenerateOutput) (promptTokens : Int32)
    (total : ℕ) {response : RouterGenerateResponse} :
    fillGenerateResponseText (o.chunk promptTokens total) = .ok response →
      ByteTokenizer.decode o.outputIds = .ok response.chunkText := by
  intro h
  simp only [fillGenerateResponseText, TokenGenerateOutput.chunk] at h
  cases htext : ByteTokenizer.decode o.outputIds with
  | error error =>
      rw [htext] at h
      cases h
  | ok text =>
      rw [htext] at h
      rw [← Except.ok.inj h]
      rfl

theorem exists_fill_chunk {o : TokenGenerateOutput} {text : String} (promptTokens : Int32)
    (total : ℕ) (h : ByteTokenizer.decode o.outputIds = .ok text) :
    ∃ response, fillGenerateResponseText (o.chunk promptTokens total) = .ok response := by
  simp only [fillGenerateResponseText, TokenGenerateOutput.chunk, h]
  exact ⟨_, rfl⟩

/-- The chunks can be filled in exactly if each of them decodes on its own; then their texts make up
the text of their tokens. -/
theorem fill_chunksAfter (promptTokens : Int32) (sofar : List UInt32)
    (outs : List TokenGenerateOutput) :
    ((∃ responses, (chunksAfter promptTokens sofar outs).mapM fillGenerateResponseText =
        .ok responses) ↔ ∀ o ∈ outs, ∃ text, ByteTokenizer.decode o.outputIds = .ok text) ∧
    ∀ responses, (chunksAfter promptTokens sofar outs).mapM fillGenerateResponseText =
        .ok responses →
      ByteTokenizer.decode (outputTokens outs) = .ok (chunkText responses) := by
  induction outs generalizing sofar with
  | nil =>
      refine ⟨iff_of_true ⟨[], rfl⟩ (List.forall_mem_nil _), fun responses h => ?_⟩
      rw [← Except.ok.inj h]
      exact decode_nil
  | cons o outs ih =>
      obtain ⟨ihok, ihtext⟩ := ih (sofar ++ o.outputIds)
      simp only [chunksAfter, mapM_cons_eq_ok, List.forall_mem_cons]
      constructor
      · rw [← ihok]
        constructor
        · rintro ⟨_, response, responses, hresponse, hresponses, rfl⟩
          exact ⟨⟨_, fillGenerateResponseText_chunk o _ _ hresponse⟩, _, hresponses⟩
        · rintro ⟨⟨text, htext⟩, responses, hresponses⟩
          obtain ⟨response, hresponse⟩ := exists_fill_chunk promptTokens
            (sofar ++ o.outputIds).length htext
          exact ⟨_, response, responses, hresponse, hresponses, rfl⟩
      · rintro _ ⟨response, responses, hresponse, hresponses, rfl⟩
        exact decode_append (fillGenerateResponseText_chunk o _ _ hresponse)
          (ihtext responses hresponses)

theorem chunkText_append (rs rs' : List RouterGenerateResponse) :
    chunkText (rs ++ rs') = chunkText rs ++ chunkText rs' := by
  induction rs with
  | nil => exact (String.empty_append).symm
  | cons r rs ih => rw [List.cons_append, chunkText, List.foldr_cons, ← chunkText, ih,
      ← String.append_assoc]; rfl

end Collected

/-! ### Chunks that are decoded one after the other -/

section Incremental

variable {d : ByteIncrementalDecoder} {rest : Bytes} {cs : List Char}

/-- The decoder keeps the bytes of an unfinished character, and its text is that of the characters
that are finished. -/
theorem pushTokens_eq {tokenIds : List UInt32} {bytes : Bytes}
    (hbytes : tokenIds.mapM ByteTokenizer.tokenByte = .ok bytes)
    (h : Undecoded d.pending (bytes ++ rest) cs) (text : String) :
    ∃ d' ds cs', cs = ds ++ cs' ∧ Undecoded d'.pending rest cs' ∧
      pushTokens d tokenIds text = (d', .ok (text ++ String.ofList ds)) := by
  induction tokenIds generalizing d bytes cs text with
  | nil =>
      obtain rfl := Except.ok.inj hbytes
      exact ⟨d, [], cs, rfl, h, by simp [pushTokens]⟩
  | cons tokenId tokenIds ih =>
      obtain ⟨byte, bytes, hbyte, hmore, rfl⟩ := mapM_cons_eq_ok.mp hbytes
      obtain ⟨hnone, hincomplete, hnext⟩ | ⟨c, cs, rfl, hchar, hnext⟩ := h.cons
      · obtain ⟨d', ds, cs', hcs, hleft, hpush⟩ :=
          ih (d := ⟨d.pending ++ [byte]⟩) hmore hnext text
        refine ⟨d', ds, cs', hcs, hleft, ?_⟩
        simp only [pushTokens, ByteIncrementalDecoder.step, hbyte, hnone, hincomplete, if_true]
        exact hpush
      · obtain ⟨d', ds, cs', rfl, hleft, hpush⟩ :=
          ih (d := ⟨[]⟩) hmore hnext (text ++ String.ofList [c])
        refine ⟨d', c :: ds, cs', rfl, hleft, ?_⟩
        simp only [pushTokens, ByteIncrementalDecoder.step, hbyte, hchar]
        rw [hpush, String.append_assoc, ← String.ofList_append]
        rfl

theorem feed_append {σ α : Type} (sink : σ → α → σ × Bool) (s : σ) (as bs : List α) :
    feed sink s (as ++ bs) =
      if (feed sink s as).2 then feed sink (feed sink s as).1 bs else feed sink s as := by
  induction as generalizing s with
  | nil => rfl
  | cons a as ih =>
      rw [List.cons_append, feed, feed]
      obtain ⟨s', more⟩ := sink s a
      cases more with
      | true => exact ih s'
      | false => rfl

/-- A sink between the engine and the caller gets the responses to all outputs. -/
theorem feed_responses {σ : Type} (sink : σ → RouterGenerateResponse → σ × Bool)
    (state : RouterStreamState) (s : σ) (outputs : List TokenGenerateOutput) :
    let result := feed (fun (x : RouterStreamState × σ) output =>
      let (state, responses) := x.1.responses output
      let (s, more) := feed sink x.2 responses
      ((state, s), more)) (state, s) outputs
    (result.1.2, result.2) = feed sink s (state.streamResponses outputs) := by
  induction outputs generalizing state s with
  | nil => rfl
  | cons output outputs ih =>
      simp only [feed, RouterStreamState.streamResponses, feed_append]
      obtain ⟨state', responses⟩ := state.responses output
      dsimp only
      cases hfeed : feed sink s responses with
      | mk s' more =>
          cases more with
          | true => exact ih state' s'
          | false => rfl

/-- A sink that keeps everything. -/
def record (responses : List RouterGenerateResponse) (response : RouterGenerateResponse) :
    List RouterGenerateResponse × Bool :=
  (responses ++ [response], true)

/-- Chunks whose text is not filled in yet. -/
def IsBareChunk (response : RouterGenerateResponse) : Prop :=
  ∃ id chunk, response = ⟨id, .chunk chunk⟩ ∧ chunk.text = ""

/-- All chunks are filled in and handed on. -/
theorem feed_chunks {responses : List RouterGenerateResponse} {bytes : Bytes}
    (hbare : ∀ r ∈ responses, IsBareChunk r)
    (hbytes : (chunkTokens responses).mapM ByteTokenizer.tokenByte = .ok bytes)
    (h : Undecoded d.pending (bytes ++ rest) cs) (sofar : List RouterGenerateResponse) :
    ∃ d' ds cs' filled, cs = ds ++ cs' ∧ Undecoded d'.pending rest cs' ∧
      chunkText filled = String.ofList ds ∧
      feed (TextSink.push record) ⟨d, none, sofar⟩ responses =
        (⟨d', none, sofar ++ filled⟩, true) := by
  induction responses generalizing d bytes cs sofar with
  | nil =>
      obtain rfl := Except.ok.inj hbytes
      exact ⟨d, [], cs, [], rfl, h, rfl, by simp [feed]⟩
  | cons response responses ih =>
      obtain ⟨id, chunk, rfl, hempty⟩ := hbare response List.mem_cons_self
      have htokens : chunkTokens (⟨id, .chunk chunk⟩ :: responses) =
          chunk.tokenIds ++ chunkTokens responses := rfl
      rw [htokens, mapM_append_eq_ok_iff] at hbytes
      obtain ⟨bytes₁, bytes₂, hfirst, hmore, rfl⟩ := hbytes
      rw [List.append_assoc] at h
      obtain ⟨d₁, ds₁, cs₁, rfl, hleft, hpush⟩ := pushTokens_eq hfirst h chunk.text
      rw [hempty, String.empty_append] at hpush
      let filled : RouterGenerateResponse :=
        ⟨id, .chunk { chunk with text := String.ofList ds₁ }⟩
      obtain ⟨d₂, ds₂, cs₂, more, rfl, hleft₂, htext, hfeed⟩ := ih
        (fun r hr => hbare r (List.mem_cons_of_mem _ hr)) hmore hleft (sofar ++ [filled])
      refine ⟨d₂, ds₁ ++ ds₂, cs₂, filled :: more, by rw [List.append_assoc], hleft₂, ?_, ?_⟩
      · rw [chunkText, List.foldr_cons, ← chunkText, htext, String.ofList_append]
        rfl
      · have hfill : TextSink.push record ⟨d, none, sofar⟩ ⟨id, .chunk chunk⟩ =
            (⟨d₁, none, sofar ++ [filled]⟩, true) := by
          simp only [TextSink.push, fillIncrementalResponseText, hempty, hpush, Except.map, record]
          rfl
        rw [feed, hfill]
        dsimp only
        rw [hfeed, List.append_assoc]
        rfl

theorem isBareChunk_of_mem_chunksAfter {promptTokens : Int32} {sofar : List UInt32}
    {outs : List TokenGenerateOutput} :
    ∀ r ∈ chunksAfter promptTokens sofar outs, IsBareChunk r := by
  induction outs generalizing sofar with
  | nil => exact List.forall_mem_nil _
  | cons o outs ih => exact List.forall_mem_cons.mpr ⟨⟨_, _, rfl, rfl⟩, ih⟩

theorem isBareChunk_of_mem_lastChunk {promptTokens : Int32} {stream : Bool} {total : ℕ}
    {last : TokenGenerateOutput} :
    ∀ r ∈ lastChunk promptTokens stream total last, IsBareChunk r := by
  intro r hr
  rw [lastChunk] at hr
  split_ifs at hr
  · exact ⟨_, _, List.mem_singleton.mp hr, rfl⟩
  · cases hr

theorem chunkTokens_lastChunk (promptTokens : Int32) (total : ℕ) (last : TokenGenerateOutput) :
    chunkTokens (lastChunk promptTokens true total last) = last.outputIds := by
  rw [lastChunk]
  split_ifs with hne
  · exact List.append_nil _
  · have hnil : last.outputIds = [] := by simpa using hne
    rw [hnil]
    rfl

/-- An engine that is not stopped and does not fail hands all responses to the sink. -/
theorem generateStreamWithSink_eq {ε Params σ : Type} {request : RouterGenerateRequest Params}
    {submit : RouterGenerateRequest Params → Except ε (Int32 × EngineStream ε)}
    {promptTokens : Int32} {outputs : List TokenGenerateOutput}
    (hsubmit : submit request = .ok (promptTokens, ⟨outputs, .ok ()⟩))
    (sink : σ → RouterGenerateResponse → σ × Bool) (s : σ) :
    generateStreamWithSink submit request sink s =
      ((feed sink s (RouterStreamState.streamResponses
        { promptTokens, stream := request.stream } outputs)).1, .ok ()) := by
  have hfeed := feed_responses sink { promptTokens, stream := request.stream } s outputs
  rw [← hfeed, generateStreamWithSink, hsubmit]
  dsimp only [EngineStream.withSink]
  split <;> rename_i h <;> rw [h]

end Incremental

namespace Generation

variable {Params : Type} (ε : Type) (g : Generation Params)

/-- The engine answers with the outputs of a generation. -/
def submit (_ : RouterGenerateRequest Params) : Except ε (Int32 × EngineStream ε) :=
  .ok (g.promptTokens, ⟨g.outs ++ [g.last], .ok ()⟩)

/-- The complete response with its text. -/
def completeWithText : RouterGenerateResponse where
  requestId := g.last.requestId.asStr
  body := .complete {
    outputIds := g.tokens
    text := g.text
    promptTokens := g.promptTokens
    completionTokens := Int32.ofNat g.tokens.length
    cachedTokens := Int32.ofNat g.last.cachedTokens }

variable {g}

/-- Responses that end with the complete one stream the text if the chunks make it up. -/
theorem streamsText_append {before : List RouterGenerateResponse} :
    g.StreamsText (before ++ [g.completeWithText]) ↔ chunkText before = g.text := by
  have hchunks : chunkText (before ++ [g.completeWithText]) = chunkText before := by
    rw [chunkText_append]
    exact String.append_empty
  constructor
  · rintro ⟨_, _, complete, -, -, htext, hall⟩
    rw [← hchunks, hall, htext]
  · exact fun h => ⟨before, _, _, rfl, rfl, rfl, hchunks.trans h⟩

variable (g)

/-- **With a sink the text is always right**, however the engine cuts the tokens. -/
theorem streamsText_sink : ∃ responses,
    generateTextStreamWithSink (g.submit ε) g.request record [] = (responses, .ok ()) ∧
      g.StreamsText responses := by
  have hresponses := @streamResponses_eq g.outs g.last g.promptTokens g.outs_unfinished
    g.last_finished [] true
  rw [List.nil_append, ← List.append_assoc] at hresponses
  have hbytes := decode_eq_ok_iff.mp g.decodes
  -- the chunks have all tokens
  generalize hchunks : chunksAfter g.promptTokens [] g.outs ++
    lastChunk g.promptTokens true (outputTokens (g.outs ++ [g.last])).length g.last = chunks
    at hresponses
  have htokens : chunkTokens chunks = outputTokens (g.outs ++ [g.last]) := by
    rw [← hchunks, chunkTokens_append, chunkTokens_chunksAfter, chunkTokens_lastChunk,
      outputTokens_append_singleton]
  have hbare : ∀ r ∈ chunks, IsBareChunk r := by
    rw [← hchunks]
    exact List.forall_mem_append.mpr ⟨isBareChunk_of_mem_chunksAfter, isBareChunk_of_mem_lastChunk⟩
  obtain ⟨d, ds, cs, filled, hcs, hleft, htext, hfeed⟩ := @feed_chunks {} [] _ _ _ hbare
    (htokens ▸ hbytes) (undecoded_of_nil (List.append_nil _)) []
  rw [hleft.nil.2, List.append_nil] at hcs
  rw [← hcs, String.ofList_toList] at htext
  rw [List.nil_append] at hfeed
  have hcomplete : feed (TextSink.push record) ⟨d, none, filled⟩
      [g.last.complete g.promptTokens (outputTokens (g.outs ++ [g.last]))] =
        (⟨d, none, filled ++ [g.completeWithText]⟩, true) := by
    simp only [feed, TextSink.push, fillIncrementalResponseText, TokenGenerateOutput.complete,
      g.decodes, Except.map, record]
    rfl
  have hall := feed_append (TextSink.push record) ⟨{}, none, []⟩ chunks
    [g.last.complete g.promptTokens (outputTokens (g.outs ++ [g.last]))]
  rw [hfeed, if_pos rfl, hcomplete, ← hresponses] at hall
  have hstream := @generateStreamWithSink_eq _ _ _ (g.request.tokenize true) (g.submit ε) _ _ rfl
    (TextSink.push record) { sink := [] }
  refine ⟨filled ++ [g.completeWithText], ?_, streamsText_append.mpr htext⟩
  rw [generateTextStreamWithSink, if_neg (by simp [g.text_ne]), hstream]
  dsimp only [RouterTextGenerateRequest.tokenize]
  rw [hall]

/-- The collected responses are right exactly if every output ends between characters and the last
one has no tokens. -/
theorem streamsText_collected_iff : (∃ responses,
    (tokenOutputsToGenerateResponses (g.outs ++ [g.last]) g.promptTokens true).mapM
        fillGenerateResponseText = .ok responses ∧ g.StreamsText responses) ↔
      g.CutsBetweenCharacters := by
  have hfill : fillGenerateResponseText
      (g.last.complete g.promptTokens (outputTokens (g.outs ++ [g.last]))) =
        .ok g.completeWithText := by
    simp only [fillGenerateResponseText, TokenGenerateOutput.complete, g.decodes]
    rfl
  obtain ⟨hok, htext⟩ := fill_chunksAfter g.promptTokens [] g.outs
  rw [tokenOutputsToGenerateResponses_eq g.outs_unfinished g.last_finished, if_pos rfl]
  have hsplit (responses : List RouterGenerateResponse) :
      (chunksAfter g.promptTokens [] g.outs ++
          [g.last.complete g.promptTokens (outputTokens (g.outs ++ [g.last]))]).mapM
        fillGenerateResponseText = .ok responses ↔
      ∃ filled, (chunksAfter g.promptTokens [] g.outs).mapM fillGenerateResponseText =
        .ok filled ∧ responses = filled ++ [g.completeWithText] := by
    have hlast : [g.last.complete g.promptTokens (outputTokens (g.outs ++ [g.last]))].mapM
        fillGenerateResponseText = .ok [g.completeWithText] :=
      mapM_cons_eq_ok.mpr ⟨_, [], hfill, rfl, rfl⟩
    rw [mapM_append_eq_ok_iff, hlast]
    constructor
    · rintro ⟨filled, _, hfilled, hcomplete, rfl⟩
      exact ⟨filled, hfilled, by rw [← Except.ok.inj hcomplete]⟩
    · rintro ⟨filled, hfilled, rfl⟩
      exact ⟨filled, _, hfilled, rfl, rfl⟩
  simp only [hsplit]
  have hdecodes := g.decodes
  rw [outputTokens_append_singleton] at hdecodes
  constructor
  · rintro ⟨_, ⟨filled, hfilled, rfl⟩, hstreams⟩
    have hchunks := htext filled hfilled
    rw [streamsText_append.mp hstreams] at hchunks
    -- the chunks already have the whole text, and nothing is left for the last output
    obtain ⟨rest, hrest⟩ := decode_of_append hdecodes hchunks
    have hall : g.text ++ rest = g.text :=
      Except.ok.inj ((decode_append hchunks hrest).symm.trans hdecodes)
    obtain rfl : rest = "" := String.append_eq_left_iff.mp hall
    exact ⟨hok.mp ⟨filled, hfilled⟩, eq_nil_of_decode hrest⟩
  · rintro ⟨hall, hlast⟩
    obtain ⟨filled, hfilled⟩ := hok.mpr hall
    have hchunks := htext filled hfilled
    rw [hlast, List.append_nil, hchunks] at hdecodes
    exact ⟨_, ⟨filled, hfilled, rfl⟩, streamsText_append.mpr (Except.ok.inj hdecodes)⟩

/-- The call of a stream fills in the collected responses. -/
theorem generateTextStream_eq : generateTextStream (g.submit ε) g.request =
    ((tokenOutputsToGenerateResponses (g.outs ++ [g.last]) g.promptTokens true).mapM
      fillGenerateResponseText).mapError .tokenizer := by
  rw [generateTextStream, if_neg (by simp [g.text_ne])]
  simp only [generateStream, submit, EngineStream.collect, RouterTextGenerateRequest.tokenize,
    g.stream_eq]
  rfl

end Generation

/-! ### A batch -/

section Batch

variable {Params : Type}

/-- The engine answers with the outputs of a batch of generations. -/
def submitGenerations (ε : Type) (batch : List (Generation Params))
    (_ : List (RouterGenerateRequest Params)) :
    Except ε (List (Int32 × List TokenGenerateOutput)) :=
  .ok (batch.map fun g => (g.promptTokens, g.outs ++ [g.last]))

theorem mapError_eq_ok_iff {ε ε' α : Type} {f : ε → ε'} {x : Except ε α} {a : α} :
    x.mapError f = .ok a ↔ x = .ok a := by
  cases x <;> simp [Except.mapError]

theorem generateBatchStream_eq (ε : Type) (batch : List (Generation Params)) :
    generateBatchStream (submitGenerations ε batch)
        (batch.map fun g => g.request.tokenize g.request.stream) =
      .ok (batch.map fun g =>
        tokenOutputsToGenerateResponses (g.outs ++ [g.last]) g.promptTokens true) := by
  simp only [generateBatchStream, submitGenerations, bind, Except.bind, pure, Except.pure]
  rw [List.zip_map', List.map_map]
  refine congrArg Except.ok (List.map_congr_left fun g _ => ?_)
  simp only [Function.comp_apply, RouterTextGenerateRequest.tokenize, g.stream_eq]

theorem generateTextBatchStream_eq (ε : Type) (batch : List (Generation Params)) :
    generateTextBatchStream (submitGenerations ε batch) (batch.map (·.request)) =
      batch.mapM fun g =>
        ((tokenOutputsToGenerateResponses (g.outs ++ [g.last]) g.promptTokens true).mapM
          fillGenerateResponseText).mapError .tokenizer := by
  have hnonempty : ¬(batch.map (·.request)).any (·.text.isEmpty) := by
    simp [Generation.text_ne]
  rw [generateTextBatchStream, if_neg hnonempty, List.map_map]
  simp only [Function.comp_def, generateBatchStream_eq]
  exact List.mapM_map

/-- **Streamed text is the decoded text.** The call that takes a sink streams the text of every
generation. The calls that collect the responses, of one request or of a batch, do so exactly if
every output ends between two characters and the last one has no tokens. -/
theorem streams_text_iff (ε : Type) (batch : List (Generation Params)) :
    ((∀ g ∈ batch,
        (∃ responses, generateTextStream (g.submit ε) g.request = .ok responses ∧
          g.StreamsText responses) ∧
        ∃ responses,
          generateTextStreamWithSink (g.submit ε) g.request record [] = (responses, .ok ()) ∧
            g.StreamsText responses) ∧
      ∃ responses,
        generateTextBatchStream (submitGenerations ε batch) (batch.map (·.request)) =
            .ok responses ∧
          List.Forall₂ Generation.StreamsText batch responses) ↔
    ∀ g ∈ batch, g.CutsBetweenCharacters := by
  have hcollected (g : Generation Params) : (∃ responses,
      ((tokenOutputsToGenerateResponses (g.outs ++ [g.last]) g.promptTokens true).mapM
        fillGenerateResponseText).mapError (@RouterRuntimeError.tokenizer ε) =
          .ok responses ∧ g.StreamsText responses) ↔ g.CutsBetweenCharacters := by
    simp only [mapError_eq_ok_iff]
    exact g.streamsText_collected_iff
  rw [generateTextBatchStream_eq, exists_mapM_forall₂_iff]
  simp only [Generation.generateTextStream_eq, hcollected]
  exact ⟨fun h => h.2, fun h => ⟨fun g hg => ⟨h g hg, g.streamsText_sink ε⟩, h⟩⟩

/-- The two bytes of "é" in two outputs. -/
def splitCharacter : Generation Unit where
  request := { requestId := "r", text := "a", stream := true, params := () }
  promptTokens := 1
  outs := [⟨⟨"r"⟩, [0xC3], 0, false⟩]
  last := ⟨⟨"r"⟩, [0xA9], 0, true⟩
  text := "é"
  text_ne := rfl
  stream_eq := rfl
  outs_unfinished := by simp
  last_finished := rfl
  decodes := decode_eq_ok_iff.mpr rfl

/-- The stream of a character that is cut fails. -/
theorem not_streams_text_splitCharacter :
    generateTextStream (splitCharacter.submit Empty) splitCharacter.request =
      .error (.tokenizer .invalidUtf8) := by
  rw [splitCharacter.generateTextStream_eq]
  rfl

end Batch

end SglangRs
