import VibeRouter.Adapters.Http

/-! # The OpenAI-compatible adapter

The translation of stream frames into chunks, and `executeStream`.  A frame that its schema does
not accept yields nothing, and neither does one the schema accepts but that has no choices and no
usage. -/

namespace VibeRouter

namespace OpenaiCompat

open Json

/-! ### Frames -/

def normalizeFinishReason (raw : Option JsString) : FinishReason :=
  match raw with
  | none => .stop
  | some reason =>
      if reason = js "stop" then .stop
      else if reason = js "length" then .length
      else if reason = js "tool_calls" then .tool_calls
      else if reason = js "function_call" then .tool_calls
      else if reason = js "content_filter" then .content_filter
      else if reason = js "eos" then .stop
      else if reason = js "end_turn" then .stop
      else if reason = js "max_tokens" then .length
      else if reason = js "insufficient_system_resource" then .error
      else .stop

structure RawUsage where
  prompt_tokens : Option ℚ
  completion_tokens : Option ℚ
  cached_tokens : Option ℚ
  prompt_cache_hit_tokens : Option ℚ

def usageSchema : Json → Option RawUsage := object fun v => do
  let prompt ← optionalMember asNumber "prompt_tokens" v
  let completion ← optionalMember asNumber "completion_tokens" v
  let details ← nullishMember (object (optionalMember asNumber "cached_tokens"))
    "prompt_tokens_details" v
  let hit ← optionalMember asNumber "prompt_cache_hit_tokens" v
  pure ⟨prompt, completion, details.join, hit⟩

/-- Prompt tokens are counted without the cached ones. -/
def extractUsage (raw : Option RawUsage) : AIUsage :=
  match raw with
  | none => { EMPTY_USAGE with estimated := true }
  | some raw =>
      if raw.prompt_tokens.isNone && raw.completion_tokens.isNone then
        { EMPTY_USAGE with estimated := true }
      else
        let cached := (raw.cached_tokens <|> raw.prompt_cache_hit_tokens).getD 0
        { promptTokens := max 0 (raw.prompt_tokens.getD 0 - cached)
          completionTokens := raw.completion_tokens.getD 0
          cachedReadTokens := cached
          cacheWriteTokens := 0
          estimated := false }

structure RawToolCall where
  index : Option ℚ
  id : Option JsString
  name : Option JsString
  arguments : Option JsString

structure RawChoice where
  content : Option JsString
  tool_calls : List RawToolCall
  finish_reason : Option JsString

structure RawChunk where
  choice : Option RawChoice
  usage : Option RawUsage

def toolCallSchema : Json → Option RawToolCall := object fun v => do
  let index ← optionalMember asNumber "index" v
  let id ← nullishMember asString "id" v
  let function ← nullishMember (object fun f => do
    let name ← nullishMember asString "name" f
    let arguments ← nullishMember asString "arguments" f
    pure (name, arguments)) "function" v
  pure ⟨index, id, function.bind Prod.fst, function.bind Prod.snd⟩

def choiceSchema : Json → Option RawChoice := object fun v => do
  let delta ← nullishMember (object fun d => do
    let content ← nullishMember asString "content" d
    let calls ← nullishMember (array toolCallSchema) "tool_calls" d
    pure (content, calls.getD [])) "delta" v
  let finish ← nullishMember asString "finish_reason" v
  pure ⟨delta.bind Prod.fst, (delta.map Prod.snd).getD [], finish⟩

/-- `chunkSchema`; of the choices only the first is read. -/
def chunkSchema : Json → Option RawChunk := object fun v => do
  let choices ← optionalMember (array choiceSchema) "choices" v
  let usage ← nullishMember usageSchema "usage" v
  pure ⟨choices.bind List.head?, usage⟩

/-- A text that is there and is not empty. -/
def nonEmpty (s : Option JsString) : Option JsString := s.filter fun s => s ≠ []

/-! ### The stream state -/

structure OpenAiStreamState where
  started : JsMap ℚ Bool := JsMap.empty
  nextImplicitIndex : ℚ := 0
  indexMap : JsMap ℚ ℚ := JsMap.empty

namespace OpenAiStreamState

variable [Platform] (st : OpenAiStreamState)

/-- The index of a tool call, and the state after. -/
def resolveIndex (rawIndex : Option ℚ) (isStart : Bool) : ℚ × OpenAiStreamState :=
  match rawIndex with
  | some raw => match st.indexMap.get raw with
    | some index => (index, st)
    | none => (raw, { st with indexMap := st.indexMap.set raw raw })
  | none =>
      let next : ℚ := if isStart then st.started.size else st.nextImplicitIndex
      (next, { st with nextImplicitIndex := next })

/-- `` `call_${index}` ``. -/
def syntheticId (index : ℚ) : JsString := js "call_" ++ Platform.numberText index

/-- One tool call of a frame. -/
def toolCall (tc : RawToolCall) : List StreamChunk × OpenAiStreamState :=
  let (index, st) := st.resolveIndex tc.index tc.name.isSome
  let (start, st) := match tc.name with
    | some name =>
        if (st.started.get index).getD false then ([], st)
        else ([StreamChunk.tool_call_start index (tc.id.getD (syntheticId index)) name],
          { st with started := st.started.set index true })
    | none => ([], st)
  let delta := match nonEmpty tc.arguments with
    | some arguments => [StreamChunk.tool_call_delta index arguments]
    | none => []
  (start ++ delta, st)

def toolCalls : OpenAiStreamState → List RawToolCall → List StreamChunk × OpenAiStreamState
  | st, [] => ([], st)
  | st, tc :: tcs =>
      let (out, st) := st.toolCall tc
      let (rest, st) := toolCalls st tcs
      (out ++ rest, st)

/-- The finish of a frame.  Usage on a frame of its own is a finish; usage on a frame with content
but no finish is not. -/
def finishOf (chunk : RawChunk) : List StreamChunk :=
  let content := (chunk.choice.bind fun c => nonEmpty c.content).isSome
  let calls := (chunk.choice.map fun c => !c.tool_calls.isEmpty).getD false
  let finish := chunk.choice.bind fun c => nonEmpty c.finish_reason
  let usage := chunk.usage.filter fun u => u.prompt_tokens.isSome
  match finish, usage with
  | some reason, usage =>
      [.finish (normalizeFinishReason (some reason)) (usage.map fun u => extractUsage (some u))]
  | none, some u => if content || calls then [] else [.finish .stop (some (extractUsage (some u)))]
  | none, none => []

def handle (raw : Json) : List StreamChunk × OpenAiStreamState :=
  match chunkSchema raw with
  | none => ([], st)
  | some chunk =>
      let text := match chunk.choice.bind fun c => nonEmpty c.content with
        | some content => [StreamChunk.text_delta content]
        | none => []
      let (calls, st) := st.toolCalls ((chunk.choice.map RawChoice.tool_calls).getD [])
      (text ++ calls ++ finishOf chunk, st)

end OpenAiStreamState

/-! ### Errors -/

/-- `body.toLowerCase().includes(word)`, for words of plain letters. -/
def mentions (body : JsString) (word : String) : Bool := (Regex.word word).test body

def mapProviderError : ProviderFailure → RouterError
  | .router e => e
  | .http status bodyText retryAfterSeconds =>
      let code : ErrorCode :=
        if status = 401 ∨ status = 403 then .auth_error
        else if status = 429 then .rate_limited
        else if status = 400 ∧ (mentions bodyText "context_length" ∨
            mentions bodyText "context length" ∨ mentions bodyText "maximum context") then
          .context_exceeded
        else if status = 400 ∧ mentions bodyText "content_filter" then .content_filtered
        else .provider_unavailable
      { code, message := "provider error (HTTP " ++ toString status ++ ")"
        detail := [("providerStatus", .num status),
          ("providerBody", .str (JsString.toText (bodyText.take 500)))]
        retryAfterSeconds }
  | .timeout => { code := .provider_unavailable, message := "provider request timed out" }
  | .abort _ => { code := .unknown, message := "request aborted" }
  | .network message =>
      { code := .provider_unavailable, message := "provider unreachable",
        detail := [("reason", .str message)] }
  | .error message => { code := .unknown, message }
  | .other => { code := .unknown, message := "adapter failure" }

/-! ### executeStream -/

variable [Platform]

def estimateUsage (env : AIRequest) (completionText : JsString) : AIUsage where
  promptTokens := max 1 (quarter (messagesLength env))
  completionTokens := max (if 0 < completionText.length then 1 else 0) (quarter completionText.length)
  cachedReadTokens := 0
  cacheWriteTokens := 0
  estimated := true

/-- What the loop keeps. -/
structure StreamLoop where
  finishSeen : Option FinishReason := none
  sawUsage : Bool := false
  collected : JsString := []
  state : OpenAiStreamState := {}

namespace StreamLoop

/-- What is yielded for a chunk of a frame: a finish without usage is held. -/
def chunk (q : StreamLoop) : StreamChunk → List StreamChunk × StreamLoop
  | .finish reason (some usage) =>
      ([.finish (q.finishSeen.getD reason) (some usage)], { q with sawUsage := true })
  | .finish reason none => ([], { q with finishSeen := some reason })
  | .text_delta delta => ([.text_delta delta], { q with collected := q.collected ++ delta })
  | c => ([c], q)

def chunks : StreamLoop → List StreamChunk → List StreamChunk × StreamLoop
  | q, [] => ([], q)
  | q, c :: cs =>
      let (out, q) := q.chunk c
      let (rest, q) := chunks q cs
      (out ++ rest, q)

def frame (q : StreamLoop) (raw : Json) : List StreamChunk × StreamLoop :=
  let (out, state) := q.state.handle raw
  { q with state := state }.chunks out

/-- After the loop: a finish with estimated usage, unless the provider has reported its usage. -/
def close (env : AIRequest) (q : StreamLoop) : List StreamChunk :=
  if q.sawUsage then []
  else [.finish (q.finishSeen.getD .stop) (some (estimateUsage env q.collected))]

end StreamLoop

/-- The chunks yielded from a state of the loop on, and how the generator ends. -/
def relayFrames (env : AIRequest) (ended : Except ProviderFailure Unit) :
    StreamLoop → List JsString → List StreamChunk × Except RouterError Unit
  | q, [] => match ended with
    | .ok () => (q.close env, .ok ())
    | .error failure => ([], .error (mapProviderError failure))
  | q, data :: events =>
      if data = js "[DONE]" then (q.close env, .ok ())
      else match parseData data with
        | none => relayFrames env ended q events
        | some raw =>
            let (out, q) := q.frame raw
            let (rest, result) := relayFrames env ended q events
            (out ++ rest, result)

def executeStream (env : AIRequest) (stream : ProviderStream) :
    List StreamChunk × Except RouterError Unit :=
  relayFrames env stream.ended {} stream.events

end OpenaiCompat

end VibeRouter
