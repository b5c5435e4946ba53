import VibeRouter.Adapters.Http

/-! # The Anthropic adapter

The translation of stream events into chunks, and `executeStream`.  An event that its schema does
not accept is skipped. -/

namespace VibeRouter

namespace Anthropic

open Json

/-! ### Events -/

def normalizeStopReason (raw : Option JsString) : FinishReason :=
  match raw with
  | none => .stop
  | some reason =>
      if reason = js "end_turn" then .stop
      else if reason = js "stop_sequence" then .stop
      else if reason = js "max_tokens" then .length
      else if reason = js "tool_use" then .tool_calls
      else if reason = js "refusal" then .content_filter
      else if reason = js "pause_turn" then .stop
      else .stop

structure RawUsage where
  input_tokens : ℚ
  output_tokens : ℚ
  cache_creation_input_tokens : Option ℚ
  cache_read_input_tokens : Option ℚ

def usageSchema : Json → Option RawUsage := object fun v => do
  let input ← optionalMember asNumber "input_tokens" v
  let output ← optionalMember asNumber "output_tokens" v
  let creation ← nullishMember asNumber "cache_creation_input_tokens" v
  let read ← nullishMember asNumber "cache_read_input_tokens" v
  pure ⟨input.getD 0, output.getD 0, creation, read⟩

def toUsage (raw : RawUsage) : AIUsage where
  promptTokens := raw.input_tokens
  completionTokens := raw.output_tokens
  cachedReadTokens := raw.cache_read_input_tokens.getD 0
  cacheWriteTokens := raw.cache_creation_input_tokens.getD 0
  estimated := false

inductive ContentBlock
  | text
  | tool_use (id name : JsString)
  | thinking
  | redacted_thinking

inductive BlockDelta
  | text_delta (text : JsString)
  | input_json_delta (partial_json : JsString)
  | thinking_delta (thinking : JsString)
  | signature_delta

inductive AnthropicStreamEvent
  | message_start (usage : RawUsage)
  | content_block_start (index : ℚ) (block : ContentBlock)
  | content_block_delta (index : ℚ) (delta : BlockDelta)
  | content_block_stop (index : ℚ)
  | message_delta (stop_reason : Option JsString) (output_tokens : Option ℚ)
  | message_stop
  | ping
  | error (type message : JsString)

/-- `z.literal(name)` on the member `type`. -/
def hasType (v : Json) (name : String) : Bool := (v.member asString "type") = some (js name)

def contentBlockSchema : Json → Option ContentBlock := object fun v =>
  if hasType v "text" then some .text
  else if hasType v "tool_use" then do
    let id ← member asString "id" v
    let name ← member asString "name" v
    pure (.tool_use id name)
  else if hasType v "thinking" then some .thinking
  else if hasType v "redacted_thinking" then some .redacted_thinking
  else none

def blockDeltaSchema : Json → Option BlockDelta := object fun v =>
  if hasType v "text_delta" then (member asString "text" v).map .text_delta
  else if hasType v "input_json_delta" then (member asString "partial_json" v).map .input_json_delta
  else if hasType v "thinking_delta" then (member asString "thinking" v).map .thinking_delta
  else if hasType v "signature_delta" then some .signature_delta
  else none

/-- `parseStreamEvent`. -/
def parseStreamEvent : Json → Option AnthropicStreamEvent := object fun v =>
  if hasType v "message_start" then do
    let usage ← member (object (member usageSchema "usage")) "message" v
    pure (.message_start usage)
  else if hasType v "content_block_start" then do
    let index ← member asNumber "index" v
    let block ← member contentBlockSchema "content_block" v
    pure (.content_block_start index block)
  else if hasType v "content_block_delta" then do
    let index ← member asNumber "index" v
    let delta ← member blockDeltaSchema "delta" v
    pure (.content_block_delta index delta)
  else if hasType v "content_block_stop" then (member asNumber "index" v).map .content_block_stop
  else if hasType v "message_delta" then do
    let reason ← member (object (nullishMember asString "stop_reason")) "delta" v
    let usage ← nullishMember (object (optionalMember asNumber "output_tokens")) "usage" v
    pure (.message_delta reason usage.join)
  else if hasType v "message_stop" then some .message_stop
  else if hasType v "ping" then some .ping
  else if hasType v "error" then do
    let (type, message) ← member (object fun e => do
      let type ← member asString "type" e
      let message ← member asString "message" e
      pure (type, message)) "error" v
    pure (.error type message)
  else none

/-! ### Errors -/

def codeForAnthropicType (type : JsString) : ErrorCode :=
  if type = js "authentication_error" ∨ type = js "permission_error" then .auth_error
  else if type = js "rate_limit_error" then .rate_limited
  else if type = js "overloaded_error" then .provider_unavailable
  else if type = js "request_too_large" then .context_exceeded
  else if type = js "api_error" then .provider_unavailable
  else .provider_unavailable

def mapAnthropicStreamError (type message : JsString) : RouterError where
  code := codeForAnthropicType type
  message := "provider error (" ++ type.toText ++ ")"
  detail := [("providerErrorType", .str type.toText),
    ("providerMessage", .str (JsString.toText (message.take 500)))]

/-- `/prompt is too long|too many tokens|context/i`. -/
def tooLong : Regex :=
  .any [.word "prompt is too long", .word "too many tokens", .word "context"]

def mapAnthropicError : ProviderFailure → RouterError
  | .router e => e
  | .http status bodyText retryAfterSeconds =>
      let error := (parseData bodyText).bind fun body => body.field "error"
      let type := (error.bind fun e => e.member asString "type").getD []
      let message := (error.bind fun e => e.member asString "message").getD []
      let code : ErrorCode :=
        if type ≠ [] then
          if type = js "invalid_request_error" then
            if tooLong.test message then .context_exceeded else .invalid_request
          else codeForAnthropicType type
        else if status = 401 ∨ status = 403 then .auth_error
        else if status = 429 then .rate_limited
        else .provider_unavailable
      { code, message := "provider error (HTTP " ++ toString status ++ ")"
        detail := [("providerStatus", .num status)] ++
          (if type ≠ [] then [("providerErrorType", .str type.toText)] else []) ++
          [("providerBody", .str (JsString.toText (bodyText.take 500)))]
        retryAfterSeconds }
  | .timeout => { code := .provider_unavailable, message := "provider request timed out" }
  | .network message =>
      { code := .provider_unavailable, message := "provider unreachable",
        detail := [("reason", .str message)] }
  | .abort message | .error message => { code := .unknown, message }
  | .other => { code := .unknown, message := "adapter failure" }

/-! ### The stream state -/

structure AnthropicStreamState where
  usage : AIUsage := ⟨0, 0, 0, 0, false⟩
  stopReason : FinishReason := .stop
  toolIndexByBlock : JsMap ℚ ℕ := JsMap.empty
  nextToolIndex : ℕ := 0
  schemaTool : Option JsString := none
  schemaBlockIndex : Option ℚ := none

namespace AnthropicStreamState

/-- The chunks of an event, and the state after. -/
def handle (st : AnthropicStreamState) :
    AnthropicStreamEvent → Except RouterError (List StreamChunk × AnthropicStreamState)
  | .message_start usage => .ok ([], { st with usage := toUsage usage })
  | .content_block_start index block => match block with
    | .tool_use id name =>
        if st.schemaTool.any fun tool => tool ≠ [] ∧ name = tool then
          .ok ([], { st with schemaBlockIndex := some index })
        else
          .ok ([.tool_call_start st.nextToolIndex id name],
            { st with
              nextToolIndex := st.nextToolIndex + 1
              toolIndexByBlock := st.toolIndexByBlock.set index st.nextToolIndex })
    | _ => .ok ([], st)
  | .content_block_delta index delta => match delta with
    | .text_delta text => .ok ([.text_delta text], st)
    | .input_json_delta json =>
        if st.schemaBlockIndex = some index then .ok ([.text_delta json], st)
        else match st.toolIndexByBlock.get index with
          | none => .ok ([], st)
          | some toolIndex => .ok ([.tool_call_delta toolIndex json], st)
    | _ => .ok ([], st)
  | .message_delta reason output =>
      let st := match reason.filter fun r => r ≠ [] with
        | some r => { st with stopReason := normalizeStopReason (some r) }
        | none => st
      let st := match output with
        | some n => { st with usage := { st.usage with completionTokens := n } }
        | none => st
      .ok ([], st)
  | .message_stop =>
      let finish : FinishReason :=
        if st.schemaBlockIndex.isSome ∧ st.stopReason = .tool_calls ∧ st.nextToolIndex = 0 then .stop
        else st.stopReason
      .ok ([.finish finish (some st.usage)], st)
  | .error type message => .error (mapAnthropicStreamError type message)
  | .content_block_stop _ | .ping => .ok ([], st)

end AnthropicStreamState

/-! ### executeStream -/

def schemaToolName (name : String) : JsString := js ("emit_" ++ name)

/-- The tool that stands for the answer of a request with a schema. -/
def schemaToolOf (env : AIRequest) : Option JsString :=
  match env.responseFormat with
  | some (.json_schema name _ _ _) => some (schemaToolName name)
  | _ => none

/-- The chunks yielded from a state on, and how the generator ends. -/
def relayEvents (ended : Except ProviderFailure Unit) :
    AnthropicStreamState → List JsString → List StreamChunk × Except RouterError Unit
  | _, [] => ([], ended.mapError mapAnthropicError)
  | st, data :: events => match (parseData data).bind parseStreamEvent with
    | none => relayEvents ended st events
    | some event => match st.handle event with
      | .error e => ([], .error (mapAnthropicError (.router e)))
      | .ok (out, st) =>
          let (rest, result) := relayEvents ended st events
          (out ++ rest, result)

def executeStream (env : AIRequest) (stream : ProviderStream) :
    List StreamChunk × Except RouterError Unit :=
  relayEvents stream.ended { schemaTool := schemaToolOf env } stream.events

end Anthropic

end VibeRouter
