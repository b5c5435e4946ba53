import VibeRouter.Gateway.Envelope

/-! # Wire shapes

Clients speak the OpenAI wire format; the router speaks the envelope internally.
`toChatCompletion` is the body that answers a request without a stream. -/

namespace VibeRouter

/-- The wire format counts cached tokens as prompt tokens. -/
def toOpenAiUsage (u : AIUsage) : Json :=
  let promptWire := u.promptTokens + u.cachedReadTokens + u.cacheWriteTokens
  .obj ([(js "prompt_tokens", .num promptWire), (js "completion_tokens", .num u.completionTokens),
      (js "total_tokens", .num (promptWire + u.completionTokens))] ++
    if 0 < u.cachedReadTokens then
      [(js "prompt_tokens_details", .obj [(js "cached_tokens", .num u.cachedReadTokens)])]
    else [])

def FINISH_MAP : FinishReason → String
  | .stop => "stop"
  | .length => "length"
  | .tool_calls => "tool_calls"
  | .content_filter => "content_filter"
  | .error => "stop"

def ToolCall.toWire (tc : ToolCall) : Json :=
  .obj [(js "id", .str (js tc.id)), (js "type", .str (js "function")),
    (js "function", .obj [(js "name", .str (js tc.name)), (js "arguments", .str tc.arguments)])]

/-- `content || (toolCalls?.length ? null : '')`, and the calls when there are any. -/
def ResponseMessage.toWire (m : ResponseMessage) : Json :=
  let calls := m.toolCalls.getD []
  .obj ([(js "role", .str (js "assistant")),
      (js "content", if m.content ≠ [] then .str m.content
        else if calls ≠ [] then .null else .str [])] ++
    if calls ≠ [] then [(js "tool_calls", .arr (calls.map ToolCall.toWire))] else [])

/-- The answer to a request, sent at the time `now` in milliseconds. -/
def toChatCompletion (requestId : String) (now : ℕ) (res : AIResponse) : Json :=
  .obj [(js "id", .str (js ("chatcmpl-" ++ requestId))),
    (js "object", .str (js "chat.completion")),
    (js "created", .num ((now / 1000 : ℕ) : ℚ)),
    (js "model", .str (js res.served.model)),
    (js "choices", .arr [.obj [(js "index", .num 0), (js "message", res.message.toWire),
      (js "finish_reason", .str (js (FINISH_MAP res.finishReason))), (js "logprobs", .null)]]),
    (js "usage", toOpenAiUsage res.usage),
    (js "vibe", .obj [(js "provider_id", .str (js res.served.providerId.text)),
      (js "latency_ms", .num (res.served.latencyMs : ℚ))])]

end VibeRouter
