import VibeRouter.Gateway.Errors
import VibeRouter.Gateway.OpenaiShape
import VibeRouter.Platform

/-! # The relay of a stream

A stream is relayed as server-sent events: each chunk of the envelope becomes the objects of
`toChunkObjects`, one event each; between events the relay may write heartbeats. -/

namespace VibeRouter

def ErrorCode.text : ErrorCode → String
  | .invalid_request => "invalid_request"
  | .auth_error => "auth_error"
  | .rate_limited => "rate_limited"
  | .provider_unavailable => "provider_unavailable"
  | .context_exceeded => "context_exceeded"
  | .content_filtered => "content_filtered"
  | .policy_blocked => "policy_blocked"
  | .scrubber_blocked => "scrubber_blocked"
  | .capability_missing => "capability_missing"
  | .no_vision_provider => "no_vision_provider"
  | .invalid_response => "invalid_response"
  | .budget_exceeded => "budget_exceeded"
  | .unknown => "unknown"

def DetailValue.toJson : DetailValue → Json
  | .str s => .str (js s)
  | .num n => .num n
  | .counts cs => .obj (cs.map fun c => (js c.1, .num c.2))
  | .texts ss => .arr (ss.map fun s => .str (js s))

/-- The body for an error. -/
def errorBody (err : RouterError) : Json :=
  .obj [(js "error", .obj ([(js "message", .str (js err.message)),
      (js "type", .str (js (if err.code = .invalid_request then "invalid_request_error"
        else "router_error"))),
      (js "code", .str (js err.code.text))] ++
    if err.detail ≠ [] then
      [(js "detail", .obj (err.detail.map fun d => (js d.1, d.2.toJson)))]
    else []))]

/-! ### Chunk objects -/

/-- What all objects of a chunk begin with, sent at the time `now` in milliseconds. -/
def chunkBase (requestId model : String) (now : ℕ) : List (JsString × Json) :=
  [(js "id", .str (js ("chatcmpl-" ++ requestId))), (js "object", .str (js "chat.completion.chunk")),
    (js "created", .num ((now / 1000 : ℕ) : ℚ)), (js "model", .str (js model))]

/-- An object with one choice. -/
def choiceObject (base delta : List (JsString × Json)) (finishReason : Json) : Json :=
  .obj (base ++ [(js "choices", .arr [.obj [(js "index", .num 0), (js "delta", .obj delta),
    (js "finish_reason", finishReason)]])])

/-- The objects of one chunk; only the first one of a stream has a role. -/
def toChunkObjects (requestId model : String) (now : ℕ) (chunk : StreamChunk) (first : Bool) :
    List Json :=
  let base := chunkBase requestId model now
  let roleDelta := if first then [(js "role", Json.str (js "assistant"))] else []
  match chunk with
  | .text_delta delta => [choiceObject base (roleDelta ++ [(js "content", .str delta)]) .null]
  | .tool_call_start index id name =>
      [choiceObject base (roleDelta ++ [(js "tool_calls", .arr [.obj [(js "index", .num index),
        (js "id", .str id), (js "type", .str (js "function")),
        (js "function", .obj [(js "name", .str name), (js "arguments", .str [])])]])]) .null]
  | .tool_call_delta index argumentsDelta =>
      [choiceObject base [(js "tool_calls", .arr [.obj [(js "index", .num index),
        (js "function", .obj [(js "arguments", .str argumentsDelta)])]])] .null]
  | .finish finishReason usage =>
      choiceObject base [] (.str (js (FINISH_MAP finishReason))) ::
        (usage.map fun u =>
          .obj (base ++ [(js "choices", .arr []), (js "usage", toOpenAiUsage u)])).toList

/-! ### Server-sent events -/

def HEARTBEAT : JsString := js ": heartbeat\n\n"

def DONE : JsString := js "data: [DONE]\n\n"

/-- Why the relay stops: the stream has ended, the client is gone, or the stream has thrown. -/
inductive RelayEnd
  | ended
  | aborted
  | threw (err : Thrown)

section
variable [Platform]

/-- One event. -/
def event (v : Json) : JsString := js "data: " ++ v.stringify Platform.numberText ++ js "\n\n"

/-- The end of the relay. -/
def RelayEnd.writes : RelayEnd → List JsString
  | ended => [DONE]
  | aborted => []
  | threw err => [event (errorBody (toRouterError err)), DONE]

/-- What the relay writes for a stream; each chunk comes with the time at which it is relayed. -/
def relayed (requestId model : String) : Bool → List (ℕ × StreamChunk) → RelayEnd → List JsString
  | _, [], outcome => outcome.writes
  | first, (now, chunk) :: chunks, outcome =>
      (toChunkObjects requestId model now chunk first).map event ++
        relayed requestId model false chunks outcome

end

/-- The same writes with heartbeats in between. -/
inductive WithHeartbeats : List JsString → List JsString → Prop
  | nil : WithHeartbeats [] []
  | write {w : JsString} {ws vs : List JsString} (h : WithHeartbeats ws vs) :
      WithHeartbeats (w :: ws) (w :: vs)
  | heartbeat {ws vs : List JsString} (h : WithHeartbeats ws vs) : WithHeartbeats ws (HEARTBEAT :: vs)

end VibeRouter
